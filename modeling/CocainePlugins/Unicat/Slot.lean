import CocainePlugins.Framework.Transition
import CocainePlugins.Unicat.Task

/-!
# A request

`alter_slot_t::operator()`: the entities are sorted by scheme and service, and for each
of them a chain of handlers is started. All of them share the completion state, whose
destructor sends the answer, so it is sent when the function has been left and the last
handler is gone. An exception leaves the function through its `catch` blocks, which send
an answer of their own; the function's own reference to the completion state is dropped
before that.
-/

namespace Cocaine.Unicat

open Framework Unicorn

/-! ## The entities of a request -/

/-- `entity_type`. -/
structure EntityArg where
  scheme : Str
  service : Option Str
  entity : Str
deriving DecidableEq

def defaultServiceName : Str := "core".toList

def EntityArg.serviceName (a : EntityArg) : Str :=
  match a.service with
  | some service => if service.isEmpty then defaultServiceName else service
  | none => defaultServiceName

/-- The entities of one service. -/
structure Group where
  scheme : Scheme
  serviceName : Str
  entities : List Str
deriving DecidableEq

def Group.urls (g : Group) : List Url := g.entities.map fun e => ⟨g.scheme, g.serviceName, e⟩

/-- The order of the maps. -/
def Group.precedes (scheme : Scheme) (serviceName : Str) (g : Group) : Bool :=
  match scheme, g.scheme with
  | .storage, .unicorn => true
  | .unicorn, .storage => false
  | _, _ => decide (serviceName < g.serviceName)

/-- `separated[scheme][serviceName].push_back(entity)`. -/
def addEntity (scheme : Scheme) (serviceName entity : Str) : List Group → List Group
  | [] => [⟨scheme, serviceName, [entity]⟩]
  | g :: gs =>
    if g.scheme = scheme ∧ g.serviceName = serviceName then
      { g with entities := g.entities ++ [entity] } :: gs
    else if g.precedes scheme serviceName then ⟨scheme, serviceName, [entity]⟩ :: g :: gs
    else g :: addEntity scheme serviceName entity gs

def separateByScheme (args : List EntityArg) : Except Exception (List Group) :=
  args.foldlM (fun gs a =>
    (schemeFromString a.scheme).map fun scheme => addEntity scheme a.serviceName a.entity gs) []

theorem mem_addEntity (scheme : Scheme) (serviceName entity : Str) (gs : List Group) (u : Url) :
    u ∈ (addEntity scheme serviceName entity gs).flatMap Group.urls ↔
      u = ⟨scheme, serviceName, entity⟩ ∨ u ∈ gs.flatMap Group.urls := by
  induction gs with
  | nil => simp [addEntity, Group.urls]
  | cons g gs ih =>
    unfold addEntity
    split
    · rename_i hg
      obtain ⟨rfl, rfl⟩ := hg
      simp only [List.flatMap_cons, List.mem_append, Group.urls, List.map_append, List.map_cons,
        List.map_nil, List.mem_singleton]
      rw [or_assoc, or_left_comm]
    · split
      · simp [Group.urls]
      · simp only [List.flatMap_cons, List.mem_append, ih]
        rw [or_left_comm]

theorem mem_separateByScheme {args : List EntityArg} {gs : List Group}
    (h : separateByScheme args = .ok gs) {a : EntityArg} (ha : a ∈ args) :
    ∃ scheme, schemeFromString a.scheme = .ok scheme ∧
      ⟨scheme, a.serviceName, a.entity⟩ ∈ gs.flatMap Group.urls := by
  have hfold : ∀ (args : List EntityArg) (gs₀ gs : List Group),
      args.foldlM (fun gs a => (schemeFromString a.scheme).map fun scheme =>
        addEntity scheme a.serviceName a.entity gs) gs₀ = Except.ok gs →
      (∀ u ∈ gs₀.flatMap Group.urls, u ∈ gs.flatMap Group.urls) ∧
      ∀ a ∈ args, ∃ scheme, schemeFromString a.scheme = .ok scheme ∧
        ⟨scheme, a.serviceName, a.entity⟩ ∈ gs.flatMap Group.urls := by
    intro args
    induction args with
    | nil =>
      intro gs₀ gs h
      cases h
      exact ⟨fun _ hu => hu, by simp⟩
    | cons a args ih =>
      intro gs₀ gs h
      rw [List.foldlM_cons] at h
      rcases hs : schemeFromString a.scheme with x | scheme
      · rw [hs] at h
        cases h
      · rw [hs] at h
        obtain ⟨hkeep, hall⟩ := ih _ gs h
        refine ⟨fun u hu => hkeep u ((mem_addEntity _ _ _ _ u).mpr (.inr hu)), ?_⟩
        rw [List.forall_mem_cons]
        exact ⟨⟨scheme, hs, hkeep _ ((mem_addEntity _ _ _ _ _).mpr (.inl rfl))⟩, hall⟩
  exact (hfold args [] gs h).2 a ha

/-! ## The function -/

structure Request where
  op : Operation
  entities : List EntityArg
  data : AlterData
deriving DecidableEq

/-- The code of an error response. -/
inductive Response where
  | value
  | error (code : ErrorCode) (what : Str)
deriving DecidableEq

/-- Where the function is. -/
inductive Frame where
  /-- Before the next group. -/
  | groups (rest : List Group)
  /-- In a group, before the next entity. -/
  | entities (g : Group) (identity : Identity) (rest : List Str) (groups : List Group)
  | returned
  /-- Left by an exception, before the `catch` block. -/
  | unwound (x : Exception)
  | caught
deriving DecidableEq

/-- The reference to the completion state is dropped. -/
def Frame.left : Frame → Bool
  | .groups _ | .entities _ _ _ _ => false
  | .returned | .unwound _ | .caught => true

structure Slot where
  frame : Frame
  tasks : List Task := []
  /-- The completion state, oldest first. -/
  completions : List Completion := []
  finalized : Bool := false
  /-- The responses, newest first. -/
  sent : List Response := []
  /-- The calls of the backends, newest first. -/
  calls : List BackendCall := []
  /-- The lists that the backends have stored. -/
  rewritten : List (Url × Metainfo) := []
deriving DecidableEq

/-- `TAKE_EXCEPT_TRACE`. -/
def takeExceptTrace : Nat := 10

/-- What `finalize` sends. -/
def summary (completions : List Completion) : Response :=
  match completions.filterMap Completion.report with
  | [] => .value
  | errors => .error .uncaughtError (", ".toList.intercalate (errors.take takeExceptTrace))

/-- What the `catch` blocks send. -/
def Exception.response : Exception → Response
  | .system code what => .error code what
  | .other what => .error .uncaughtError what

namespace Slot

inductive Label where
  /-- The next group: what `identify` returns, and what `make_backend` throws. -/
  | group (identity : Except Exception Identity) (fault : Option Exception)
  /-- The next entity: what `async_verify_read` throws. -/
  | entity (fault : Option Exception)
  /-- The backend has invoked handlers inside the call, and what one of them throws leaves
  the function. -/
  | escape (x : Exception)
  /-- The end of a loop. -/
  | leave
  | reply (k : Nat) (r : Reply)
  /-- The backend destroys a handler that it has not invoked. -/
  | drop (k : Nat)
  /-- The destructor of the completion state. -/
  | finalize
  /-- The `catch` block. -/
  | handle
deriving DecidableEq

/-- The function is left by an exception. -/
def Label.throws : Label → Bool
  | .group (.error _) _ | .group (.ok _) (some _) | .entity (some _) | .escape _ => true
  | _ => false

def start (r : Request) : Slot where
  frame :=
    match separateByScheme r.entities with
    | .ok gs => .groups gs
    | .error x => .unwound x

def idle (s : Slot) : Bool := s.tasks.all fun t => t.stage == .finished

def apply (s : Slot) (k : Nat) (t : Task) (e : Effect) : Slot :=
  { s with
    tasks := s.tasks.set k { t with stage := e.stage }
    completions := s.completions ++ e.completion.toList
    calls := e.calls ++ s.calls
    rewritten := (e.written.map fun m => (t.url, m)).toList ++ s.rewritten }

def step (r : Request) (s : Slot) : Label → Option Slot
  | .group identity fault =>
    match s.frame with
    | .groups (g :: rest) =>
      match identity, fault with
      | .error x, _ | .ok _, some x => some { s with frame := .unwound x }
      | .ok i, none => some { s with frame := .entities g i g.entities rest }
    | _ => none
  | .entity fault =>
    match s.frame with
    | .entities g i (e :: es) rest =>
      let url : Url := ⟨g.scheme, g.serviceName, e⟩
      let calls := .verify .read url i :: s.calls
      match fault with
      | some x => some { s with frame := .unwound x, calls }
      | none =>
        some { s with
          frame := .entities g i es rest
          tasks := s.tasks ++ [⟨url, i, .verifying .onVerifyRead .read⟩]
          calls }
    | _ => none
  | .escape x =>
    match s.frame with
    | .entities _ _ _ _ => some { s with frame := .unwound x }
    | _ => none
  | .leave =>
    match s.frame with
    | .entities _ _ [] rest => some { s with frame := .groups rest }
    | .groups [] => some { s with frame := .returned }
    | _ => none
  | .reply k reply =>
    match s.tasks[k]? with
    | some t => (t.reply r.op r.data reply).map (s.apply k t)
    | none => none
  | .drop k =>
    match s.tasks[k]? with
    | some t =>
      if t.stage = .finished then none
      else some { s with tasks := s.tasks.set k { t with stage := .finished } }
    | none => none
  | .finalize =>
    if s.frame.left && s.idle && !s.finalized then
      some { s with finalized := true, sent := summary s.completions :: s.sent }
    else none
  | .handle =>
    match s.frame with
    | .unwound x =>
      if s.finalized || !s.idle then some { s with frame := .caught, sent := x.response :: s.sent }
      else none
    | _ => none

inductive Stepped (r : Request) (s : Slot) : Label → Slot → Prop where
  | thrown {a : Label} {x : Exception} (calls : List BackendCall)
    (hc : calls = [] ∨ ∃ url i, calls = [.verify .read url i]) (ha : a.throws = true) :
    Stepped r s a { s with frame := .unwound x, calls := calls ++ s.calls }
  | group {g : Group} {rest : List Group} {i : Identity} (hf : s.frame = .groups (g :: rest)) :
    Stepped r s (.group (.ok i) none) { s with frame := .entities g i g.entities rest }
  | entity {g : Group} {i : Identity} {e : Str} {es : List Str} {rest : List Group}
    (hf : s.frame = .entities g i (e :: es) rest) :
    Stepped r s (.entity none)
      { s with
        frame := .entities g i es rest
        tasks := s.tasks ++ [⟨⟨g.scheme, g.serviceName, e⟩, i, .verifying .onVerifyRead .read⟩]
        calls := .verify .read ⟨g.scheme, g.serviceName, e⟩ i :: s.calls }
  | next {g : Group} {i : Identity} {rest : List Group} (hf : s.frame = .entities g i [] rest) :
    Stepped r s .leave { s with frame := .groups rest }
  | ret (hf : s.frame = .groups []) : Stepped r s .leave { s with frame := .returned }
  | reply {k : Nat} {t : Task} {reply : Reply} {e : Effect} (hk : s.tasks[k]? = some t)
    (he : Replied r.op r.data t reply e) : Stepped r s (.reply k reply) (s.apply k t e)
  | drop {k : Nat} {t : Task} (hk : s.tasks[k]? = some t) :
    Stepped r s (.drop k) { s with tasks := s.tasks.set k { t with stage := .finished } }
  | finalize (hf : s.frame.left = true) (hi : s.idle = true) (hn : s.finalized = false) :
    Stepped r s .finalize { s with finalized := true, sent := summary s.completions :: s.sent }
  | handle {x : Exception} (hf : s.frame = .unwound x) :
    Stepped r s .handle { s with frame := .caught, sent := x.response :: s.sent }

theorem stepped {r : Request} {s s' : Slot} {a : Label} (h : s.step r a = some s') :
    Stepped r s a s' := by
  cases a with
  | group identity fault =>
    simp only [step] at h
    split at h
    · rename_i g rest hf
      split at h
      · cases h
        exact .thrown [] (.inl rfl) rfl
      · cases h
        exact .thrown [] (.inl rfl) rfl
      · cases h
        exact .group hf
    · cases h
  | entity fault =>
    simp only [step] at h
    split at h
    · rename_i g i e es rest hf
      split at h
      · cases h
        exact .thrown [_] (.inr ⟨_, _, rfl⟩) rfl
      · cases h
        exact .entity hf
    · cases h
  | escape x =>
    simp only [step] at h
    split at h
    · cases h
      exact .thrown [] (.inl rfl) rfl
    · cases h
  | leave =>
    simp only [step] at h
    split at h
    · rename_i hf
      cases h
      exact .next hf
    · rename_i hf
      cases h
      exact .ret hf
    · cases h
  | reply k reply =>
    simp only [step] at h
    split at h
    · rename_i t hk
      obtain ⟨e, he, rfl⟩ := Option.map_eq_some_iff.mp h
      exact .reply hk (Task.replied he)
    · cases h
  | drop k =>
    simp only [step] at h
    split at h
    · rename_i t hk
      split at h
      · cases h
      · cases h
        exact .drop hk
    · cases h
  | finalize =>
    obtain ⟨hc, rfl⟩ := of_guard h
    simp only [Bool.and_eq_true, Bool.not_eq_true'] at hc
    exact .finalize hc.1.1 hc.1.2 hc.2
  | handle =>
    simp only [step] at h
    split at h
    · rename_i hf
      obtain ⟨-, rfl⟩ := of_guard h
      exact .handle hf
    · cases h

end Slot

def slotSystem (r : Request) : System Slot Slot.Label where
  init s := s = .start r
  step := Slot.step r

end Cocaine.Unicat
