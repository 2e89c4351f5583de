import CocainePlugins.Framework.Text
import CocainePlugins.Framework.Timer
import CocainePlugins.Framework.Transition

/-!
# Loading the cluster filters

`load_filters` creates the folder of the cluster filters, subscribes to its children, and to each
of them. When the folder cannot be created, or the subscription to it fails, all is to be done
again after five seconds.

The wait for that is started before the deadline is set, which aborts it. The handler of a failed
create returns then, so nothing is tried again; the handler of a failed subscription does not look
at the code and tries at once.
-/

namespace Cocaine.Logging

open Framework

def isSpace (c : Char) : Bool := c = ' ' || (9 ≤ c.toNat && c.toNat ≤ 13)

/-- `std::stoull`: what follows the digits is ignored, and a negative number wraps around. -/
def stoull (s : Str) : Option Nat :=
  let s := s.dropWhile isSpace
  let p : Bool × Str :=
    match s with
    | '-' :: s => (true, s)
    | '+' :: s => (false, s)
    | s => (false, s)
  let digits := p.2.takeWhile Char.isDigit
  let n := digits.foldl (fun n c => 10 * n + (c.toNat - '0'.toNat)) 0
  if digits = [] ∨ 2 ^ 64 ≤ n then none else some (if p.1 then (2 ^ 64 - n) % 2 ^ 64 else n)

/-- What failed. -/
inductive Cause where
  | create | list
deriving DecidableEq, Repr

/-- A handler of the retry timer, with the time of the failure. -/
structure Failure where
  cause : Cause
  time : Nat
deriving DecidableEq, Repr

/-- A retry that was started. -/
structure Retry where
  failed : Nat
  started : Nat
deriving DecidableEq, Repr

inductive Creation where
  | created | existing | failed
deriving DecidableEq, Repr

/-- What `on_filter` gets, a value being missing, past its deadline, unreadable or a filter. -/
inductive FilterUpdate where
  | missing | deadlined | unreadable | filter | failed
deriving DecidableEq, Repr

structure Loader where
  filterUnicornPath : Str
  /-- The time, in milliseconds. -/
  now : Nat := 0
  retryTimer : Deadline Failure := {}
  /-- The create requests and the subscriptions to the folder that are outstanding. -/
  creates : Nat := 0
  lists : Nat := 0
  /-- The subscriptions to filters. They go on when their scope is dropped. -/
  filters : List Nat := []
  scopes : List Nat := []
  dels : List Str := []
  retries : List Retry := []
deriving DecidableEq, Repr

namespace Loader

variable (s : Loader)

def retryTimeSeconds : Nat := 5

def filterPath (id : Nat) : Str := s.filterUnicornPath ++ '/' :: Nat.toDigits 10 id

def loadFilters : Loader := { s with scopes := [], creates := s.creates + 1 }

def removeFromUnicorn (path : Str) : Loader := { s with dels := s.dels ++ [path] }

/-- The wait is started first, and the deadline set then. -/
def retry (cause : Cause) : Loader :=
  { s with retryTimer :=
      (s.retryTimer.asyncWait ⟨cause, s.now⟩).expiresAt (s.now + 1000 * retryTimeSeconds) }

/-- `load_filters` called by a handler of the timer. -/
def reload (f : Failure) : Loader := { s with retries := ⟨f.time, s.now⟩ :: s.retries }.loadFilters

/-- A handler of the timer; that of a failed create looks at the code. -/
def onRetry (f : Failure) (aborted : Bool) : Loader :=
  match f.cause, aborted with
  | .create, true => s
  | .create, false | .list, _ => s.reload f

def onCreate : Creation → Loader
  | .created | .existing => { s with lists := s.lists + 1 }
  | .failed => s.retry .create

def listed (s : Loader) (key : Str) : Loader :=
  match stoull key with
  | none => s.removeFromUnicorn (s.filterUnicornPath ++ '/' :: key)
  | some id =>
    if id ∈ s.scopes then s else { s with scopes := id :: s.scopes, filters := id :: s.filters }

def onFilterList : Option (List Str) → Loader
  | some keys => keys.foldl listed s
  -- The subscription has ended.
  | none => { s with lists := s.lists - 1 }.retry .list

def onFilter (id : Nat) : FilterUpdate → Loader
  | .missing => { s with scopes := s.scopes.erase id }
  | .deadlined | .unreadable => s.removeFromUnicorn (s.filterPath id)
  | .filter => s
  | .failed => { s with scopes := s.scopes.erase id, filters := s.filters.erase id }

inductive Label where
  | tick (ms : Nat)
  /-- The deadline of the timer has passed; the next handler runs. -/
  | expire
  | handle
  | create (r : Creation)
  | list (r : Option (List Str))
  | filter (id : Nat) (u : FilterUpdate)
  /-- A deletion is done, or has failed. -/
  | deleted (path : Str)
deriving DecidableEq, Repr

def step : Label → Option Loader
  | .tick ms => some { s with now := s.now + ms }
  | .expire =>
    if s.retryTimer.waits ≠ [] ∧ s.retryTimer.expiry ≤ s.now then
      some { s with retryTimer := s.retryTimer.expire }
    else none
  | .handle =>
    match s.retryTimer.ready with
    | [] => none
    | (f, aborted) :: ready =>
      some ({ s with retryTimer := { s.retryTimer with ready } }.onRetry f aborted)
  | .create r =>
    if s.creates ≠ 0 then some ({ s with creates := s.creates - 1 }.onCreate r) else none
  | .list r => if s.lists ≠ 0 then some (s.onFilterList r) else none
  | .filter id u => if id ∈ s.filters then some (s.onFilter id u) else none
  | .deleted path => if s.dels.contains path then some { s with dels := s.dels.erase path } else none

/-- A request or a subscription is outstanding. -/
def outstanding : Bool := s.creates != 0 || s.lists != 0 || s.filters != [] || s.dels != []

end Loader

/-- The service has called `load_filters`. -/
def loaderSystem (path : Str) : System Loader Loader.Label where
  init s := s = Loader.loadFilters { filterUnicornPath := path }
  step := Loader.step

namespace Loader

variable {s t : Loader}

/-! ## What a step does -/

/-- Neither the timer nor the folder is concerned. -/
structure Aside (s t : Loader) : Prop where
  retryTimer : t.retryTimer = s.retryTimer
  creates : t.creates = s.creates
  lists : t.lists = s.lists
  retries : t.retries = s.retries

theorem aside_foldl_listed (keys : List Str) : Aside s (keys.foldl listed s) := by
  induction keys generalizing s with
  | nil => exact ⟨rfl, rfl, rfl, rfl⟩
  | cons key keys ih =>
    obtain ⟨htimer, hcreates, hlists, hretries⟩ := ih (s := s.listed key)
    have hone : Aside s (s.listed key) := by
      simp only [listed]
      split
      · exact ⟨rfl, rfl, rfl, rfl⟩
      · split <;> exact ⟨rfl, rfl, rfl, rfl⟩
    exact ⟨htimer.trans hone.retryTimer, hcreates.trans hone.creates, hlists.trans hone.lists,
      hretries.trans hone.retries⟩

theorem aside_onFilter (id : Nat) (u : FilterUpdate) : Aside s (s.onFilter id u) := by
  cases u with
  | missing | deadlined | unreadable | filter | failed => exact ⟨rfl, rfl, rfl, rfl⟩

inductive Stepped (s : Loader) : Label → Loader → Prop where
  | aside {a : Label} {t : Loader} (aside : Aside s t) : Stepped s a t
  | expired : Stepped s .expire { s with retryTimer := s.retryTimer.expire }
  | handled (f : Failure) (aborted : Bool) (ready : List (Failure × Bool))
      (first : s.retryTimer.ready = (f, aborted) :: ready) :
      Stepped s .handle (onRetry { s with retryTimer := { s.retryTimer with ready } } f aborted)
  | subscribed (r : Creation) (created : r ≠ .failed) :
      Stepped s (.create r) { s with creates := s.creates - 1, lists := s.lists + 1 }
  | uncreated : Stepped s (.create .failed) (retry { s with creates := s.creates - 1 } .create)
  | ended : Stepped s (.list none) (retry { s with lists := s.lists - 1 } .list)

theorem stepped {a : Label} (h : s.step a = some t) : Stepped s a t := by
  cases a with
  | tick ms =>
    cases h
    exact .aside ⟨rfl, rfl, rfl, rfl⟩
  | expire =>
    obtain ⟨-, rfl⟩ := of_guard h
    exact .expired
  | handle =>
    simp only [step] at h
    split at h
    · cases h
    · rename_i f aborted ready hready
      cases h
      exact .handled f aborted ready hready
  | create r =>
    obtain ⟨-, rfl⟩ := of_guard h
    cases r with
    | created => exact .subscribed .created (by decide)
    | existing => exact .subscribed .existing (by decide)
    | failed => exact .uncreated
  | list r =>
    obtain ⟨-, rfl⟩ := of_guard h
    cases r with
    | some keys => exact .aside (aside_foldl_listed keys)
    | none => exact .ended
  | filter id u =>
    obtain ⟨-, rfl⟩ := of_guard h
    exact .aside (aside_onFilter id u)
  | deleted path =>
    obtain ⟨-, rfl⟩ := of_guard h
    exact .aside ⟨rfl, rfl, rfl, rfl⟩

/-! ## Following the folder -/

/-- The create request does not fail. -/
def Creates (_ : Loader) (a : Label) : Prop := a ≠ .create .failed

/-- The subscription to the folder does not fail. -/
def Lists (_ : Loader) (a : Label) : Prop := a ≠ .list none

instance (s : Loader) (a : Label) : Decidable (s.Creates a) := inferInstanceAs (Decidable (_ ≠ _))
instance (s : Loader) (a : Label) : Decidable (s.Lists a) := inferInstanceAs (Decidable (_ ≠ _))

/-- The folder is being created, or subscribed to, or a handler is going to start that again. -/
inductive Following (s : Loader) : Prop where
  | creating (creates : s.creates ≠ 0)
  | listing (lists : s.lists ≠ 0)
  | retrying (f : Failure) (waits : f ∈ s.retryTimer.handlers) (list : f.cause = .list)

/-- Only the aborted handler of a failed create does nothing. -/
theorem onRetry_cases (f : Failure) (aborted : Bool) :
    (f.cause = .create ∧ aborted = true ∧ s.onRetry f aborted = s) ∨
      ((f.cause = .create → aborted = false) ∧ s.onRetry f aborted = s.reload f) := by
  obtain ⟨cause, time⟩ := f
  cases cause with
  | create =>
    cases aborted with
    | true => exact .inl ⟨rfl, rfl, rfl⟩
    | false => exact .inr ⟨fun _ => rfl, rfl⟩
  | list =>
    refine .inr ⟨fun h => ?_, rfl⟩
    cases h

/-- The aborted handler of a failed create is done, and the others remain. -/
theorem Following.skip (h : Following s) {f : Failure} {aborted : Bool}
    {ready : List (Failure × Bool)} (hfirst : s.retryTimer.ready = (f, aborted) :: ready)
    (hf : f.cause = .create) :
    Following { s with retryTimer := { s.retryTimer with ready } } := by
  cases h with
  | creating creates => exact .creating creates
  | listing lists => exact .listing lists
  | retrying g waits list =>
    refine .retrying g ?_ list
    have hne : g ≠ f := by
      rintro rfl
      cases hf.symm.trans list
    simpa [Deadline.handlers, hfirst, hne] using waits

theorem Following.step (h : Following s) {a : Label} (hok : s.Creates a) (hs : Stepped s a t) :
    Following t := by
  cases hs with
  | aside haside =>
    cases h with
    | creating creates => exact .creating (by rwa [haside.creates])
    | listing lists => exact .listing (by rwa [haside.lists])
    | retrying f waits list => exact .retrying f (by rwa [haside.retryTimer]) list
  | expired =>
    cases h with
    | creating creates => exact .creating creates
    | listing lists => exact .listing lists
    | retrying f waits list => exact .retrying f (by simpa using waits) list
  | handled f aborted ready first =>
    obtain ⟨hf, -, heq⟩ | ⟨-, heq⟩ := onRetry_cases
      (s := { s with retryTimer := { s.retryTimer with ready } }) f aborted
    · rw [heq]
      exact h.skip first hf
    · rw [heq]
      exact .creating (Nat.succ_ne_zero _)
  | subscribed => exact .listing (Nat.succ_ne_zero _)
  | uncreated => exact absurd rfl hok
  | ended => exact .retrying ⟨.list, s.now⟩ (by simp [retry]) rfl

theorem Following.of_reachable {path : Str} (hr : (loaderSystem path).Reachable Creates s) :
    Following s := by
  refine hr.induct (P := Following) ?_ ?_
  · rintro s rfl
    exact .creating (Nat.succ_ne_zero _)
  · intro s a t h hok hs
    exact h.step hok (stepped hs)

/-! ## Retries -/

/-- All handlers of the timer are going to do nothing, and none has started a retry. -/
structure Calm (s : Loader) : Prop where
  waits : s.retryTimer.waits = []
  ready : ∀ p ∈ s.retryTimer.ready, p.1.cause = .create ∧ p.2 = true
  retries : s.retries = []

theorem Calm.step (h : Calm s) {a : Label} (hok : s.Lists a) (hs : Stepped s a t) : Calm t := by
  cases hs with
  | aside haside =>
    refine ⟨?_, ?_, ?_⟩
    · rw [haside.retryTimer]
      exact h.waits
    · rw [haside.retryTimer]
      exact h.ready
    · rw [haside.retries]
      exact h.retries
  | expired =>
    refine ⟨rfl, ?_, h.retries⟩
    simpa [Deadline.expire, Deadline.complete, h.waits] using h.ready
  | handled f aborted ready first =>
    have hready := h.ready
    rw [first] at hready
    obtain ⟨hf, haborted⟩ := hready _ List.mem_cons_self
    obtain ⟨-, -, heq⟩ | ⟨hno, -⟩ := onRetry_cases
      (s := { s with retryTimer := { s.retryTimer with ready } }) f aborted
    · rw [heq]
      exact ⟨h.waits, fun p hp => hready p (List.mem_cons_of_mem _ hp), h.retries⟩
    · cases haborted.symm.trans (hno hf)
  | subscribed => exact ⟨h.waits, h.ready, h.retries⟩
  | uncreated =>
    refine ⟨rfl, fun p hp => ?_, h.retries⟩
    -- The wait that is started is the only one, and it is aborted.
    simp only [retry, Deadline.expiresAt, Deadline.complete, Deadline.asyncWait, h.waits,
      List.nil_append, List.map_cons, List.map_nil, List.mem_append, List.mem_singleton] at hp
    obtain hp | rfl := hp
    · exact h.ready p hp
    · exact ⟨rfl, rfl⟩
  | ended => exact absurd rfl hok

theorem Calm.of_reachable {path : Str} (hr : (loaderSystem path).Reachable Lists s) : Calm s := by
  refine hr.induct (P := Calm) ?_ ?_
  · rintro s rfl
    exact ⟨rfl, fun p hp => (List.not_mem_nil hp).elim, rfl⟩
  · intro s a t h hok hs
    exact h.step hok (stepped hs)

/-- As long as no create fails, there is a request or a subscription, or a handler of the timer is
going to run; as long as no subscription to the folder fails, no retry is early; and as long as
neither fails, there is a request or a subscription. -/
theorem filters_followed {path : Str} :
    ((loaderSystem path).Reachable Creates s →
      s.outstanding = true ∨ s.retryTimer.handlers ≠ []) ∧
    ((loaderSystem path).Reachable Lists s →
      ∀ r ∈ s.retries, r.failed + 1000 * retryTimeSeconds ≤ r.started) ∧
    ((loaderSystem path).Reachable (fun s a => s.Creates a ∧ s.Lists a) s →
      s.outstanding = true) := by
  refine ⟨fun hr => ?_, fun hr r hmem => ?_, fun hr => ?_⟩
  · cases Following.of_reachable hr with
    | creating creates => exact .inl (by simp [outstanding, creates])
    | listing lists => exact .inl (by simp [outstanding, lists])
    | retrying f waits _ => exact .inr (List.ne_nil_of_mem waits)
  · rw [(Calm.of_reachable hr).retries] at hmem
    cases hmem
  · have hcalm := Calm.of_reachable (hr.mono fun s a hok => hok.2)
    cases Following.of_reachable (hr.mono fun s a hok => hok.1) with
    | creating creates => simp [outstanding, creates]
    | listing lists => simp [outstanding, lists]
    | retrying f waits list =>
      rw [Deadline.handlers, hcalm.waits, List.append_nil, List.mem_map] at waits
      obtain ⟨p, hp, rfl⟩ := waits
      cases (hcalm.ready p hp).1.symm.trans list

/-- Two filters are followed, one of them fails, and a key that is no number is deleted; and after
a failure of the folder its handler is waiting. -/
theorem filters_followed_two :
    (∃ s, (loaderSystem []).Reachable (fun s a => s.Creates a ∧ s.Lists a) s ∧ s.filters = [3] ∧
      s.dels = ["/x".toList] ∧ s.outstanding = true ∧
      ∀ r ∈ s.retries, r.failed + 1000 * retryTimeSeconds ≤ r.started) ∧
    ∃ s, (loaderSystem []).Reachable Creates s ∧ s.outstanding = false ∧
      s.retryTimer.handlers ≠ [] := by
  constructor
  · obtain ⟨s, hr, hfilters, hdels⟩ := (loaderSystem []).exists_reachable
      (fun s a => s.Creates a ∧ s.Lists a) (P := fun s => s.filters = [3] ∧ s.dels = ["/x".toList])
      [.create .existing, .list (some ["3".toList, "x".toList, "12".toList]), .filter 12 .failed]
      rfl (by decide +kernel)
    obtain ⟨-, hlists, hboth⟩ := filters_followed (s := s)
    exact ⟨s, hr, hfilters, hdels, hboth hr, hlists (hr.mono fun s a hok => hok.2)⟩
  · obtain ⟨s, hr, hs⟩ := (loaderSystem []).exists_reachable Creates
      (P := fun s => s.outstanding = false) [.create .created, .list none] rfl (by decide +kernel)
    obtain h | h := filters_followed.1 hr
    · cases hs.symm.trans h
    · exact ⟨s, hr, hs, h⟩

/-- After a failed create nothing is outstanding and no handler is left; after a failed
subscription the retry starts at once. -/
theorem filters_unfollowed :
    (∃ s, (loaderSystem []).Reachable System.Any s ∧ s.outstanding = false ∧
      s.retryTimer.handlers = []) ∧
    ∃ s, (loaderSystem []).Reachable System.Any s ∧ s.retries = [⟨7, 7⟩] ∧
      ∃ r ∈ s.retries, r.started < r.failed + 1000 * retryTimeSeconds := by
  constructor
  · exact (loaderSystem []).exists_reachable System.Any
      [.create .failed, .handle] rfl (by decide +kernel)
  · exact (loaderSystem []).exists_reachable System.Any
      [.create .created, .tick 7, .list none, .handle] rfl (by decide +kernel)

end Loader

end Cocaine.Logging
