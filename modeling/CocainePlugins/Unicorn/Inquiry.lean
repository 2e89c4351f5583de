import CocainePlugins.Unicorn.Ownership

/-!
# The answer of `verify`

One call of `enabled_t::verify` with the callbacks that it gives to the backend and
to the executor, and the exceptions that they throw. A callback of `verify` catches
`std::system_error` only. `safe::satisfy` lets an exception through to
`action::operator()`, which calls the callback once more, with the exception as the
outcome; what that call throws is not caught by anyone. `convertible` is shallower
than the conversion, so there are values for which the conversion throws; for these
the call is not answered.
-/

namespace Cocaine.Unicorn

open Framework

/-- An exception: a `std::system_error` with its code, or another one. -/
inductive Exc where
  | system (code : Code)
  | other
deriving DecidableEq

/-- What `verify` waits for. -/
inductive Await where
  | lookup
  /-- The new list, and the value in whose place it is stored. -/
  | upload (m : Metainfo) (v : Versioned)
  | nothing
deriving DecidableEq

structure Inquiry where
  await : Await := .nothing
  /-- The codes of the `finalize` calls that were given to the executor. -/
  spawned : List Code := []
  /-- The invocations of the callback, the last one first; without a code it is a success. -/
  answers : List (Option Code) := []
  /-- The exceptions that have left a callback of the backend. -/
  escaped : Nat := 0
  /-- `__builtin_unreachable` was reached. -/
  undefined : Bool := false
deriving DecidableEq

namespace Inquiry

section

variable (user : Option Code → Option Exc) (r : Visit) (s : Inquiry)

/-- `finalize`, with the exception of the callback. -/
def finalize (code : Option Code) : Inquiry × Option Exc :=
  ({ s with answers := code :: s.answers }, user code)

/-- `lookup_permissions` with the list. -/
def decideAccess (m : Metainfo) (v : Versioned) : Inquiry × Option Exc :=
  match operationFrom r.event with
  | none => ({ s with undefined := true }, none)
  | some flag =>
    if m.empty then
      if isModify flag && (0 < r.identity.cids.length || 0 < r.identity.uids.length) then
        ({ s with await := .upload (m.grant r.identity) v }, none)
      else s.finalize user none
    else if m.allows r.identity flag then s.finalize user none
    else (s, some (.system .permissionDenied))

def lookupPermissions (v : Versioned) : Inquiry × Option Exc :=
  if v.isThere then
    if convertible v.value then
      match Metainfo.ofDyn v.value with
      | none => (s, some .other)
      | some m => s.decideAccess user r m v
    else (s, some (.system .invalidAclFraming))
  else s.decideAccess user r .nobody v

/-- The callback of `get`. -/
def onLookup (future : Except Exc Versioned) : Inquiry × Option Exc :=
  let p :=
    match future with
    | .ok v => s.lookupPermissions user r v
    | .error x => (s, some x)
  match p with
  | (s, some (.system code)) => ({ s with spawned := code :: s.spawned }, none)
  | _ => p

/-- The callbacks of `create` and `put`; both are told whether the list was stored. -/
def onUpload (future : Except Exc Bool) : Inquiry × Option Exc :=
  let p :=
    match future with
    | .ok true => s.finalize user none
    | .ok false => (s, some (.system .permissionsChanged))
    | .error x => (s, some x)
  match p with
  | (s, some (.system code)) => s.finalize user (some code)
  | _ => p

end

/-- `action::operator()` with the outcome of the operation, for the callback `wrapped`. -/
def deliver {α : Type} (wrapped : Inquiry → Except Exc α → Inquiry × Option Exc) (s : Inquiry)
    (future : Except Exc α) : Inquiry :=
  match wrapped s future, future with
  | (s, none), _ => s
  | (s, some x), .ok _ =>
    match wrapped { s with escaped := s.escaped + 1 } (.error x) with
    | (s, none) => s
    | (s, some _) => { s with escaped := s.escaped + 1 }
  | (s, some _), .error _ => { s with escaped := s.escaped + 1 }

inductive Label where
  | lookup (future : Except Exc Versioned)
  | upload (future : Except Exc Bool)
  /-- The executor runs a `finalize`. -/
  | execute
deriving DecidableEq

variable (user : Option Code → Option Exc) (r : Visit)

def start : Inquiry :=
  match r.component with
  | none => (finalize user {} (some .invalidPath)).1
  | some _ => { await := .lookup }

def step (s : Inquiry) : Label → Option Inquiry
  | .lookup future =>
    match s.await with
    | .lookup => some (deliver (onLookup user r) { s with await := .nothing } future)
    | _ => none
  | .upload future =>
    match s.await with
    | .upload _ _ => some (deliver (onUpload user) { s with await := .nothing } future)
    | _ => none
  | .execute =>
    match s.spawned with
    | code :: rest => some ({ s with spawned := rest }.finalize user (some code)).1
    | [] => none

end Inquiry

/-- One call of `verify`; `user` says what its callback throws. -/
def inquirySystem (user : Option Code → Option Exc) (r : Visit) : System Inquiry Inquiry.Label where
  init s := s = .start user r
  step := Inquiry.step user r

/-- The outcomes that the callbacks are written for: the backend fails with a
`std::system_error`, and what passes `convertible` is a list. -/
def Expected : Inquiry.Label → Prop
  | .lookup (.ok v) => v.isThere = true → convertible v.value = true →
    (Metainfo.ofDyn v.value).isSome = true
  | .lookup (.error x) | .upload (.error x) => x ≠ .other
  | .upload (.ok _) | .execute => True

namespace Inquiry

/-- How often the callback is still to be invoked. -/
def owed (s : Inquiry) : Nat := (if s.await = .nothing then 0 else 1) + s.spawned.length

/-- A bound of the steps that are left. -/
def rank (s : Inquiry) : Nat :=
  s.spawned.length +
    match s.await with
    | .lookup => 3
    | .upload _ _ => 2
    | .nothing => 0

/-- What the callback of `get` can do. -/
inductive Handled (s : Inquiry) : Inquiry → Prop where
  | now (code : Option Code) : Handled s { s with answers := code :: s.answers }
  | spawn (code : Code) : Handled s { s with spawned := code :: s.spawned }
  | upload (m : Metainfo) (v : Versioned) : Handled s { s with await := .upload m v }

section

variable {user : Option Code → Option Exc} (hu : ∀ code, user code = none)

include hu

theorem finalize_eq (s : Inquiry) (code : Option Code) :
    s.finalize user code = ({ s with answers := code :: s.answers }, none) := by
  rw [finalize, hu]

/-- The decision is an answer, an upload, or the exception of a refusal. -/
theorem decideAccess_cases {r : Visit} (he : operationFrom r.event ≠ none) (s : Inquiry) (m : Metainfo)
    (v : Versioned) :
    (∃ s', s.decideAccess user r m v = (s', none) ∧ s.Handled s') ∨
      ∃ code, s.decideAccess user r m v = (s, some (.system code)) := by
  obtain ⟨flag, hf⟩ := Option.ne_none_iff_exists'.mp he
  simp only [decideAccess, hf]
  split
  · split
    · exact .inl ⟨_, rfl, .upload _ _⟩
    · exact .inl ⟨_, finalize_eq hu s none, .now none⟩
  · split
    · exact .inl ⟨_, finalize_eq hu s none, .now none⟩
    · exact .inr ⟨_, rfl⟩

theorem lookupPermissions_cases {r : Visit} (he : operationFrom r.event ≠ none) (s : Inquiry)
    {v : Versioned} (hx : Expected (.lookup (.ok v))) :
    (∃ s', s.lookupPermissions user r v = (s', none) ∧ s.Handled s') ∨
      ∃ code, s.lookupPermissions user r v = (s, some (.system code)) := by
  unfold lookupPermissions
  split
  · rename_i hthere
    split
    · rename_i hconv
      obtain ⟨m, hm⟩ := Option.isSome_iff_exists.mp (hx hthere hconv)
      rw [hm]
      exact decideAccess_cases hu he s m v
    · exact .inr ⟨_, rfl⟩
  · exact decideAccess_cases hu he s {} v

theorem onLookup_handled {r : Visit} (he : operationFrom r.event ≠ none) (s : Inquiry)
    {future : Except Exc Versioned} (hx : Expected (.lookup future)) :
    ∃ s', s.onLookup user r future = (s', none) ∧ s.Handled s' := by
  cases future with
  | ok v =>
    rcases lookupPermissions_cases hu he s hx with ⟨s', hs', hh⟩ | ⟨code, hs'⟩
    · exact ⟨s', by simp only [onLookup, hs'], hh⟩
    · exact ⟨_, by simp only [onLookup, hs'], .spawn code⟩
  | error x =>
    cases x with
    | system code => exact ⟨_, rfl, .spawn code⟩
    | other => exact absurd rfl hx

theorem onUpload_now (s : Inquiry) {future : Except Exc Bool} (hx : Expected (.upload future)) :
    ∃ code, s.onUpload user future = ({ s with answers := code :: s.answers }, none) := by
  rcases future with x | b
  · cases x with
    | system code => exact ⟨some code, finalize_eq hu s _⟩
    | other => exact absurd rfl hx
  · cases b with
    | false => exact ⟨some .permissionsChanged, finalize_eq hu s _⟩
    | true => exact ⟨none, by simp only [onUpload, finalize_eq hu]⟩

end

variable {s s' : Inquiry}

/-- A callback that throws nothing is called once. -/
theorem deliver_eq {α : Type} {wrapped : Inquiry → Except Exc α → Inquiry × Option Exc}
    {future : Except Exc α} (h : wrapped s future = (s', none)) :
    deliver wrapped s future = s' := by
  simp only [deliver, h]

inductive Stepped (s : Inquiry) : Label → Inquiry → Prop where
  | lookup {future : Except Exc Versioned} {s' : Inquiry} (hs : s.await = .lookup)
    (h : Handled { s with await := .nothing } s') : Stepped s (.lookup future) s'
  | upload {future : Except Exc Bool} {m : Metainfo} {v : Versioned} (hs : s.await = .upload m v)
    (code : Option Code) :
    Stepped s (.upload future) { s with await := .nothing, answers := code :: s.answers }
  | execute {code : Code} {rest : List Code} (hs : s.spawned = code :: rest) :
    Stepped s .execute { s with spawned := rest, answers := some code :: s.answers }

theorem stepped {user : Option Code → Option Exc} (hu : ∀ code, user code = none) {r : Visit}
    (he : operationFrom r.event ≠ none) {a : Label} (hx : Expected a)
    (h : s.step user r a = some s') : Stepped s a s' := by
  cases a with
  | lookup future =>
    simp only [step] at h
    split at h
    · rename_i hs
      obtain ⟨s'', heq, hh⟩ := onLookup_handled hu he { s with await := .nothing } hx
      rw [deliver_eq heq] at h
      cases h
      exact .lookup hs hh
    · cases h
  | upload future =>
    simp only [step] at h
    split at h
    · rename_i m v hs
      obtain ⟨code, heq⟩ := onUpload_now hu { s with await := .nothing } hx
      rw [deliver_eq heq] at h
      cases h
      exact .upload hs code
    · cases h
  | execute =>
    simp only [step] at h
    split at h
    · rename_i hs
      rw [finalize_eq hu] at h
      cases h
      exact .execute hs
    · cases h

/-- Every step brings the call closer to its end. -/
theorem Stepped.rank_lt {a : Label} (h : Stepped s a s') : s'.rank < s.rank := by
  cases h with
  | lookup hs hh => cases hh <;> simp [rank, hs]
  | upload hs code => simp [rank, hs]
  | execute hs => simp [rank, hs]

/-- The call is answered as often as it should be. -/
structure Once (s : Inquiry) : Prop where
  owed : s.answers.length + s.owed = 1
  escaped : s.escaped = 0
  undefined : s.undefined = false

theorem Once.step {a : Label} (ho : s.Once) (h : Stepped s a s') : s'.Once := by
  obtain ⟨ho, hesc, hund⟩ := ho
  cases h with
  | lookup hs hh =>
    simp only [Inquiry.owed, hs, reduceCtorEq, if_false] at ho
    cases hh with
    | now code | spawn code =>
      refine ⟨?_, hesc, hund⟩
      simp only [Inquiry.owed, if_true, List.length_cons]
      omega
    | upload m v =>
      refine ⟨?_, hesc, hund⟩
      simpa [Inquiry.owed] using ho
  | upload hs code =>
    simp only [Inquiry.owed, hs, reduceCtorEq, if_false] at ho
    refine ⟨?_, hesc, hund⟩
    simp only [Inquiry.owed, if_true, List.length_cons]
    omega
  | execute hs =>
    refine ⟨?_, hesc, hund⟩
    rw [Inquiry.owed, hs, List.length_cons] at ho
    simp only [Inquiry.owed, List.length_cons]
    omega

def Quiet (user : Option Code → Option Exc) (r : Visit) (s : Inquiry) : Prop :=
  ∀ a, s.step user r a = none

theorem Quiet.owed {user : Option Code → Option Exc} {r : Visit} {s : Inquiry}
    (h : s.Quiet user r) : s.owed = 0 := by
  have hspawn : s.spawned = [] := by
    have he := h .execute
    simp only [step] at he
    split at he
    · cases he
    · rename_i hnil
      exact hnil
  rcases ha : s.await with _ | ⟨m, v⟩ | _
  · have hl := h (.lookup (.error .other))
    simp [step, ha] at hl
  · have hl := h (.upload (.ok true))
    simp [step, ha] at hl
  · simp [Inquiry.owed, ha, hspawn]

end Inquiry

/-- The callback is invoked once, and nothing leaves the callbacks of the backend, if what
passes `convertible` is a list. -/
theorem verify_answers_once {user : Option Code → Option Exc} (hu : ∀ code, user code = none)
    {r : Visit} (he : operationFrom r.event ≠ none) {s : Inquiry}
    (hr : (inquirySystem user r).Reachable (fun _ a => Expected a) s) :
    s.answers.length ≤ 1 ∧ s.escaped = 0 ∧ s.undefined = false ∧
    (s.Quiet user r → s.answers.length = 1) ∧
    ∀ a s', Expected a → (inquirySystem user r).step s a = some s' → s'.rank < s.rank := by
  have ho : s.Once := by
    refine hr.induct (P := Inquiry.Once) ?_ fun hp hx hs => hp.step (Inquiry.stepped hu he hx hs)
    rintro s rfl
    unfold Inquiry.start
    split <;> exact ⟨rfl, rfl, rfl⟩
  refine ⟨?_, ho.escaped, ho.undefined, fun hq => ?_, fun a s' hx hs => ?_⟩
  · have := ho.owed
    omega
  · have := ho.owed
    have := hq.owed
    omega
  · exact (Inquiry.stepped hu he hx hs).rank_lt

/-- A client that finds no list and stores its own is told so, once. -/
theorem verify_answers_once_stored : ∃ s,
    (inquirySystem (fun _ => none) (rivals 7)).Reachable (fun _ a => Expected a) s ∧
    s.Quiet (fun _ => none) (rivals 7) ∧ s.answers = [none] ∧ s.answers.length = 1 := by
  have h₁ : (inquirySystem (fun _ => none) (rivals 7)).Reachable (fun _ a => Expected a)
      { await := .upload (Metainfo.nobody.grant (rivals 7).identity) ⟨.null, -1⟩ } := by
    refine .tail ⟨_, rfl, .refl⟩ (a := .lookup (.ok ⟨.null, -1⟩)) ?_ rfl
    intro hthere
    cases hthere
  have h₂ := h₁.tail (a := .upload (.ok true)) (by exact trivial) rfl
  have hq : Inquiry.Quiet (fun _ => none) (rivals 7) { answers := [none] } := by
    rintro (_ | _ | _) <;> rfl
  exact ⟨_, h₂, hq, rfl, (verify_answers_once (fun _ => rfl) (by decide) h₂).2.2.2.1 hq⟩

/-- Two numbers are a pair, but not one of maps. -/
def misshapen : Value := .array [.int 1, .int 2]

/-- The tree in which somebody has stored that for a component. -/
def misshapenTree : Ztree Data :=
  let t := (serve (.single .raw) (.create prefixAcls .raw false false)).1
  (serve t (.create (aclPath "p".toList) (serialize misshapen) false false)).1

/-- The read of that value is never answered, and the exception leaves the callback twice. -/
theorem verify_unanswered : ∃ v s,
    (perform misshapenTree (.get (aclPath "p".toList))).map Prod.snd = some (.value (.value v)) ∧
    convertible v.value = true ∧ Metainfo.ofDyn v.value = none ∧
    (inquirySystem (fun _ => none) (rivals 7)).step (.start (fun _ => none) (rivals 7))
      (.lookup (.ok v)) = some s ∧
    s.Quiet (fun _ => none) (rivals 7) ∧ s.answers = [] ∧ s.escaped = 2 := by
  refine ⟨⟨misshapen, 0⟩, { escaped := 2 }, by decide +kernel, rfl, rfl, rfl, ?_, rfl, rfl⟩
  rintro (_ | _ | _) <;> rfl

/-! ## The verdict -/

/-- The outcome of the read in a tree. -/
def lookupFuture (t : Ztree Data) (component : Str) : Option (Except Exc Versioned) :=
  match perform t (.get (aclPath component)) with
  | some (_, .value (.value v)) => some (.ok v)
  | some (_, .error e) => some (.error (.system e.code))
  | _ => none

/-- The outcome of the upload in a tree. -/
def uploadFuture (t : Ztree Data) (component : Str) (m : Metainfo) (v : Versioned) :
    Option (Except Exc Bool) :=
  if v.isThere then
    match perform t (.put (aclPath component) m.toDyn v.version) with
    | some (_, .value (.put updated _)) => some (.ok updated)
    | some (_, .error e) => some (.error (.system e.code))
    | _ => none
  else
    match perform t (.create (aclPath component) m.toDyn false false) with
    | some (_, .value (.done updated)) => some (.ok updated)
    | some (_, .error e) => some (.error (.system e.code))
    | _ => none

section

variable {t : Ztree Data} {component : Str}

/-- The outcome of the read is that of `perform` in every tree. -/
theorem lookupFuture_cases (t : Ztree Data) (component : Str) :
    (∃ v, perform t (.get (aclPath component)) = some (t, .value (.value v)) ∧
      lookupFuture t component = some (.ok v)) ∨
    ∃ e, perform t (.get (aclPath component)) = some (t, .error e) ∧
      lookupFuture t component = some (.error (.system e.code)) := by
  obtain ⟨o, hp, ho⟩ := perform_get_answered t (aclPath component)
  unfold lookupFuture
  rw [hp]
  rcases ho with ⟨e, rfl⟩ | ⟨-, rfl⟩ | ⟨n, v, -, -, rfl⟩
  · exact .inr ⟨e, rfl, rfl⟩
  · exact .inl ⟨_, rfl, rfl⟩
  · exact .inl ⟨_, rfl, rfl⟩

section

variable {a : Action} {v : Value}

theorem converse_create (ha : a.cmd = .create (aclPath component) v false false) (n depth : Nat)
    (x : Str) (data : Data) : ∃ rc t', Ztree.Created t x data false rc t' ∧ ∀ {d c},
      CreateT.onCreate (aclPath component) v false false depth rc = (d, [c]) →
        converse (n + 1) t { a with depth } (.request (.create x data false false) false) =
          converse n t' { a with depth := d } c := by
  obtain ⟨rc, t', hs, hcreated⟩ := serve_create t x data false
  refine ⟨rc, t', hcreated, fun h => ?_⟩
  rw [converse, hs, onReply_create ha h]

/-- Where the node above the list exists, the reply is the last one. -/
theorem isSome_own (ha : a.cmd = .create (aclPath component) v false false) (n : Nat)
    (hm : t.node (parentPath (aclPath component)) ≠ none) :
    (converse (n + 1) t { a with depth := 0 }
      (.request (CreateT.own (aclPath component) v false false) false)).isSome = true := by
  obtain ⟨rc, t', hcreated, hstep⟩ := converse_create (t := t) ha n 0 (aclPath component) (serialize v)
  cases hcreated with
  | orphan _ h => exact absurd h hm
  | invalid | there | refused | done =>
    rw [CreateT.own, hstep rfl]
    simp

theorem isSome_above (ha : a.cmd = .create (aclPath component) v false false) (n : Nat)
    (hk : '/' ∉ component) :
    (converse (n + 2) t { a with depth := 1 }
      (.request (.create prefixAcls .raw false false) false)).isSome = true := by
  obtain ⟨rc, t', hcreated, hstep⟩ := converse_create (t := t) ha (n + 1) 1 prefixAcls .raw
  cases hcreated with
  | orphan _ h =>
    have hroot := t.rooted
    rw [show rootPath = parentPath prefixAcls by decide, h] at hroot
    cases hroot
  | invalid | there | refused =>
    rw [hstep rfl]
    simp
  | done _ _ _ hnode =>
    rw [hstep rfl]
    refine isSome_own ha n ?_
    rw [parentPath_aclPath hk, hnode, Function.update_self]
    exact nofun

end

/-- The creation of a list comes to its end with the third reply. -/
theorem isSome_perform_create (t : Ztree Data) (hk : '/' ∉ component) (v : Value) :
    (perform t (.create (aclPath component) v false false)).isSome = true := by
  by_cases hv : validPath (aclPath component) = true
  · obtain ⟨n, hn⟩ : ∃ n, 2 * (aclPath component).length + 2 = n + 3 := Nat.exists_eq_add_of_le' (by
      simp [aclPath]; omega)
    rw [perform_eq t (.create (aclPath component) v false false) rfl hv, Command.path, hn]
    have ha : (Action.init (.create (aclPath component) v false false)).cmd =
      .create (aclPath component) v false false := rfl
    by_cases hm : t.node (parentPath (aclPath component)) = none
    · obtain ⟨rc, t', hcreated, hstep⟩ :=
        converse_create (t := t) ha (n + 2) 0 (aclPath component) (serialize v)
      cases hcreated with
      | orphan =>
        have hparent : pathParent (aclPath component) 1 = .ok prefixAcls :=
          pathParent_succ (pathParent_zero (by simp [aclPath])) (beforeLast_append hk)
        have hup : CreateT.onCreate (aclPath component) v false false 0 .noNode =
            (1, [.request (.create prefixAcls .raw false false) false]) := by
          simp [CreateT.onCreate, onCreated, ancestor, hparent, ask]
        rw [CreateT.own]
        exact (congrArg Option.isSome (hstep hup)).trans (isSome_above ha n hk)
      | invalid | there | refused | done =>
        exact (congrArg Option.isSome (hstep rfl)).trans (by simp)
    · exact isSome_own ha (n + 2) hm
  · simp [perform, Action.run, Action.init, ask, Command.path, hv]

/-- An upload has an outcome in every tree. -/
theorem uploadFuture_isSome (t : Ztree Data) (hk : '/' ∉ component) (m : Metainfo) (v : Versioned) :
    (uploadFuture t component m v).isSome = true := by
  unfold uploadFuture
  split
  · rcases perform_put_answered t (aclPath component) m.toDyn v.version with
      ⟨n, t', w, hp, -⟩ | ⟨o, hp, ⟨e, rfl⟩ | ⟨w, rfl⟩⟩ <;> rw [hp] <;> rfl
  · obtain ⟨⟨t', o⟩, hp⟩ := Option.isSome_iff_exists.mp (isSome_perform_create t hk m.toDyn)
    rw [hp]
    rcases perform_create_cases hp with ⟨rfl, -⟩ | ⟨⟨e, rfl⟩, -⟩ <;> rfl

end

/-- What a call that is over says. -/
def Inquiry.Tells (s : Inquiry) : Verdict → Prop
  | .accepted => s.answers = [none] ∧ s.escaped = 0
  | .rejected code => s.answers = [some code] ∧ s.escaped = 0
  | .uncaught => s.answers = [] ∧ s.escaped = 2
  | .undefined => s.undefined = true

/-- What comes of the call when the backend answers as it does in a tree. -/
def Inquiry.Ends (t : Ztree Data) (r : Visit) (s : Inquiry) (verdict : Verdict) : Prop :=
  ∃ s', (inquirySystem (fun _ => none) r).Path
    (fun s a => ∀ future, a = .upload future → ∃ m v, s.await = .upload m v ∧
      uploadFuture t (firstComponent r.path) m v = some future) s s' ∧
    s'.Quiet (fun _ => none) r ∧ s'.Tells verdict

section

variable {t : Ztree Data} {r : Visit}

theorem quiet_of_idle {s : Inquiry} (ha : s.await = .nothing) (hs : s.spawned = []) :
    s.Quiet (fun _ => none) r := by
  rintro (_ | _ | _) <;> simp [Inquiry.step, ha, hs]

theorem ends_rejected (code : Code) : Inquiry.Ends t r { spawned := [code] } (.rejected code) := by
  refine ⟨{ answers := [some code] }, .tail .refl (a := .execute) ?_ rfl, quiet_of_idle rfl rfl, rfl, rfl⟩
  rintro future ⟨⟩

/-- The verdict on an upload is its outcome. -/
theorem uploadPermissions_verdict {component : Str} {m : Metainfo} {v : Versioned}
    {future : Except Exc Bool} (h : uploadFuture t component m v = some future) :
    (future = .ok true ∧ (uploadPermissions t component m v).2 = .accepted) ∨
    (future = .ok false ∧ (uploadPermissions t component m v).2 = .rejected .permissionsChanged) ∨
    ∃ code, future = .error (.system code) ∧
      (uploadPermissions t component m v).2 = .rejected code := by
  unfold uploadFuture at h
  unfold uploadPermissions
  split at h
  · rename_i hthere
    rw [if_pos hthere, updatePermissions]
    split at h
    · rename_i updated w hp
      cases h
      rw [hp]
      cases updated
      · exact .inr (.inl ⟨rfl, rfl⟩)
      · exact .inl ⟨rfl, rfl⟩
    · rename_i e hp
      cases h
      rw [hp]
      exact .inr (.inr ⟨_, rfl, rfl⟩)
    · cases h
  · rename_i hthere
    rw [if_neg hthere, createPermissions]
    split at h
    · rename_i updated hp
      cases h
      rw [hp]
      cases updated
      · exact .inr (.inl ⟨rfl, rfl⟩)
      · exact .inl ⟨rfl, rfl⟩
    · rename_i e hp
      cases h
      rw [hp]
      exact .inr (.inr ⟨_, rfl, rfl⟩)
    · cases h

theorem ends_upload (m : Metainfo) (v : Versioned) :
    Inquiry.Ends t r { await := .upload m v } (uploadPermissions t (firstComponent r.path) m v).2 := by
  obtain ⟨future, hf⟩ := Option.isSome_iff_exists.mp
    (uploadFuture_isSome t (slash_notMem_firstComponent r.path) m v)
  have hok : ∀ future', Inquiry.Label.upload future = .upload future' → ∃ m' v',
      Inquiry.await { await := .upload m v } = .upload m' v' ∧
        uploadFuture t (firstComponent r.path) m' v' = some future' := by
    rintro future' ⟨⟩
    exact ⟨m, v, rfl, hf⟩
  rcases uploadPermissions_verdict hf with ⟨rfl, hv⟩ | ⟨rfl, hv⟩ | ⟨code, rfl, hv⟩
  all_goals
    rw [hv]
    exact ⟨_, .tail .refl hok rfl, quiet_of_idle rfl rfl, rfl, rfl⟩

theorem decideAccess_ends (m : Metainfo) (v : Versioned) :
    (∃ s, Inquiry.decideAccess (fun _ => none) r {} m v = (s, none) ∧
      s.Ends t r (decideAccess t r.event (firstComponent r.path) r.identity m v).2) ∨
    ∃ code, Inquiry.decideAccess (fun _ => none) r {} m v = ({}, some (.system code)) ∧
      (decideAccess t r.event (firstComponent r.path) r.identity m v).2 = .rejected code := by
  unfold Inquiry.decideAccess decideAccess
  rcases operationFrom r.event with _ | flag
  · exact .inl ⟨_, rfl, _, .refl, quiet_of_idle rfl rfl, rfl⟩
  · dsimp only
    split
    · split
      · exact .inl ⟨_, rfl, ends_upload _ v⟩
      · exact .inl ⟨_, rfl, _, .refl, quiet_of_idle rfl rfl, rfl, rfl⟩
    · split
      · exact .inl ⟨_, rfl, _, .refl, quiet_of_idle rfl rfl, rfl, rfl⟩
      · exact .inr ⟨_, rfl, rfl⟩

theorem deliver_ends {m : Metainfo} {v : Versioned}
    (h : Inquiry.lookupPermissions (fun _ => none) r {} v =
      Inquiry.decideAccess (fun _ => none) r {} m v) :
    (Inquiry.deliver (Inquiry.onLookup (fun _ => none) r) {} (.ok v)).Ends t r
      (decideAccess t r.event (firstComponent r.path) r.identity m v).2 := by
  rcases decideAccess_ends (t := t) (r := r) m v with ⟨s, hs, hends⟩ | ⟨code, hs, hv⟩
  · have hd : Inquiry.deliver (Inquiry.onLookup (fun _ => none) r) {} (.ok v) = s :=
      Inquiry.deliver_eq (by simp only [Inquiry.onLookup, h, hs])
    rw [hd]
    exact hends
  · have hd : Inquiry.deliver (Inquiry.onLookup (fun _ => none) r) {} (.ok v) = { spawned := [code] } :=
      Inquiry.deliver_eq (by simp only [Inquiry.onLookup, h, hs])
    rw [hd, hv]
    exact ends_rejected code

/-- The read has an outcome in the tree, and with it the call ends with the verdict of `verify`. -/
theorem inquiry_verify (t : Ztree Data) (r : Visit) (hc : firstComponent r.path ≠ []) :
    ∃ future s, lookupFuture t (firstComponent r.path) = some future ∧
      (inquirySystem (fun _ => none) r).step (.start (fun _ => none) r) (.lookup future) = some s ∧
      s.Ends t r (verify t r.event r.path r.identity).2 := by
  have hstart : Inquiry.start (fun _ => none) r = { await := .lookup } := by
    simp only [Inquiry.start, r.component_eq hc]
  rw [hstart, verify_eq t r.event r.identity hc]
  obtain ⟨v, hp, hl⟩ | ⟨e, hp, hl⟩ := lookupFuture_cases t (firstComponent r.path) <;>
    refine ⟨_, _, hl, rfl, ?_⟩
  · rw [hp]
    dsimp only
    rcases hthere : v.isThere with _ | _
    · rw [lookupPermissions, if_neg (by simp [hthere])]
      refine deliver_ends ?_
      rw [Inquiry.lookupPermissions, if_neg (by simp [hthere])]
      rfl
    · rcases hconv : convertible v.value with _ | _
      · have hd : Inquiry.deliver (Inquiry.onLookup (fun _ => none) r) {} (.ok v) =
            { spawned := [.invalidAclFraming] } :=
          Inquiry.deliver_eq (by simp [Inquiry.onLookup, Inquiry.lookupPermissions, hthere, hconv])
        rw [hd, lookupPermissions, if_pos hthere, if_neg (by simp [hconv])]
        exact ends_rejected _
      · rcases hm : Metainfo.ofDyn v.value with _ | m
        · have hd : Inquiry.deliver (Inquiry.onLookup (fun _ => none) r) {} (.ok v) = { escaped := 2 } := by
            simp [Inquiry.deliver, Inquiry.onLookup, Inquiry.lookupPermissions, hthere, hconv, hm]
          rw [hd, lookupPermissions, if_pos hthere, if_pos hconv, hm]
          exact ⟨_, .refl, quiet_of_idle rfl rfl, rfl, rfl⟩
        · rw [lookupPermissions, if_pos hthere, if_pos hconv, hm]
          exact deliver_ends (by rw [Inquiry.lookupPermissions, if_pos hthere, if_pos hconv, hm])
  · rw [hp]
    exact ends_rejected _

/-- A `put` into a tree without lists. -/
theorem inquiry_verify_claimed : ∃ future s,
    lookupFuture (.single .raw) "p".toList = some future ∧
    (inquirySystem (fun _ => none) ⟨.put, "/p/x".toList, { cids := [7] }⟩).step
        (.start (fun _ => none) ⟨.put, "/p/x".toList, { cids := [7] }⟩) (.lookup future) = some s ∧
      s.Ends (.single .raw) ⟨.put, "/p/x".toList, { cids := [7] }⟩ .accepted :=
  inquiry_verify (.single .raw) ⟨.put, "/p/x".toList, { cids := [7] }⟩ (by decide)

end

end Cocaine.Unicorn
