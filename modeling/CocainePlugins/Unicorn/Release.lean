import CocainePlugins.Unicorn.Machine
import Mathlib.Data.List.Perm.Basic

/-!
# The sequence node of a closed lock

A lock makes one request at a time until its sequence node is created, and never
makes another one after (`Tracked`), so the path that it records is the one of the
reply. From then on the scope is closed only together with a delete of that path,
or with the attempt to reconnect because the delete was refused (`Held`): `close`
and an abort do it in `on_abort`, and the handler of a reply that comes after
`close` does it itself.
-/

namespace Cocaine.Unicorn

open Framework

def Query.isCreate : Query → Bool
  | .create _ _ _ _ => true
  | _ => false

def Query.isSequence : Query → Bool
  | .create _ _ _ sequence => sequence
  | _ => false

def Call.isCreate : Call → Bool
  | .request q _ => q.isCreate
  | _ => false

/-- The delete of the node was issued, or refused and answered by a reconnect. -/
def Machine.released (m : Machine) (p : Str) : Prop :=
  .sent (.del p (-1)) ∈ m.log ∨ .reconnect (.refused p) ∈ m.log

variable {q : Query} {p : Str}

theorem Query.isCreate_of_answers {rc : Rc}
    (h : q.answers (.create rc p) = true) : q.isCreate = true := by
  cases q <;> first | rfl | cases h

theorem Query.path_of_answers (h : q.answers (.create .ok p) = true) :
    p ≠ [] := by
  cases q with
  | create => simpa [answers] using h
  | _ => cases h

theorem Machine.released.mono {m m' : Machine} (h : m.released p)
    (hs : m.log ⊆ m'.log) : m'.released p := by
  rcases h with h | h
  · exact .inl (hs h)
  · exact .inr (hs h)

/-! ## The handlers of a lock -/

theorem LockT.Reaction.isCreate {folder created : Str} {calls : List Call}
    (h : Reaction folder created calls) : ∀ c ∈ calls, c.isCreate = false := by
  cases h <;> simp [ask, Call.isCreate, Query.isCreate]

namespace Action

variable {a : Action}

theorem onReply_lock {folder : Str} {value : Value} (h : a.cmd.locks = some (folder, value))
    (closed : Bool) (rc : Rc) (path : Str) :
    a.onReply closed (.create rc path) = a.onLockCreated folder value closed rc path := by
  obtain ⟨cmd, depth, v, created⟩ := a
  cases cmd with
  | lock | namedLock =>
    cases h
    rfl
  | _ => cases h

theorem onLockCreated_of_arrived (folder : Str) (value : Value) (closed : Bool) (path : Str)
    (h : a.depth = 0) : a.onLockCreated folder value closed .ok path =
      ({ a with created := path },
        if closed then ask (.del path (-1)) else ask (.childs folder)) := by
  simp [onLockCreated, LockT.onCreate, onCreated, h]

/-- Any other reply to a create leads to the next one or to an exception. -/
theorem onLockCreated_of_ne (folder : Str) (value : Value) (closed : Bool) {rc : Rc} (path : Str)
    (h : ¬(rc = .ok ∧ a.depth = 0)) :
    ∃ d calls, a.onLockCreated folder value closed rc path = ({ a with depth := d }, calls) ∧
      ((∃ e, calls = [.throw e]) ∨
        ∃ q, calls = ask q ∧ q.isCreate = true ∧ q.isSequence = decide (d = 0)) := by
  have hup : ∀ d, (∃ e, ancestor (LockT.path folder) (d + 1) = [.throw e]) ∨
      ∃ q, ancestor (LockT.path folder) (d + 1) = ask q ∧ q.isCreate = true ∧
        q.isSequence = decide (d + 1 = 0) := by
    intro d
    unfold ancestor
    split
    · exact .inl ⟨_, rfl⟩
    · exact .inr ⟨_, rfl, rfl, rfl⟩
  refine ⟨(LockT.onCreate folder value closed a.depth rc path).1,
    (LockT.onCreate folder value closed a.depth rc path).2, ?_, ?_⟩
  · simp [onLockCreated, h]
  · unfold LockT.onCreate onCreated
    split
    · rename_i hd
      exact absurd ⟨rfl, hd⟩ h
    · exact .inr ⟨_, rfl, rfl, rfl⟩
    · exact hup _
    · exact hup _
    · exact .inl ⟨_, rfl⟩

end Action

/-- `run` of a lock asks for the sequence node. -/
theorem Machine.start_lock {cmd : Command} (hl : cmd.locks.isSome = true) (l : Luck) :
    (∃ q, q.isSequence = true ∧
      start cmd l = ({ act := .init cmd, attached := true } : Machine).send q none) ∨
    ∃ e, start cmd l = { act := .init cmd, attached := true, deferred := some e } := by
  obtain ⟨q, hrun, hq⟩ : ∃ q, (Action.init cmd).run = ask q ∧ q.isSequence = true := by
    cases cmd with
    | lock | namedLock => exact ⟨_, rfl, rfl⟩
    | _ => cases hl
  rcases hc : l.call with _ | e
  · exact .inl ⟨q, hq, by simp [start, hrun, ask, exec, hc, hl]⟩
  · exact .inr ⟨e.error, by simp [start, hrun, ask, exec, hc, hl]⟩

/-! ## The invariants -/

structure Tracked (m : Machine) : Prop where
  locks : m.act.cmd.locks.isSome = true
  single : m.outbox.countP (·.query.isCreate) ≤ 1
  last : m.act.created ≠ [] → m.outbox.countP (·.query.isCreate) = 0
  depth : ∀ s ∈ m.outbox, s.query.isCreate = true →
    s.query.isSequence = decide (m.act.depth = 0)
  running : ∀ calls ∈ m.running, ∀ c ∈ calls, c.isCreate = false
  attached : m.act.created = [] → m.attached = true
  detached : m.attached = false → m.released m.act.created
  reported : ∀ q p, .replied q (.create .ok p) ∈ m.log → q.isSequence = true →
    p = m.act.created ∧ p ≠ []

structure Held (m : Machine) : Prop extends Tracked m where
  ended : m.act.created ≠ [] → m.closed = true → m.released m.act.created

namespace Tracked

variable {m : Machine}

theorem note (h : Tracked m) {o : Obs} (ho : ∀ q r, o ≠ .replied q r) : Tracked (m.note o) where
  locks := h.locks
  single := h.single
  last := h.last
  depth := h.depth
  running := h.running
  attached := h.attached
  detached hd := (h.detached hd).mono (List.subset_cons_self _ _)
  reported q p hr hq := by
    rcases List.mem_cons.mp hr with hr | hr
    · exact absurd hr.symm (ho q _)
    · exact h.reported q p hr hq

theorem send (h : Tracked m) (hq : q.isCreate = false) (w : Option Nat) :
    Tracked (m.send q w) := by
  have hn := h.note (o := .sent q) (fun _ _ => nofun)
  have hcount : (m.send q w).outbox.countP (·.query.isCreate) =
      m.outbox.countP (·.query.isCreate) := by
    simp [hq]
  refine ⟨h.locks, hcount ▸ h.single, fun hc => hcount ▸ h.last hc, fun s hs hc => ?_, h.running,
    h.attached, hn.detached, hn.reported⟩
  rcases List.mem_append.mp hs with hs | hs
  · exact h.depth s hs hc
  · cases List.mem_singleton.mp hs
    rw [hq] at hc
    cases hc

/-- Whether or not it throws, `on_abort` releases the node. -/
theorem onAbort (h : Tracked m) (l : Luck) : Tracked (m.onAbort l).1 ∧
    (m.onAbort l).1.act = m.act ∧
    (m.act.created ≠ [] → (m.onAbort l).1.released m.act.created) := by
  unfold Machine.onAbort
  split
  · rename_i ha
    split
    · have hn := h.note (o := .reconnect (.refused m.act.created)) (fun _ _ => nofun)
      have hrel : (m.note (.reconnect (.refused m.act.created))).released m.act.created :=
        .inr List.mem_cons_self
      dsimp only
      split
      · exact ⟨hn, rfl, fun _ => hrel⟩
      · exact ⟨⟨hn.locks, hn.single, hn.last, hn.depth, hn.running, fun hc => absurd hc ha.2,
          fun _ => hrel, hn.reported⟩, rfl, fun _ => hrel⟩
    · have hn := h.send (q := .del m.act.created (-1)) rfl none
      have hrel : (m.send (.del m.act.created (-1)) none).released m.act.created :=
        .inl List.mem_cons_self
      exact ⟨⟨hn.locks, hn.single, hn.last, hn.depth, hn.running, fun hc => absurd hc ha.2,
        fun _ => hrel, hn.reported⟩, rfl, fun _ => hrel⟩
  · rename_i ha
    refine ⟨h, rfl, fun hc => h.detached ?_⟩
    simpa [hc] using ha

theorem held (h : Tracked m) (hr : m.act.created ≠ [] → m.released m.act.created) : Held m :=
  ⟨h, fun hc _ => hr hc⟩

theorem abort (h : Tracked m) (e : Error) (l : Luck) : Held (m.abort e l) := by
  obtain ⟨h₁, hact, hrel⟩ := h.onAbort l
  rw [← hact] at hrel
  unfold Machine.abort
  dsimp only
  split
  · exact h₁.held hrel
  · split
    · exact h₁.held hrel
    · have hn := h₁.note (o := .invoked (.error e)) (fun _ _ => nofun)
      refine ⟨⟨hn.locks, hn.single, hn.last, hn.depth, hn.running, hn.attached, hn.detached,
        hn.reported⟩, fun hc _ => (hrel hc).mono (List.subset_cons_self _ _)⟩

end Tracked

namespace Held

variable {m m' : Machine}

theorem note (h : Held m) {o : Obs} (ho : ∀ q r, o ≠ .replied q r) : Held (m.note o) :=
  ⟨h.toTracked.note ho, fun hc hcl => (h.ended hc hcl).mono (List.subset_cons_self _ _)⟩

theorem send (h : Held m) (hq : q.isCreate = false) (w : Option Nat) :
    Held (m.send q w) :=
  ⟨h.toTracked.send hq w, fun hc hcl => (h.ended hc hcl).mono (List.subset_cons_self _ _)⟩

theorem watch (h : Held m) (q : Query) : Held (m.watch q) :=
  ⟨⟨h.locks, h.single, h.last, h.depth, h.running, h.attached, h.detached, h.reported⟩, h.ended⟩

theorem exec (h : Held m) {c : Call} (hc : c.isCreate = false) (l : Luck) :
    Held (m.exec c l).1 := by
  cases c with
  | satisfy r =>
    simp only [Machine.exec, Machine.satisfy]
    split
    · exact h
    · exact h.note (fun _ _ => by simp)
  | throw e => exact h
  | reconnect => exact h.note (fun _ _ => by simp)
  | request q watch =>
    have hw : Held (if watch then m.watch q else m) := by
      split
      · exact h.watch q
      · exact h
    simp only [Machine.exec]
    split
    · exact hw
    · exact hw.send hc _

theorem handle (h : Held m) {calls : List Call} (hc : ∀ c ∈ calls, c.isCreate = false) (l : Luck) :
    Held (m.handle calls l) := by
  unfold Machine.handle
  split
  · exact h
  · rename_i c rest
    rw [List.forall_mem_cons] at hc
    have he := h.exec hc.1 l
    dsimp only
    split
    · exact he.toTracked.abort _ l
    · split
      · exact he
      · refine ⟨⟨he.locks, he.single, he.last, he.depth, ?_, he.attached, he.detached,
          he.reported⟩, he.ended⟩
        exact List.forall_mem_cons.mpr ⟨hc.2, he.running⟩

theorem close (h : Held m) (l : Luck) : Held (m.close l) := by
  obtain ⟨h₁, hact, hrel⟩ := h.toTracked.onAbort l
  rw [← hact] at hrel
  unfold Machine.close
  split
  · exact h.note (fun _ _ => nofun)
  · dsimp only
    split
    · exact h₁.held hrel
    · have hn := h₁.note (o := .closed) (fun _ _ => nofun)
      exact ⟨⟨hn.locks, hn.single, hn.last, hn.depth, hn.running, hn.attached, hn.detached,
        hn.reported⟩, fun hc _ => (hrel hc).mono (List.subset_cons_self _ _)⟩

theorem send_create (h : Held m) (hc : m.act.created = [])
    (ho : m.outbox.countP (·.query.isCreate) = 0)
    (hq : q.isSequence = decide (m.act.depth = 0)) : Held (m.send q none) := by
  have hn := h.note (o := .sent q) (fun _ _ => nofun)
  refine ⟨⟨h.locks, ?_, fun hne => absurd hc hne, fun s hs hcr => ?_, h.running, h.attached,
    hn.detached, hn.reported⟩, hn.ended⟩
  · rw [Machine.send, List.countP_append, ho, Nat.zero_add]
    exact List.countP_le_length
  · rcases List.mem_append.mp hs with hs | hs
    · exact h.depth s hs hcr
    · cases List.mem_singleton.mp hs
      exact hq

theorem ask_create (h : Held m) (hc : m.act.created = [])
    (ho : m.outbox.countP (·.query.isCreate) = 0)
    (hq : q.isSequence = decide (m.act.depth = 0)) (l : Luck) : Held (m.handle (ask q) l) := by
  rcases hl : l.call with _ | e
  · simpa [Machine.handle, Machine.exec, ask, hl] using h.send_create hc ho hq
  · simpa [Machine.handle, Machine.exec, ask, hl] using h.toTracked.abort e.error l

theorem start {cmd : Command} (hl : cmd.locks.isSome = true) (l : Luck) : Held (.start cmd l) := by
  have h : ∀ d, Held { act := .init cmd, attached := true, deferred := d } := by
    intro d
    refine ⟨⟨by rw [Action.cmd_init, hl], by simp, by simp, by simp, by simp, fun _ => rfl, nofun,
      by simp⟩, ?_⟩
    exact fun hc => absurd (Action.created_init cmd) hc
  rcases Machine.start_lock hl l with ⟨q, hq, heq⟩ | ⟨e, heq⟩
  · rw [heq]
    exact (h none).send_create (Action.created_init cmd) rfl (by simp [hq])
  · rw [heq]
    exact h (some e)

theorem deliver_frame (h : Held m) {r : Reply} (hr : ∀ rc p, r ≠ .create rc p)
    (l : Luck) : Held (m.deliver q r l) := by
  obtain ⟨⟨folder, value⟩, hl⟩ := Option.isSome_iff_exists.mp h.locks
  obtain ⟨hact, hc⟩ := Action.onReply_reaction hl m.closed hr
  have hm : Held { m with log := .replied q r :: m.log } := by
    refine ⟨⟨h.locks, h.single, h.last, h.depth, h.running, h.attached, fun hd => ?_,
      fun q' p hq => ?_⟩, fun hcr hcl => ?_⟩
    · exact (h.detached hd).mono (List.subset_cons_self _ _)
    · rcases List.mem_cons.mp hq with hq | hq
      · cases hq
        exact absurd rfl (hr .ok p)
      · exact h.reported q' p hq
    · exact (h.ended hcr hcl).mono (List.subset_cons_self _ _)
  simp only [Machine.deliver, hact]
  exact hm.handle hc.isCreate l

/-- The sequence node is created: the path is recorded, and a scope that is closed
already deletes it at once. -/
theorem deliver_arrived (h : Held m) (hc : m.act.created = [])
    (ho : m.outbox.countP (·.query.isCreate) = 0) (q : Query) (hd : m.act.depth = 0)
    (hp : p ≠ []) (l : Luck) : Held (m.deliver q (.create .ok p) l) := by
  obtain ⟨⟨folder, value⟩, hl⟩ := Option.isSome_iff_exists.mp h.locks
  have ha := h.attached hc
  have hm : Tracked { m with
      act := { m.act with created := p }, log := .replied q (.create .ok p) :: m.log } := by
    refine ⟨h.locks, ho.le.trans zero_le_one, fun _ => ho, h.depth, h.running,
      fun hn => absurd hn hp, fun hn => ?_, fun q' p' hq hs => ?_⟩
    · rw [ha] at hn
      cases hn
    · rcases List.mem_cons.mp hq with hq | hq
      · cases hq
        exact ⟨rfl, hp⟩
      · obtain ⟨heq, hne⟩ := h.reported q' p' hq hs
        exact absurd (heq.trans hc) hne
  simp only [Machine.deliver, Action.onReply_lock hl, Action.onLockCreated_of_arrived _ _ _ _ hd]
  rcases hcl : m.closed with _ | _
  · have hh : Held { m with
        act := { m.act with created := p }, log := .replied q (.create .ok p) :: m.log } :=
      ⟨hm, fun _ hn => by rw [hcl] at hn; cases hn⟩
    rw [hcl] at hh
    exact hh.handle (by simp [ask, Call.isCreate, Query.isCreate]) l
  · rw [hcl] at hm
    rcases hluck : l.call with _ | e
    · have hs := hm.send (q := .del p (-1)) rfl none
      have hh := hs.held fun _ => .inl List.mem_cons_self
      simpa [Machine.handle, Machine.exec, ask, hluck] using hh
    · simpa [Machine.handle, Machine.exec, ask, hluck] using hm.abort e.error l

theorem deliver_create (h : Held m) (hc : m.act.created = [])
    (ho : m.outbox.countP (·.query.isCreate) = 0)
    (hq : q.isSequence = decide (m.act.depth = 0)) {rc : Rc}
    (hp : rc = .ok → p ≠ []) (l : Luck) : Held (m.deliver q (.create rc p) l) := by
  by_cases hok : rc = .ok ∧ m.act.depth = 0
  · obtain ⟨rfl, hd⟩ := hok
    exact h.deliver_arrived hc ho q hd (hp rfl) l
  · obtain ⟨⟨folder, value⟩, hl⟩ := Option.isSome_iff_exists.mp h.locks
    obtain ⟨d, calls, hstep, hcalls⟩ := Action.onLockCreated_of_ne folder value m.closed p hok
    have hm : Held { m with
        act := { m.act with depth := d }, log := .replied q (.create rc p) :: m.log } := by
      refine ⟨⟨h.locks, h.single, h.last, fun s hs hcr => ?_, h.running, h.attached, fun hd => ?_,
        fun q' p' hq' hs => ?_⟩, fun hne => absurd hc hne⟩
      · exact absurd hcr (List.countP_eq_zero.mp ho s hs)
      · exact (h.detached hd).mono (List.subset_cons_self _ _)
      · rcases List.mem_cons.mp hq' with hq' | hq'
        · cases hq'
          rw [hq] at hs
          exact absurd ⟨rfl, of_decide_eq_true hs⟩ hok
        · exact h.reported q' p' hq' hs
    simp only [Machine.deliver, Action.onReply_lock hl, hstep]
    rcases hcalls with ⟨e, rfl⟩ | ⟨q', rfl, -, hq'⟩
    · exact hm.toTracked.abort e l
    · exact hm.ask_create hc ho hq' l

theorem reply (h : Held m) {k : Nat} {s : Sent} (hk : m.outbox[k]? = some s) {r : Reply}
    (hr : s.query.answers r = true) (l : Luck) :
    Held ({ m with outbox := m.outbox.eraseIdx k }.deliver s.query r l) := by
  obtain ⟨hlt, hget⟩ := List.getElem?_eq_some_iff.mp hk
  have hperm : (s :: m.outbox.eraseIdx k).Perm m.outbox := hget ▸ List.getElem_cons_eraseIdx_perm hlt
  have hcount := hperm.countP_eq (·.query.isCreate)
  rw [List.countP_cons] at hcount
  have h₀ : Held { m with outbox := m.outbox.eraseIdx k } := by
    refine ⟨⟨h.locks, ?_, fun hc => ?_, fun s' hs' => ?_, h.running, h.attached, h.detached,
      h.reported⟩, h.ended⟩
    · have := h.single
      dsimp only
      omega
    · have := h.last hc
      dsimp only
      omega
    · exact h.depth s' (List.mem_of_mem_eraseIdx hs')
  cases r with
  | create rc p =>
    have hcr := Query.isCreate_of_answers hr
    rw [if_pos hcr] at hcount
    refine h₀.deliver_create ?_ ?_ (h.depth s (List.mem_of_getElem? hk) hcr) (fun hok => ?_) l
    · by_contra hc
      have := h.last hc
      omega
    · have := h.single
      dsimp only
      omega
    · subst hok
      exact Query.path_of_answers hr
  | _ => exact h₀.deliver_frame (fun _ _ h => by cases h) l

theorem step {a : Label} (h : Held m) (hs : m.step a = some m') : Held m' := by
  cases Machine.stepped hs with
  | reply hk hr => exact h.reply hk hr _
  | event =>
    obtain ⟨⟨folder, value⟩, hl⟩ := Option.isSome_iff_exists.mp h.locks
    refine handle ?_ (Action.onWatch_reaction hl _ _).isCreate _
    exact ⟨⟨h.locks, h.single, h.last, h.depth, h.running, h.attached, h.detached, h.reported⟩,
      h.ended⟩
  | resume hk =>
    refine handle ?_ (h.running _ (List.mem_of_getElem? hk)) _
    exact ⟨⟨h.locks, h.single, h.last, h.depth,
      fun calls hc => h.running calls (List.mem_of_mem_eraseIdx hc), h.attached, h.detached,
      h.reported⟩, h.ended⟩
  | abort =>
    refine Tracked.abort ?_ _ _
    exact ⟨h.locks, h.single, h.last, h.depth, h.running, h.attached, h.detached, h.reported⟩
  | close => exact h.close _

end Held

/-- In every run of a lock, whatever is replied, thrown and closed in between: when
the scope is closed and a reply reported the sequence node, a delete of that node
was issued, or it was refused and a reconnect attempted. -/
theorem closed_lock_released {cmd : Command} (hl : cmd.locks.isSome = true) {m : Machine}
    (hr : (operationSystem cmd).Reachable System.Any m) (hc : m.closed = true) {q : Query}
    (hq : q.isSequence = true) {p : Str} (hp : .replied q (.create .ok p) ∈ m.log) :
    .sent (.del p (-1)) ∈ m.log ∨ .reconnect (.refused p) ∈ m.log := by
  have h : Held m := by
    refine hr.induct ?_ ?_
    · rintro m ⟨l, rfl⟩
      exact Held.start hl l
    · intro m a m' h _ hs
      exact h.step hs
  obtain ⟨rfl, hne⟩ := h.reported q p hp hq
  exact h.ended hne hc

/-- The user closes the scope while the first create is on its way; the delete from
the handler of the reply throws, and so does the one of the abort. -/
theorem closed_lock_released_late : ∃ m,
    (operationSystem (.lock "/l".toList 7)).Reachable System.Any m ∧ m.closed = true ∧
      m.outbox = [] ∧ (.sent (.del "/l/lock0000000000".toList (-1)) ∈ m.log ∨
        .reconnect (.refused "/l/lock0000000000".toList) ∈ m.log) := by
  obtain ⟨m, hr, hc, ho, hp⟩ := (operationSystem (.lock "/l".toList 7)).exists_reachable
    System.Any (P := fun m => m.closed = true ∧ m.outbox = [] ∧
      .replied (LockT.own "/l".toList (.int 7)) (.create .ok "/l/lock0000000000".toList) ∈ m.log)
    [.close {}, .reply 0 (.create .ok "/l/lock0000000000".toList) ⟨some .connection, true, false⟩]
    ⟨{}, rfl⟩ (by decide +kernel)
  exact ⟨m, hr, hc, ho, closed_lock_released rfl hr hc rfl hp⟩

end Cocaine.Unicorn
