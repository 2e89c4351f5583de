import CocainePlugins.Unicorn.Delivery
import CocainePlugins.Unicorn.Release

/-!
# The way up and down the ancestors of a path

`create` and `lock` ask for one node at a time, the one at their depth
(`AtDepth`, `Climbs`): up when the parent is missing, down when the ancestor was
created. An error of theirs that says a node exists comes from a reply that said so.
-/

namespace Cocaine.Unicorn

open Framework

/-- The path that the command creates, and the request for it. -/
def Command.target : Command → Option (Str × Query)
  | .create path value ephemeral sequence => some (path, CreateT.own path value ephemeral sequence)
  | .lock folder time => some (LockT.path folder, LockT.own folder (.int time))
  | .namedLock folder value => some (LockT.path folder, LockT.own folder value)
  | _ => none

/-- The request at a depth. -/
inductive AtDepth (path : Str) (own : Query) : Nat → Query → Prop where
  | own : AtDepth path own 0 own
  | above {depth : Nat} {p : Str} (h : pathParent path (depth + 1) = .ok p) :
    AtDepth path own (depth + 1) (.create p .raw false false)

/-- The depth after a reply. -/
def climb (depth : Nat) : Rc → Nat
  | .ok => depth - 1
  | .noNode => depth + 1
  | _ => depth

section Handlers

variable {path : Str} {own : Query}

theorem ancestor_atDepth (depth : Nat) :
    (∀ c ∈ ancestor path (depth + 1), c.isCreate = false) ∨
      ∃ q, ancestor path (depth + 1) = ask q ∧ AtDepth path own (depth + 1) q := by
  unfold ancestor
  split
  · exact .inl (by simp [Call.isCreate])
  · rename_i p hp
    exact .inr ⟨_, rfl, .above hp⟩

theorem onCreated_atDepth {arrived : List Call} (ha : ∀ c ∈ arrived, c.isCreate = false)
    (depth : Nat) (rc : Rc) :
    (onCreated path own arrived depth rc).1 = climb depth rc ∧
    ((∀ c ∈ (onCreated path own arrived depth rc).2, c.isCreate = false) ∨
      ∃ q, (onCreated path own arrived depth rc).2 = ask q ∧
        AtDepth path own (climb depth rc) q) := by
  cases rc with
  | ok =>
    rcases depth with _ | _ | depth
    · exact ⟨rfl, .inl ha⟩
    · exact ⟨rfl, .inr ⟨_, rfl, .own⟩⟩
    · exact ⟨rfl, ancestor_atDepth depth⟩
  | noNode =>
    refine ⟨by cases depth <;> rfl, ?_⟩
    have hstep : (onCreated path own arrived depth .noNode).2 = ancestor path (depth + 1) := by
      cases depth <;> rfl
    rw [hstep]
    exact ancestor_atDepth depth
  | _ => exact ⟨by cases depth <;> rfl, .inl (by cases depth <;> simp [onCreated, fail, Call.isCreate])⟩

theorem fail_blames {rc : Rc} {what : String} {e : Error} (h : .throw e ∈ fail rc what)
    (hc : e.code = .nodeExists) : rc = .nodeExists := by
  cases List.mem_singleton.mp h
  cases rc <;> first | rfl | cases hc

theorem ancestor_blames {depth : Nat} {e : Error} (h : .throw e ∈ ancestor path depth) :
    e.code ≠ .nodeExists := by
  unfold ancestor pathParent at h
  split at h
  · rename_i e' he
    cases List.mem_singleton.mp h
    split at he
    · cases he
      nofun
    · split at he
      · cases he
      · split at he <;> cases he
        nofun
  · cases List.mem_singleton.mp h

theorem onCreated_blames {arrived : List Call} (ha : ∀ e, .throw e ∉ arrived) {depth : Nat} {rc : Rc}
    {e : Error} (h : .throw e ∈ (onCreated path own arrived depth rc).2)
    (hc : e.code = .nodeExists) : rc = .nodeExists := by
  unfold onCreated at h
  split at h
  · exact absurd h (ha e)
  · cases List.mem_singleton.mp h
  · exact absurd hc (ancestor_blames h)
  · exact absurd hc (ancestor_blames h)
  · exact fail_blames h hc

theorem LockT.onChilds_blames {folder created : Str} {rc : Rc} {children : List Str} {e : Error}
    (h : .throw e ∈ LockT.onChilds folder created rc children) (hc : e.code = .nodeExists) :
    rc = .nodeExists := by
  unfold LockT.onChilds at h
  split at h
  · exact fail_blames h hc
  · split at h
    · rename_i e' he
      cases List.mem_singleton.mp h
      unfold getNodeName at he
      split at he <;> cases he <;> cases hc
    · dsimp only at h
      split at h
      · cases List.mem_singleton.mp h
        cases hc
      · split at h
        · simp at h
        · split at h
          · simp at h
          · cases List.mem_singleton.mp h
            cases hc

end Handlers

namespace Action

variable {a : Action}

/-- A reply to a create: the depth, and what is done. -/
theorem onReply_created {path : Str} {own : Query} (h : a.cmd.target = some (path, own))
    (closed : Bool) (rc : Rc) (p : Str) :
    (a.onReply closed (.create rc p)).1.depth = climb a.depth rc ∧
    ((∀ c ∈ (a.onReply closed (.create rc p)).2, c.isCreate = false) ∨
      ∃ q, (a.onReply closed (.create rc p)).2 = ask q ∧ AtDepth path own (climb a.depth rc) q) := by
  obtain ⟨cmd, depth, v, created⟩ := a
  cases cmd with
  | create => 
    cases h
    exact onCreated_atDepth (by simp [Call.isCreate]) depth rc
  | lock | namedLock =>
    cases h
    refine onCreated_atDepth ?_ depth rc
    split <;> simp [ask, Call.isCreate, Query.isCreate]
  | _ => cases h

/-- The other handlers leave the depth and create no node. -/
theorem onReply_frame_of_target (h : a.cmd.target.isSome = true) (closed : Bool) {r : Reply}
    (hr : ∀ rc p, r ≠ .create rc p) :
    (a.onReply closed r).1 = a ∧ ∀ c ∈ (a.onReply closed r).2, c.isCreate = false := by
  rcases hl : a.cmd.locks.isSome with _ | _
  · obtain ⟨cmd, depth, v, created⟩ := a
    cases cmd with
    | create =>
      cases r with
      | create rc p => exact absurd rfl (hr rc p)
      | _ => exact ⟨rfl, by simp [onReply]⟩
    | lock | namedLock => cases hl
    | _ => cases h
  · obtain ⟨⟨folder, value⟩, hl⟩ := Option.isSome_iff_exists.mp hl
    obtain ⟨ha, hc⟩ := onReply_reaction hl closed hr
    exact ⟨ha, hc.isCreate⟩

theorem onWatch_frame_of_target (h : a.cmd.target.isSome = true) (closed : Bool) (w : WatchReply) :
    ∀ c ∈ a.onWatch closed w, c.isCreate = false := by
  rcases hl : a.cmd.locks.isSome with _ | _
  · obtain ⟨cmd, depth, v, created⟩ := a
    cases cmd with
    | create => simp [onWatch]
    | lock | namedLock => cases hl
    | _ => cases h
  · obtain ⟨⟨folder, value⟩, hl⟩ := Option.isSome_iff_exists.mp hl
    exact (onWatch_reaction hl closed w).isCreate

/-- An exception that says a node exists is about a reply that said so. -/
theorem onReply_blames (h : a.cmd.target.isSome = true) {closed : Bool} {r : Reply} {e : Error}
    (he : .throw e ∈ (a.onReply closed r).2) (hc : e.code = .nodeExists) : r.rc = .nodeExists := by
  obtain ⟨cmd, depth, v, created⟩ := a
  cases cmd with
  | create =>
    cases r with
    | create rc p => exact onCreated_blames (by simp) he hc
    | _ => cases he
  | lock | namedLock =>
    cases r with
    | put => cases he
    | get rc =>
      simp only [onReply, LockT.onGet] at he
      split at he
      · exact fail_blames he hc
      · cases he
    | create rc p =>
      refine onCreated_blames ?_ he hc
      intro e
      split <;> simp [ask]
    | del rc =>
      simp only [onReply, LockT.onDel] at he
      split at he <;> simp at he
    | exists' rc =>
      simp only [onReply, LockT.onExists] at he
      split at he
      · simp [ask] at he
      · split at he
        · exact fail_blames he hc
        · cases he
    | childs rc children => exact LockT.onChilds_blames he hc
  | _ => cases h

theorem onWatch_blames (h : a.cmd.target.isSome = true) {closed : Bool} {w : WatchReply} {e : Error}
    (he : .throw e ∈ a.onWatch closed w) : e.code ≠ .nodeExists := by
  have hw : ∀ folder, .throw e ∈ LockT.onWatch folder w → e.code ≠ .nodeExists := by
    intro folder he
    unfold LockT.onWatch at he
    split at he
    · simp [ask] at he
    · cases List.mem_singleton.mp he
      simp
  obtain ⟨cmd, depth, v, created⟩ := a
  cases cmd with
  | create => cases he
  | lock | namedLock => exact hw _ he
  | _ => cases h

end Action

/-! ## Along a run -/

/-- A reply said that a node exists. -/
def Machine.blamed (m : Machine) : Prop := ∃ x ∈ m.replies, x.2.rc = .nodeExists

/-- The call creates no node, and an exception that says a node exists has a reason. -/
def Call.Fair (b : Prop) (c : Call) : Prop :=
  c.isCreate = false ∧ ∀ e, c = .throw e → e.code = .nodeExists → b

structure Climbs (path : Str) (own : Query) (b : Prop) (m : Machine) : Prop where
  target : m.act.cmd.target = some (path, own)
  single : m.outbox.countP (·.query.isCreate) ≤ 1
  depth : ∀ s ∈ m.outbox, s.query.isCreate = true → AtDepth path own m.act.depth s.query
  running : ∀ calls ∈ m.running, ∀ c ∈ calls, c.Fair b
  error : ∀ e, .invoked (.error e) ∈ m.log → e.code = .nodeExists → b
  deferred : ∀ e, m.deferred = some e → e.code = .nodeExists → b

namespace Climbs

variable {path : Str} {own : Query} {b : Prop} {m m' : Machine}

theorem mono {b' : Prop} (hb : b → b') (h : Climbs path own b m) : Climbs path own b' m where
  target := h.target
  single := h.single
  depth := h.depth
  running calls hm c hc := ⟨(h.running calls hm c hc).1, fun e he hx => hb ((h.running calls hm c hc).2 e he hx)⟩
  error e he hc := hb (h.error e he hc)
  deferred e he hc := hb (h.deferred e he hc)

theorem note (h : Climbs path own b m) {o : Obs}
    (ho : ∀ e, o = .invoked (.error e) → e.code = .nodeExists → b) :
    Climbs path own b (m.note o) := by
  refine ⟨h.target, h.single, h.depth, h.running, fun e he hc => ?_, h.deferred⟩
  rcases List.mem_cons.mp he with he | he
  · exact ho e he.symm hc
  · exact h.error e he hc

theorem send (h : Climbs path own b m) {q : Query} (hq : q.isCreate = false) (w : Option Nat) :
    Climbs path own b (m.send q w) := by
  have hn := h.note (o := .sent q) nofun
  refine ⟨h.target, ?_, fun s hs hc => ?_, h.running, hn.error, h.deferred⟩
  · simpa [hq] using h.single
  · rcases List.mem_append.mp hs with hs | hs
    · exact h.depth s hs hc
    · cases List.mem_singleton.mp hs
      rw [hq] at hc
      cases hc

theorem not_blamed (r : Refusal) : r.error.code ≠ .nodeExists := by
  cases r <;> nofun

theorem kept : Kept (Call.Fair b) (Climbs path own b) where
  watch _ h := ⟨h.target, h.single, h.depth, h.running, h.error, h.deferred⟩
  send w h hq := h.send hq.1 w
  satisfy h _ _ := h.note nofun
  fail {m e} h _ ht := by
    have hn := h.note (o := .invoked (.error e)) (by
      rintro _ ⟨⟩ hc
      rcases ht with ht | ⟨r, rfl⟩
      · exact ht.2 e rfl hc
      · exact absurd hc (not_blamed r))
    exact ⟨hn.target, hn.single, hn.depth, hn.running, hn.error, hn.deferred⟩
  reconnect c h := h.note nofun
  release h _ _ := h.send rfl none
  detach h := ⟨h.target, h.single, h.depth, h.running, h.error, h.deferred⟩
  wait h hr := ⟨h.target, h.single, h.depth, List.forall_mem_cons.mpr ⟨hr, h.running⟩, h.error, h.deferred⟩

theorem ask_next (h : Climbs path own b m) (ho : m.outbox.countP (·.query.isCreate) = 0) {q : Query}
    (hq : AtDepth path own m.act.depth q) (l : Luck) : Climbs path own b (m.handle (ask q) l) := by
  rcases hl : l.call with _ | e
  · have hh : m.handle (ask q) l = m.send q none := by simp [Machine.handle, Machine.exec, ask, hl]
    have hn := h.note (o := .sent q) (by simp)
    rw [hh]
    refine ⟨h.target, ?_, fun s hs hc => ?_, h.running, hn.error, h.deferred⟩
    · rw [Machine.send, List.countP_append, ho, Nat.zero_add]
      exact List.countP_le_length
    · rcases List.mem_append.mp hs with hs | hs
      · exact h.depth s hs hc
      · cases List.mem_singleton.mp hs
        exact hq
  · have hh : m.handle (ask q) l = m.abort e.error l := by
      simp [Machine.handle, Machine.exec, ask, hl]
    rw [hh]
    exact kept.abort h (.inr ⟨e, rfl⟩) l

theorem start {cmd : Command} (ht : cmd.target = some (path, own)) (l : Luck) :
    Climbs path own False (.start cmd l) := by
  have hrun : (Action.init cmd).run = ask own := by
    cases cmd <;> cases ht <;> rfl
  have htarget : (Action.init cmd).cmd.target = some (path, own) := by rw [Action.cmd_init, ht]
  simp only [Machine.start, hrun, ask]
  rcases hl : l.call with _ | e
  · have hown : own.isCreate = true := by cases cmd <;> cases ht <;> rfl
    refine ⟨by simpa [Machine.exec, hl] using htarget, by simp [Machine.exec, hl, hown], ?_,
      by simp [Machine.exec, hl], by simp [Machine.exec, hl], by simp [Machine.exec, hl]⟩
    simpa [Machine.exec, hl] using fun _ => AtDepth.own
  · refine ⟨by simpa [Machine.exec, hl] using htarget, by simp [Machine.exec, hl],
      by simp [Machine.exec, hl], by simp [Machine.exec, hl], by simp [Machine.exec, hl], ?_⟩
    simpa [Machine.exec, hl] using not_blamed e

/-- Before the handler of a reply: the members are new, the request is answered. -/
theorem arrived (h : Climbs path own b m) {k : Nat} (q : Query) (r : Reply) {a : Action}
    (ht : a.cmd = m.act.cmd) (hd : ∀ s ∈ m.outbox.eraseIdx k, s.query.isCreate = true →
      AtDepth path own a.depth s.query) :
    Climbs path own b { m with
      act := a, outbox := m.outbox.eraseIdx k, log := .replied q r :: m.log } := by
  have hn := h.note (o := .replied q r) nofun
  refine ⟨by rw [ht]; exact h.target, ?_, hd, h.running, hn.error, h.deferred⟩
  exact ((List.eraseIdx_sublist _ _).countP_le).trans h.single

theorem reply (h : Climbs path own b m) {k : Nat} {s : Sent} (hk : m.outbox[k]? = some s)
    {r : Reply} (hr : s.query.answers r = true) (l : Luck) :
    Climbs path own (b ∨ r.rc = .nodeExists)
      ({ m with outbox := m.outbox.eraseIdx k }.deliver s.query r l) := by
  have htarget : m.act.cmd.target.isSome = true := by simp [h.target]
  have hfair : ∀ c ∈ (m.act.onReply m.closed r).2, c.isCreate = false →
      c.Fair (b ∨ r.rc = .nodeExists) := by
    intro c hc hn
    refine ⟨hn, fun e he hx => ?_⟩
    subst he
    exact .inr (Action.onReply_blames htarget hc hx)
  have h' : Climbs path own (b ∨ r.rc = .nodeExists) m := h.mono .inl
  have hcmd := m.act.cmd_onReply m.closed r
  by_cases hcreate : ∃ rc p, r = .create rc p
  · obtain ⟨rc, p, rfl⟩ := hcreate
    obtain ⟨hdepth, hcalls⟩ := Action.onReply_created h.target m.closed rc p
    -- The request was the only one of its kind.
    have ho : (m.outbox.eraseIdx k).countP (·.query.isCreate) = 0 := by
      obtain ⟨hlt, hget⟩ := List.getElem?_eq_some_iff.mp hk
      have hcount := (List.getElem_cons_eraseIdx_perm hlt).countP_eq (·.query.isCreate)
      rw [hget, List.countP_cons_of_pos (by exact Query.isCreate_of_answers hr)] at hcount
      have := h.single
      omega
    have hm := h'.arrived (k := k) s.query (.create rc p) hcmd fun s' hs' hc =>
      absurd hc (List.countP_eq_zero.mp ho s' hs')
    rcases hcalls with hcalls | ⟨q, hq, hat⟩
    · exact kept.handle hm (fun c hc => hfair c hc (hcalls c hc)) l
    · rw [← hdepth] at hat
      have hh := hm.ask_next ho hat l
      rw [← hq] at hh
      exact hh
  · have hne : ∀ rc p, r ≠ .create rc p := fun rc p heq => hcreate ⟨rc, p, heq⟩
    obtain ⟨hact, hcalls⟩ := Action.onReply_frame_of_target htarget m.closed hne
    have hm := h'.arrived (k := k) s.query r hcmd fun s' hs' hc => by
      rw [hact]
      exact h.depth s' (List.mem_of_mem_eraseIdx hs') hc
    exact kept.handle hm (fun c hc => hfair c hc (hcalls c hc)) l

theorem close (h : Climbs path own b m) (l : Luck) : Climbs path own b (m.close l) := by
  have ha := kept.onAbort h l
  unfold Machine.close
  split
  · exact h.note nofun
  · dsimp only
    split
    · exact ha
    · have hn := ha.note (o := .closed) nofun
      exact ⟨hn.target, hn.single, hn.depth, hn.running, hn.error, hn.deferred⟩

theorem step {a : Label} (h : Climbs path own m.blamed m) (hs : m.step a = some m') :
    Climbs path own m'.blamed m' := by
  cases Machine.stepped hs with
  | @reply k s r l hk hr =>
    refine (h.reply hk hr l).mono ?_
    have hrep : ({ m with outbox := m.outbox.eraseIdx k }.deliver s.query r l).replies =
        (s.query, r) :: m.replies := Machine.replies_handle _ l
    simp only [Machine.blamed, hrep, List.exists_mem_cons_iff]
    exact Or.symm
  | @event id w l =>
    have hm : Climbs path own m.blamed { m with watchers := m.watchers.filter (·.1 ≠ id) } :=
      ⟨h.target, h.single, h.depth, h.running, h.error, h.deferred⟩
    have htarget : m.act.cmd.target.isSome = true := by simp [h.target]
    have hrep : (m.notify id w l).replies = m.replies := Machine.replies_handle _ l
    rw [Machine.blamed, hrep]
    refine kept.handle hm (fun c hc => ⟨Action.onWatch_frame_of_target htarget m.closed w c hc, ?_⟩) l
    rintro e rfl hx
    exact absurd hx (Action.onWatch_blames htarget hc)
  | @resume k calls l hk =>
    have hm : Climbs path own m.blamed { m with running := m.running.eraseIdx k } :=
      ⟨h.target, h.single, h.depth, fun l hl => h.running l (List.mem_of_mem_eraseIdx hl), h.error,
        h.deferred⟩
    have hrep : ({ m with running := m.running.eraseIdx k }.handle calls l).replies = m.replies :=
      Machine.replies_handle _ l
    rw [Machine.blamed, hrep]
    exact kept.handle hm (h.running _ (List.mem_of_getElem? hk)) l
  | @abort e l he =>
    have hm : Climbs path own m.blamed { m with deferred := none } :=
      ⟨h.target, h.single, h.depth, h.running, h.error, nofun⟩
    have hrep : ({ m with deferred := none }.abort e l).replies = m.replies :=
      Machine.replies_abort e l
    rw [Machine.blamed, hrep]
    exact kept.abort hm (.inl ⟨rfl, by rintro _ ⟨⟩; exact h.deferred e he⟩) l
  | @close l =>
    rw [Machine.blamed, Machine.replies_close]
    exact h.close l

end Climbs

theorem Machine.climbs {cmd : Command} {path : Str} {own : Query}
    (ht : cmd.target = some (path, own)) {m : Machine}
    (hr : (operationSystem cmd).Reachable System.Any m) : Climbs path own m.blamed m := by
  refine hr.induct (P := fun m => Climbs path own m.blamed m) ?_ ?_
  · rintro m ⟨l, rfl⟩
    exact (Climbs.start ht l).mono False.elim
  · intro m a m' h _ hs
    exact h.step hs

end Cocaine.Unicorn
