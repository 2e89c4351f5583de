import CocainePlugins.Unicorn.Machine

/-!
# When the callback is invoked

The flag of the scope alone keeps the callback from being invoked too late: it is
up after a `close` that returned and after an exception was passed on
(`Disciplined`), and every invocation looks at it. The operations without watches
invoke the callback once: each of their handlers ends with one request, one
invocation or one exception (`Action.onReply_plain`), so as long as the scope is not
closed either something is on its way or the callback was invoked (`Once`).
-/

namespace Cocaine.Unicorn

open Framework

def Obs.isCallback : Obs → Bool
  | .invoked _ => true
  | _ => false

/-- The callback is not invoked after this. -/
def Obs.ends : Obs → Bool
  | .closed | .invoked (.error _) => true
  | _ => false

structure Disciplined (m : Machine) : Prop where
  closed : ∀ o ∈ m.log, o.ends = true → m.closed = true
  order : m.log.Pairwise fun o o' => o.isCallback = true → o'.ends = false

namespace Disciplined

variable {m m' : Machine}

theorem congr (h : Disciplined m) (hl : m'.log = m.log) (hc : m'.closed = m.closed) :
    Disciplined m' := by
  refine ⟨?_, ?_⟩
  · rw [hl, hc]
    exact h.closed
  · rw [hl]
    exact h.order

theorem note (h : Disciplined m) {o : Obs} (ho : o.isCallback = false)
    (he : o.ends = true → m.closed = true) : Disciplined (m.note o) := by
  refine ⟨fun o' ho' he' => ?_, ?_⟩
  · rcases List.mem_cons.mp ho' with rfl | ho'
    · exact he he'
    · exact h.closed o' ho' he'
  · refine List.pairwise_cons.mpr ⟨fun o' _ hc => ?_, h.order⟩
    rw [ho] at hc
    cases hc

/-- While the scope is not closed nothing recorded forbids an invocation. -/
theorem ends_eq_false (h : Disciplined m) (hc : m.closed = false) {o : Obs} (ho : o ∈ m.log) :
    o.ends = false := by
  by_contra he
  rw [h.closed o ho (by simpa using he)] at hc
  cases hc

/-- Nothing recorded forbids an invocation while the scope is not closed; one with
an exception closes it. -/
theorem invoke (h : Disciplined m) (hc : m.closed = false) (o : Outcome) {closed : Bool}
    (hcl : (Obs.invoked o).ends = true → closed = true) :
    Disciplined { m.note (.invoked o) with closed } := by
  refine ⟨fun o' ho' he => ?_, ?_⟩
  · rcases List.mem_cons.mp ho' with rfl | ho'
    · exact hcl he
    · rw [h.ends_eq_false hc ho'] at he
      cases he
  · exact List.pairwise_cons.mpr ⟨fun o' ho' _ => h.ends_eq_false hc ho', h.order⟩

theorem kept : Kept (fun _ => True) Disciplined where
  watch _ h := h.congr rfl rfl
  send _ h _ := (h.note (o := .sent _) rfl (by simp [Obs.ends])).congr rfl rfl
  satisfy h hc _ := (h.invoke hc (.value _) (by simp [Obs.ends])).congr rfl rfl
  fail h hc _ := h.invoke hc (.error _) fun _ => rfl
  reconnect c h := h.note rfl (by simp [Obs.ends])
  release h _ _ := (h.note (o := .sent _) rfl (by simp [Obs.ends])).congr rfl rfl
  detach h := h.congr rfl rfl
  wait h _ := h.congr rfl rfl

theorem close (h : Disciplined m) (l : Luck) : Disciplined (m.close l) := by
  have ha := kept.onAbort h l
  unfold Machine.close
  split
  · rename_i hc
    exact h.note rfl fun _ => hc
  · dsimp only
    split
    · exact ha
    · have hc : Disciplined { (m.onAbort l).1 with closed := true } := ⟨fun _ _ _ => rfl, ha.order⟩
      exact hc.note rfl fun _ => rfl

theorem start (cmd : Command) (l : Luck) : Disciplined (.start cmd l) := by
  have h : Disciplined { act := .init cmd, attached := cmd.locks.isSome } := ⟨by simp, by simp⟩
  unfold Machine.start
  dsimp only
  split
  · exact h
  · exact (kept.exec h trivial l).congr rfl rfl

theorem step {a : Label} (h : Disciplined m) (hs : m.step a = some m') : Disciplined m' := by
  cases Machine.stepped hs with
  | reply =>
    have hn : ∀ q r, Disciplined (m.note (.replied q r)) := fun _ _ => h.note rfl (by simp [Obs.ends])
    refine kept.handle ?_ (fun _ _ => trivial) _
    exact (hn _ _).congr rfl rfl
  | event =>
    refine kept.handle ?_ (fun _ _ => trivial) _
    exact h.congr rfl rfl
  | resume =>
    refine kept.handle ?_ (fun _ _ => trivial) _
    exact h.congr rfl rfl
  | abort =>
    refine kept.abort ?_ (.inl trivial) _
    exact h.congr rfl rfl
  | close => exact h.close _

end Disciplined

/-! ## Exactly once -/

/-- The operations that are over with one answer. -/
def Command.single : Command → Bool
  | .put _ _ _ | .get _ | .create _ _ _ _ | .del _ _ | .increment _ _ => true
  | _ => false

/-- The class has an `on_reply` for the answer. -/
def Command.handles : Command → Query → Bool
  | .put _ _ _, .put _ _ _ | .put _ _ _, .get _ | .get _, .get _ | .create _ _ _ _, .create _ _ _ _
  | .del _ _, .del _ _ | .increment _ _, .get _ | .increment _ _, .put _ _ _
  | .increment _ _, .create _ _ _ _ => true
  | _, _ => false

/-- A request without a watch, an invocation of the callback or an exception. -/
def Call.plain (cmd : Command) : Call → Bool
  | .request q watch => cmd.handles q && !watch
  | .satisfy _ | .throw _ => true
  | .reconnect => false

variable {cmd : Command}

theorem ancestor_plain (hc : ∀ p, cmd.handles (.create p .raw false false) = true)
    (path : Str) (depth : Nat) : ∃ c, ancestor path depth = [c] ∧ c.plain cmd = true := by
  unfold ancestor
  split
  · exact ⟨_, rfl, rfl⟩
  · exact ⟨_, rfl, by simp [Call.plain, hc]⟩

theorem onCreated_plain (hc : ∀ p, cmd.handles (.create p .raw false false) = true)
    {path : Str} {own : Query} (ho : cmd.handles own = true) {c : Call} (hp : c.plain cmd = true)
    (depth : Nat) (rc : Rc) :
    ∃ c', (onCreated path own [c] depth rc).2 = [c'] ∧ c'.plain cmd = true := by
  unfold onCreated
  split
  · exact ⟨c, rfl, hp⟩
  · exact ⟨_, rfl, by simp [Call.plain, ho]⟩
  · exact ancestor_plain hc _ _
  · exact ancestor_plain hc _ _
  · exact ⟨_, rfl, rfl⟩

theorem Action.run_single (hc : cmd.single = true) :
    (∃ e, (Action.init cmd).run = [.throw e]) ∨
      ∃ q, (Action.init cmd).run = ask q ∧ cmd.handles q = true := by
  cases cmd with
  | put path value version =>
    simp only [run, init, PutT.run]
    split
    · exact .inl ⟨_, rfl⟩
    · exact .inr ⟨_, rfl, rfl⟩
  | increment path value =>
    simp only [run, init, IncrementT.run]
    split
    · exact .inr ⟨_, rfl, rfl⟩
    · exact .inl ⟨_, rfl⟩
  | get | create | del => exact .inr ⟨_, rfl, rfl⟩
  | _ => cases hc

/-- An exception of `run` is not handled at once: it waits in the executor. -/
theorem Machine.start_single (hc : cmd.single = true) (l : Luck) :
    (∃ e, start cmd l = { act := .init cmd, deferred := some e } ∧
      ∃ c, (Action.init cmd).run = [c] ∧ ∀ r, c ≠ .satisfy r) ∨
    ∃ q, start cmd l = { act := .init cmd, outbox := [⟨q, none⟩], log := [.sent q] } ∧
      (Action.init cmd).run = ask q ∧ cmd.handles q = true := by
  have hl : cmd.locks.isSome = false := by cases cmd <;> first | rfl | cases hc
  rcases Action.run_single hc with ⟨e, hrun⟩ | ⟨q, hrun, hq⟩
  · exact .inl ⟨e, by simp [start, hrun, exec, hl], _, hrun, by simp⟩
  · rcases hluck : l.call with _ | e
    · exact .inr ⟨q, by simp [start, hrun, exec, ask, hl, hluck], hrun, hq⟩
    · exact .inl ⟨e.error, by simp [start, hrun, exec, ask, hl, hluck], _, hrun, by simp⟩

theorem fail_plain (cmd : Command) (rc : Rc) (what : String) :
    ∃ c, fail rc what = [c] ∧ c.plain cmd = true :=
  ⟨_, rfl, rfl⟩

section Classes

variable (path : Str) (value : Value) (version : Int) (rc : Rc) (data : Data) (stat : Stat)

theorem PutT.onPut_plain :
    ∃ c, onPut path value rc stat = [c] ∧ c.plain (.put path value version) = true := by
  unfold onPut
  split
  · exact ⟨_, rfl, rfl⟩
  · split
    · exact fail_plain _ rc _
    · exact ⟨_, rfl, rfl⟩

theorem PutT.onGet_plain :
    ∃ c, onGet rc data stat = [c] ∧ c.plain (.put path value version) = true := by
  unfold onGet
  split
  · exact fail_plain _ rc _
  · split <;> exact ⟨_, rfl, rfl⟩

theorem GetT.onGet_plain : ∃ c, onGet rc data stat = [c] ∧ c.plain (.get path) = true := by
  unfold onGet
  split
  · exact ⟨_, rfl, rfl⟩
  · split
    · exact fail_plain _ rc _
    · split
      · exact ⟨_, rfl, rfl⟩
      · split <;> exact ⟨_, rfl, rfl⟩

theorem DelT.onDel_plain : ∃ c, onDel rc = [c] ∧ c.plain (.del path version) = true := by
  unfold onDel
  split
  · exact fail_plain _ rc _
  · exact ⟨_, rfl, rfl⟩

theorem IncrementT.onGet_plain (sum : Value) :
    ∃ c, (onGet path sum rc data stat).2 = [c] ∧ c.plain (.increment path value) = true := by
  unfold onGet
  split
  · exact ⟨_, rfl, rfl⟩
  · split
    · exact fail_plain _ rc _
    · split
      · exact ⟨_, rfl, rfl⟩
      · split
        · exact ⟨_, rfl, rfl⟩
        · split <;> exact ⟨_, rfl, rfl⟩

theorem IncrementT.onPut_plain (sum : Value) :
    ∃ c, onPut sum rc stat = [c] ∧ c.plain (.increment path value) = true := by
  unfold onPut
  split
  · exact fail_plain _ rc _
  · exact ⟨_, rfl, rfl⟩

theorem IncrementT.onCreate_plain (sum : Value) :
    ∃ c, onCreate sum rc = [c] ∧ c.plain (.increment path value) = true := by
  unfold onCreate
  split
  · exact fail_plain _ rc _
  · exact ⟨_, rfl, rfl⟩

end Classes

theorem Action.onReply_plain {a : Action} (hc : a.cmd.single = true) {q : Query}
    (hq : a.cmd.handles q = true) {r : Reply} (hr : q.answers r = true) (closed : Bool) :
    ∃ c, (a.onReply closed r).2 = [c] ∧ c.plain a.cmd = true := by
  obtain ⟨cmd, depth, sum, created⟩ := a
  cases r with
  | put rc stat =>
    cases cmd with
    | put path value version => exact PutT.onPut_plain path value version rc stat
    | increment path value => exact IncrementT.onPut_plain path value rc stat sum
    | _ => cases q <;> simp [Command.single, Command.handles, Query.answers] at hc hq hr
  | get rc data stat =>
    cases cmd with
    | put path value version => exact PutT.onGet_plain path value version rc data stat
    | get path => exact GetT.onGet_plain path rc data stat
    | increment path value => exact IncrementT.onGet_plain path value rc data stat sum
    | _ => cases q <;> simp [Command.single, Command.handles, Query.answers] at hc hq hr
  | create rc p =>
    cases cmd with
    | create path value ephemeral sequence => exact onCreated_plain (fun _ => rfl) rfl rfl depth rc
    | increment path value => exact IncrementT.onCreate_plain path value rc sum
    | _ => cases q <;> simp [Command.single, Command.handles, Query.answers] at hc hq hr
  | del rc =>
    cases cmd with
    | del path version => exact DelT.onDel_plain path version rc
    | _ => cases q <;> simp [Command.single, Command.handles, Query.answers] at hc hq hr
  | _ =>
    cases cmd <;> cases q <;> simp [Command.single, Command.handles, Query.answers] at hc hq hr

/-- What a handler with one plain call can do, in a scope that is not of a lock. -/
inductive Machine.Answered (m : Machine) : Call → Machine → Prop where
  | sent {q : Query} (h : m.act.cmd.handles q = true) : Answered m (.request q false) (m.send q none)
  | invoked (r : Response) (h : m.closed = false) :
    Answered m (.satisfy r) (m.note (.invoked (.value r)))
  | failed {c : Call} (e : Error) (hc : ∀ r, c ≠ .satisfy r) (h : m.closed = false) :
    Answered m c { m.note (.invoked (.error e)) with closed := true }
  | silent {c : Call} (h : m.closed = true) : Answered m c m

theorem Machine.answered {m : Machine} (ha : m.attached = false) {c : Call}
    (hp : c.plain m.act.cmd = true) (l : Luck) : m.Answered c (m.handle [c] l) := by
  have hfail : ∀ e, (∀ r, c ≠ .satisfy r) → m.Answered c (m.abort e l) := by
    intro e hc
    rw [abort_of_detached ha]
    split
    · rename_i h
      exact .silent h
    · rename_i h
      exact .failed e hc (by simpa using h)
  cases c with
  | satisfy r =>
    have hh : m.handle [.satisfy r] l = m.satisfy r := rfl
    rw [hh, satisfy]
    split
    · rename_i h
      exact .silent h
    · rename_i h
      exact .invoked r (by simpa using h)
  | throw e => exact hfail e (by simp)
  | reconnect => cases hp
  | request q watch =>
    obtain ⟨hq, rfl⟩ : m.act.cmd.handles q = true ∧ watch = false := by simpa [Call.plain] using hp
    rcases hl : l.call with _ | e
    · have hh : m.handle [.request q false] l = m.send q none := by simp [handle, exec, hl]
      rw [hh]
      exact .sent hq
    · have hh : m.handle [.request q false] l = m.abort e.error l := by simp [handle, exec, hl]
      rw [hh]
      exact hfail e.error (by simp)

/-- Invocations of the callback so far. -/
def Machine.invocations (m : Machine) : Nat := m.log.countP Obs.isCallback

/-- What may still invoke it, in an operation without watches. -/
def Machine.pending (m : Machine) : Nat := m.outbox.length + m.deferred.isSome.toNat

/-- An operation without watches, between two steps. -/
structure Once (m : Machine) : Prop where
  cmd : m.act.cmd.single = true
  attached : m.attached = false
  running : m.running = []
  watchers : m.watchers = []
  handled : ∀ s ∈ m.outbox, m.act.cmd.handles s.query = true
  pending : m.pending ≤ 1
  count : .closed ∉ m.log → m.pending + m.invocations = 1
  closed : .closed ∉ m.log → m.closed = true → m.pending = 0

/-- The same operation when what was on its way has arrived and is not handled yet. -/
structure Arrived (m : Machine) : Prop where
  cmd : m.act.cmd.single = true
  attached : m.attached = false
  running : m.running = []
  watchers : m.watchers = []
  outbox : m.outbox = []
  deferred : m.deferred = none
  fresh : .closed ∉ m.log → m.closed = false ∧ m.invocations = 0

namespace Arrived

variable {m : Machine}

theorem pending (h : Arrived m) : m.pending = 0 := by
  simp [Machine.pending, h.outbox, h.deferred]

/-- Only the user's `close` leaves an operation closed and without an invocation. -/
theorem quiet (h : Arrived m) (hc : m.closed = true) : Once m := by
  have hl : .closed ∈ m.log := by
    by_contra hl
    rw [(h.fresh hl).1] at hc
    cases hc
  exact ⟨h.cmd, h.attached, h.running, h.watchers, by simp [h.outbox], by simp [h.pending],
    fun hn => absurd hl hn, fun hn => absurd hl hn⟩

theorem invoked (h : Arrived m) (o : Outcome) (closed : Bool) :
    Once { m.note (.invoked o) with closed } := by
  refine ⟨h.cmd, h.attached, h.running, h.watchers, by simp [h.outbox], ?_, fun hl => ?_,
    fun _ _ => h.pending⟩
  · exact h.pending.le.trans zero_le_one
  · have hi := (h.fresh fun hn => hl (List.mem_cons_of_mem _ hn)).2
    unfold Machine.invocations at *
    rw [Machine.note, List.countP_cons_of_pos rfl, hi]
    exact congrArg (· + 1) h.pending

theorem send (h : Arrived m) {q : Query} (hq : m.act.cmd.handles q = true) :
    Once (m.send q none) := by
  have hp : (m.send q none).pending = 1 := by simp [Machine.pending, h.outbox, h.deferred]
  refine ⟨h.cmd, h.attached, h.running, h.watchers, by simp [h.outbox, hq], hp.le, fun hl => ?_,
    fun hl hc => ?_⟩
  · have hi := (h.fresh fun hn => hl (List.mem_cons_of_mem _ hn)).2
    unfold Machine.invocations at *
    rw [hp, Machine.send, List.countP_cons_of_neg (by simp [Obs.isCallback]), hi]
  · have hf := (h.fresh fun hn => hl (List.mem_cons_of_mem _ hn)).1
    rw [Machine.send, hf] at hc
    cases hc

theorem handle (h : Arrived m) {c : Call} (hp : c.plain m.act.cmd = true) (l : Luck) :
    Once (m.handle [c] l) := by
  have ha := Machine.answered h.attached hp l
  generalize m.handle [c] l = m' at ha ⊢
  cases ha with
  | sent hq => exact h.send hq
  | invoked r hc => exact h.invoked (.value r) m.closed
  | failed e _ hc => exact h.invoked (.error e) true
  | silent hc => exact h.quiet hc

end Arrived

namespace Once

variable {m m' : Machine}

theorem start (hc : cmd.single = true) (l : Luck) : Once (.start cmd l) := by
  have hcmd : (Action.init cmd).cmd.single = true := by rw [Action.cmd_init, hc]
  rcases Machine.start_single hc l with ⟨e, heq, -⟩ | ⟨q, heq, -, hq⟩
  · rw [heq]
    exact ⟨hcmd, rfl, rfl, rfl, by simp, le_refl 1, fun _ => rfl, fun _ h => nomatch h⟩
  · rw [heq]
    exact ⟨hcmd, rfl, rfl, rfl, by simp [hq], le_refl 1, fun _ => rfl, fun _ h => nomatch h⟩

/-- While something is on its way the callback was not invoked. -/
theorem fresh (h : Once m) (hp : 0 < m.pending) (hl : .closed ∉ m.log) :
    m.closed = false ∧ m.invocations = 0 := by
  have hn := h.count hl
  refine ⟨?_, by omega⟩
  by_contra hc
  have := h.closed hl (by simpa using hc)
  omega

/-- A request that is outstanding is all that is on its way. -/
theorem alone (h : Once m) {k : Nat} {s : Sent} (hk : m.outbox[k]? = some s) :
    m.outbox.eraseIdx k = [] ∧ m.deferred = none ∧ 0 < m.pending := by
  obtain ⟨hlt, -⟩ := List.getElem?_eq_some_iff.mp hk
  have hpend := h.pending
  unfold Machine.pending at *
  refine ⟨?_, ?_, by omega⟩
  · rw [← List.length_eq_zero_iff]
    have := List.length_eraseIdx_add_one hlt
    omega
  · rcases hd : m.deferred with _ | e
    · rfl
    · simp only [hd, Option.isSome_some, Bool.toNat_true] at hpend
      omega

theorem reply (h : Once m) {k : Nat} {s : Sent} (hk : m.outbox[k]? = some s) {r : Reply}
    (hr : s.query.answers r = true) (l : Luck) :
    Once ({ m with outbox := m.outbox.eraseIdx k }.deliver s.query r l) := by
  obtain ⟨c, hcalls, hp⟩ :=
    Action.onReply_plain h.cmd (h.handled s (List.mem_of_getElem? hk)) hr m.closed
  have hcmd := m.act.cmd_onReply m.closed r
  obtain ⟨ho, hd, hpos⟩ := h.alone hk
  have ha : Arrived { m with
      act := (m.act.onReply m.closed r).1, outbox := m.outbox.eraseIdx k
      log := .replied s.query r :: m.log } := by
    refine ⟨by rw [hcmd]; exact h.cmd, h.attached, h.running, h.watchers, ho, hd, fun hl => ?_⟩
    have hf := h.fresh hpos fun hn => hl (List.mem_cons_of_mem _ hn)
    refine ⟨hf.1, ?_⟩
    unfold Machine.invocations at *
    rw [List.countP_cons_of_neg (by simp [Obs.isCallback]), hf.2]
  simp only [Machine.deliver, hcalls]
  exact ha.handle (by rw [hcmd]; exact hp) l

theorem abort (h : Once m) {e : Error} (he : m.deferred = some e) (l : Luck) :
    Once ({ m with deferred := none }.abort e l) := by
  have hp := h.pending
  simp only [Machine.pending, he, Option.isSome_some, Bool.toNat_true] at hp
  have ho : m.outbox = [] := by
    rw [← List.length_eq_zero_iff]
    omega
  have ha : Arrived { m with deferred := none } := by
    refine ⟨h.cmd, h.attached, h.running, h.watchers, ho, rfl, h.fresh ?_⟩
    simp [Machine.pending, he]
  rw [Machine.abort_of_detached ha.attached]
  split
  · rename_i hc
    exact ha.quiet hc
  · exact ha.invoked (.error e) true

theorem close (h : Once m) (l : Luck) : Once (m.close l) := by
  have ha : m.onAbort l = (m, false) := by simp [Machine.onAbort, h.attached]
  unfold Machine.close
  split
  · exact ⟨h.cmd, h.attached, h.running, h.watchers, h.handled, h.pending, by simp, by simp⟩
  · simp only [ha]
    exact ⟨h.cmd, h.attached, h.running, h.watchers, h.handled, h.pending, by simp, by simp⟩

theorem step {a : Label} (h : Once m) (hs : m.step a = some m') : Once m' := by
  cases Machine.stepped hs with
  | reply hk hr => exact h.reply hk hr _
  | event hw => simp [h.watchers] at hw
  | resume hk => simp [h.running] at hk
  | abort he => exact h.abort he _
  | close => exact h.close _

end Once

theorem Machine.once (hc : cmd.single = true) {m : Machine}
    (hr : (operationSystem cmd).Reachable System.Any m) : Once m := by
  refine hr.induct ?_ ?_
  · rintro m ⟨l, rfl⟩
    exact Once.start hc l
  · intro m a m' h _ hs
    exact h.step hs

/-- In every run of an operation the callback is invoked neither after a `close`
that returned nor after it was passed an exception, and the operations that answer
once have invoked it exactly once when nothing of them is left, unless they were
closed. The record is newest first. -/
theorem callback_discipline {cmd : Command} {m : Machine}
    (hr : (operationSystem cmd).Reachable System.Any m) :
    (m.log.Pairwise fun o o' => o.isCallback = true → o'.ends = false) ∧
      (cmd.single = true → .closed ∉ m.log → m.outbox = [] → m.running = [] →
        m.deferred = none → m.invocations = 1) := by
  refine ⟨?_, fun hc hl ho _ hd => ?_⟩
  · refine Disciplined.order (hr.induct ?_ ?_)
    · rintro m ⟨l, rfl⟩
      exact Disciplined.start cmd l
    · intro m a m' h _ hs
      exact h.step hs
  · have hn := (Machine.once hc hr).count hl
    simpa [Machine.pending, ho, hd] using hn

/-- A put whose version is stale: the write is refused, then the node is read. -/
theorem callback_discipline_put : ∃ m,
    (operationSystem (.put "/n".toList (.int 1) 3)).Reachable System.Any m ∧ m.outbox = [] ∧
      (m.log.Pairwise fun o o' => o.isCallback = true → o'.ends = false) ∧ m.invocations = 1 := by
  obtain ⟨m, hr, ho, hrun, hd, hl⟩ := (operationSystem (.put "/n".toList (.int 1) 3)).exists_reachable
    System.Any (P := fun m => m.outbox = [] ∧ m.running = [] ∧ m.deferred = none ∧ .closed ∉ m.log)
    [.reply 0 (.put .badVersion {}) {}, .reply 0 (.get .ok (.packed (.int 5)) ⟨4, 0, 0⟩) {}]
    ⟨{}, rfl⟩ (by decide +kernel)
  obtain ⟨horder, honce⟩ := callback_discipline hr
  exact ⟨m, hr, ho, horder, honce rfl hl ho hrun hd⟩

end Cocaine.Unicorn
