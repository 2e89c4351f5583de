import CocainePlugins.Unicorn.Delivery
import CocainePlugins.Unicorn.Discipline

/-!
# An operation alone

An operation without watches, run to its end with nobody else around: each request is
served and its reply handled before anything else happens. `perform` computes its
effect and its answer; `perform_world` says that a run of the operation in the world
does the same.
-/

namespace Cocaine.Unicorn

open Framework

def Command.path : Command → Str
  | .put path _ _ | .get path | .create path _ _ _ | .del path _ | .subscribe path
  | .childrenSubscribe path | .increment path _ | .lock path _ | .namedLock path _ => path

/-- The rest of the operation from a call on, if `n` replies are enough. -/
def converse : Nat → Ztree Data → Action → Call → Option (Ztree Data × Outcome)
  | _, t, _, .satisfy r => some (t, .value r)
  | _, t, _, .throw e => some (t, .error e)
  | n + 1, t, a, .request q _ =>
    let s := serve t q
    let p := a.onReply false s.2
    match p.2 with
    | [c] => converse n s.1 p.1 c
    | _ => none
  | 0, _, _, .request _ _ | _, _, _, .reconnect => none

/-- The replies that are enough: two for each level above the path. -/
def Command.rounds (cmd : Command) : Nat := 2 * cmd.path.length + 2

/-- The library refuses a path that is not valid. -/
def perform (t : Ztree Data) (cmd : Command) : Option (Ztree Data × Outcome) :=
  match (Action.init cmd).run with
  | [.request q watch] =>
    if validPath cmd.path then converse cmd.rounds t (.init cmd) (.request q watch)
    else some (t, .error Refusal.library.error)
  | [c] => converse cmd.rounds t (.init cmd) c
  | _ => none

/-! ## In the world -/

/-- A step of the operations, not a new one and not of someone else. -/
def World.Label.own : World.Label → Bool
  | .run _ _ | .other _ => false
  | .serve _ _ | .move _ _ => true

/-- The operation after its last call. -/
structure Spoken (m : Machine) (c : Call) : Prop where
  opened : m.closed = false ∨ ∀ q, c ≠ .request q false
  attached : m.attached = false
  deferred : m.deferred = none
  sent : ∀ q, c = .request q false → m.outbox = [⟨q, none⟩]
  value : ∀ r, c = .satisfy r → .invoked (.value r) ∈ m.log
  error : ∀ e, c = .throw e → .invoked (.error e) ∈ m.log

namespace Spoken

variable {m : Machine} {c : Call}

theorem handle (ho : m.closed = false) (ha : m.attached = false) (hd : m.deferred = none)
    (hb : m.outbox = []) (hc : c.plain m.act.cmd = true) : Spoken (m.handle [c] {}) c := by
  cases c with
  | satisfy r =>
    have hh : m.handle [.satisfy r] {} = m.note (.invoked (.value r)) := by
      simp [Machine.handle, Machine.exec, Machine.satisfy, ho]
    rw [hh]
    exact ⟨.inl ho, ha, hd, by simp, by simp, by simp⟩
  | throw e =>
    have hh : m.handle [.throw e] {} = m.abort e {} := rfl
    rw [hh, Machine.abort_of_detached ha, ho, if_neg Bool.false_ne_true]
    exact ⟨.inr (by simp), ha, hd, by simp, by simp, by simp⟩
  | request q watch =>
    obtain ⟨-, rfl⟩ : m.act.cmd.handles q = true ∧ watch = false := by simpa [Call.plain] using hc
    have hh : m.handle [.request q false] {} = m.send q none := by
      simp [Machine.handle, Machine.exec]
    rw [hh]
    exact ⟨.inl ho, ha, hd, by simp [hb], by simp, by simp⟩
  | reconnect => cases hc

end Spoken

def World.alone (t : Ztree Data) (op : Machine) (h : List Served) : World :=
  { tree := t, clients := [{ op }], history := h }

/-- The request is served and its reply delivered. -/
theorem World.round (t : Ztree Data) {m : Machine} {q : Query} (hb : m.outbox = [⟨q, none⟩])
    (h : List Served) : ∃ h', worldSystem.Path (fun _ a => a.own = true) (.alone t m h)
      (.alone (serve t q).1 ({ m with outbox := [] }.deliver q (serve t q).2 {}) h') := by
  refine ⟨.of (some 0) 1 t q none :: h, ?_⟩
  have hserve : worldSystem.step (.alone t m h) (.serve 0 none) = some
      { tree := (serve t q).1
        clients := [{ op := { m with outbox := [] }, inbox := [.reply ⟨q, none⟩ (serve t q).2] }]
        history := .of (some 0) 1 t q none :: h } := by
    simp [worldSystem, World.step, World.alone, hb, World.commit, Served.of, answer, Client.observe,
      Client.served, Sent.watch]
  refine .tail (a := .move 0 (.deliver {})) (.tail .refl rfl hserve) rfl ?_
  simp [worldSystem, World.step, Client.move, Client.receive, World.alone]

variable {o : Outcome}

/-- A conversation is a run of the operation. -/
theorem converse_world {n : Nat} {t t' : Ztree Data} {a : Action} {c : Call}
    (h : converse n t a c = some (t', o)) {m : Machine} (hm : m.act = a)
    (hs : a.cmd.single = true) (hp : c.plain a.cmd = true) (hsp : Spoken m c)
    (hist : List Served) : ∃ m' hist',
      worldSystem.Path (fun _ a => a.own = true) (.alone t m hist) (.alone t' m' hist') ∧
      .invoked o ∈ m'.log := by
  induction n generalizing t a c m hist with
  | zero =>
    cases c with
    | satisfy r =>
      cases h
      exact ⟨m, hist, .refl, hsp.value r rfl⟩
    | throw e =>
      cases h
      exact ⟨m, hist, .refl, hsp.error e rfl⟩
    | request | reconnect => cases h
  | succ n ih =>
    cases c with
    | satisfy r =>
      cases h
      exact ⟨m, hist, .refl, hsp.value r rfl⟩
    | throw e =>
      cases h
      exact ⟨m, hist, .refl, hsp.error e rfl⟩
    | reconnect => cases h
    | request q watch =>
      obtain ⟨hq, rfl⟩ : a.cmd.handles q = true ∧ watch = false := by simpa [Call.plain] using hp
      subst hm
      obtain ⟨c', hcalls, hp'⟩ := Action.onReply_plain hs hq (answers_serve t q) false
      simp only [converse, hcalls] at h
      obtain ⟨hist₁, hround⟩ := World.round t (hsp.sent q rfl) hist
      have ho : m.closed = false := hsp.opened.resolve_right fun hne => hne q rfl
      have hcmd := m.act.cmd_onReply false (serve t q).2
      have hd : { m with outbox := [] }.deliver q (serve t q).2 {} = Machine.handle { m with
          outbox := []
          act := (m.act.onReply false (serve t q).2).1
          log := .replied q (serve t q).2 :: m.log } [c'] {} := by
        simp only [Machine.deliver, ho, hcalls]
      rw [hd] at hround
      rw [← hcmd] at hs hp'
      have hsp' : Spoken (Machine.handle { m with
          outbox := []
          act := (m.act.onReply false (serve t q).2).1
          log := .replied q (serve t q).2 :: m.log } [c'] {}) c' := by
        refine .handle ?_ ?_ ?_ rfl hp'
        · exact ho
        · exact hsp.attached
        · exact hsp.deferred
      obtain ⟨m', hist', hpath, hmem⟩ := ih h (Machine.act_handle [c'] {}) hs hp' hsp' hist₁
      exact ⟨m', hist', hround.trans hpath, hmem⟩

theorem World.failed (t : Ztree Data) (a : Action) (e : Error) : ∃ m',
    worldSystem.Path (fun _ a => a.own = true) (.alone t { act := a, deferred := some e } [])
      (.alone t m' []) ∧ .invoked (.error e) ∈ m'.log := by
  refine ⟨_, .tail (a := .move 0 (.abort {})) .refl rfl rfl, ?_⟩
  exact List.mem_cons_self

/-- What an operation without watches does alone is a run of it in the world. -/
theorem perform_world {t t' : Ztree Data} {cmd : Command}
    (h : perform t cmd = some (t', o)) (hs : cmd.single = true) : ∃ l m' hist',
      worldSystem.Path (fun _ a => a.own = true) (.alone t (.start cmd l) [])
        (.alone t' m' hist') ∧ .invoked o ∈ m'.log := by
  have hl : cmd.locks.isSome = false := by cases cmd <;> first | rfl | cases hs
  unfold perform at h
  rcases Action.run_single hs with ⟨e, hrun⟩ | ⟨q, hrun, hq⟩
  · rw [hrun] at h
    cases h
    obtain ⟨m', hpath, hmem⟩ := World.failed t (.init cmd) e
    refine ⟨{}, m', [], ?_, hmem⟩
    simpa [Machine.start, hrun, Machine.exec, hl] using hpath
  · rw [hrun, ask] at h
    dsimp only at h
    split at h
    · have hst : Machine.start cmd {} =
          { act := .init cmd, outbox := [⟨q, none⟩], log := [.sent q] } := by
        simp [Machine.start, hrun, Machine.exec, ask, hl]
      refine ⟨{}, ?_⟩
      rw [hst]
      refine converse_world h rfl (by rw [Action.cmd_init]; exact hs) ?_ ?_ []
      · simp [Call.plain, hq]
      · exact ⟨.inl rfl, rfl, rfl, by rintro _ ⟨⟩; rfl, by simp, by simp⟩
    · cases h
      obtain ⟨m', hpath, hmem⟩ := World.failed t (.init cmd) Refusal.library.error
      refine ⟨{ call := some .library }, m', [], ?_, hmem⟩
      simpa [Machine.start, hrun, ask, Machine.exec, hl] using hpath

/-! ## What a read and a write do -/

section

variable {n : Nat} {t : Ztree Data} {a : Action}

@[simp] theorem converse_satisfy (r : Response) :
    converse n t a (.satisfy r) = some (t, .value r) := by
  cases n <;> rfl

@[simp] theorem converse_throw (e : Error) : converse n t a (.throw e) = some (t, .error e) := by
  cases n <;> rfl

theorem converse_request {q : Query} {c : Call} (h : (a.onReply false (serve t q).2).2 = [c])
    (watch : Bool) : converse (n + 1) t a (.request q watch) =
      converse n (serve t q).1 (a.onReply false (serve t q).2).1 c := by
  simp only [converse, h]

theorem perform_eq (t : Ztree Data) (cmd : Command) {q : Query}
    (h : (Action.init cmd).run = ask q) (hv : validPath cmd.path = true) :
    perform t cmd = converse (2 * cmd.path.length + 2) t (.init cmd) (.request q false) := by
  simp [perform, h, ask, hv, Command.rounds]

end

section

variable {t t' : Ztree Data} {p : Str} {n : Znode Data} {v : Value}

theorem perform_get_missing (hv : validPath p = true) (hn : t.node p = none) :
    perform t (.get p) = some (t, .value (.value ⟨.null, notExistingVersion⟩)) := by
  have hs : serve t (.get p) = (t, .get .noNode .raw {}) := by simp [serve, hn]
  rw [perform_eq t (.get p) rfl hv, converse_request (by rw [hs]; rfl), hs, converse_satisfy]

theorem perform_get_value (hv : validPath p = true) (hn : t.node p = some n)
    (hc : n.children = []) (hd : unserialize n.data = .ok v) :
    perform t (.get p) = some (t, .value (.value ⟨v, n.version⟩)) := by
  have hs : serve t (.get p) = (t, .get .ok n.data n.stat) := by simp [serve, hn]
  have hg : GetT.onGet .ok n.data n.stat = [.satisfy (.value ⟨v, n.version⟩)] := by
    simp [GetT.onGet, Znode.stat, hc, hd]
  rw [perform_eq t (.get p) rfl hv, converse_request (by rw [hs]; exact hg), hs, converse_satisfy]

theorem perform_get_above (hv : validPath p = true) (hn : t.node p = some n)
    (hc : n.children ≠ []) : ∃ e, perform t (.get p) = some (t, .error e) := by
  have hs : serve t (.get p) = (t, .get .ok n.data n.stat) := by simp [serve, hn]
  obtain ⟨e, hg⟩ : ∃ e, GetT.onGet .ok n.data n.stat = [.throw e] := by
    simp [GetT.onGet, Znode.stat, hc]
  rw [perform_eq t (.get p) rfl hv, converse_request (by rw [hs]; exact hg), hs, converse_throw]
  exact ⟨e, rfl⟩

theorem run_put {version : Int} (h : 0 ≤ version) :
    (Action.init (.put p v version)).run = ask (.put p (serialize v) version) := by
  simp [Action.run, Action.init, PutT.run, not_lt.mpr h]

/-- After the second request a write reports no success. -/
theorem PutT.onGet_false (rc : Rc) (data : Data) (stat : Stat) : (∃ e, onGet rc data stat = [.throw e]) ∨
    ∃ w, onGet rc data stat = [.satisfy (.put false w)] := by
  unfold onGet
  split
  · exact .inl ⟨_, rfl⟩
  · split
    · exact .inl ⟨_, rfl⟩
    · exact .inr ⟨_, rfl⟩

/-- A write comes to its end: it sets the value of a node with the version that it names, or
nothing. -/
theorem perform_put_answered (t : Ztree Data) (p : Str) (v : Value) (version : Int) :
    (∃ n t' w, perform t (.put p v version) = some (t', .value (.put true w)) ∧
      validPath p = true ∧ 0 ≤ version ∧ t.node p = some n ∧ Ztree.expects (i32 version) n = true ∧
      t'.node = Function.update t.node p (some { n with data := serialize v, version := n.version + 1 })) ∨
    ∃ o, perform t (.put p v version) = some (t, o) ∧
      ((∃ e, o = .error e) ∨ ∃ w, o = .value (.put false w)) := by
  rcases lt_or_ge version 0 with hneg | hnn
  · right
    simp only [perform, Action.run, Action.init, PutT.run, hneg, if_true, converse_throw]
    exact ⟨_, rfl, .inl ⟨_, rfl⟩⟩
  by_cases hv : validPath p = true
  · rw [perform_eq t (.put p v version) (run_put hnn) hv]
    obtain ⟨rc, stat, hs⟩ : ∃ rc stat, (serve t (.put p (serialize v) version)).2 = .put rc stat :=
      ⟨_, _, rfl⟩
    by_cases hok : rc = .ok
    · subst hok
      obtain ⟨n, hn, hx, ht, -⟩ := serve_put_ok (Prod.ext_iff.mpr ⟨rfl, hs⟩)
      rw [converse_request (c := .satisfy (.put true ⟨v, stat.version⟩)) (by rw [hs]; rfl),
        converse_satisfy]
      exact .inl ⟨n, _, _, rfl, hv, hnn, hn, hx, ht⟩
    · have hserve : serve t (.put p (serialize v) version) =
          ((serve t (.put p (serialize v) version)).1, .put rc stat) := Prod.ext rfl hs
      have hsame := serve_put_error hserve hok
      right
      by_cases hbad : rc = .badVersion
      · -- The second request reads the value that is there.
        subst hbad
        rw [converse_request (c := .request (.get p) false) (by rw [hs]; rfl), hsame, hs]
        obtain ⟨rc', data, stat', hg, ht⟩ : ∃ rc data stat,
            (serve t (.get p)).2 = .get rc data stat ∧ (serve t (.get p)).1 = t := by
          simp only [serve]
          split <;> exact ⟨_, _, _, rfl, rfl⟩
        rcases PutT.onGet_false rc' data stat' with ⟨e, hc⟩ | ⟨w', hc⟩
        · rw [converse_request (c := .throw e) (by rw [hg]; exact hc), converse_throw, ht]
          exact ⟨_, rfl, .inl ⟨e, rfl⟩⟩
        · rw [converse_request (c := .satisfy (.put false w')) (by rw [hg]; exact hc),
            converse_satisfy, ht]
          exact ⟨_, rfl, .inr ⟨w', rfl⟩⟩
      · have hc : PutT.onPut p v rc stat =
            [.throw ⟨mapZooError rc, "failure during writing node value"⟩] := by
          simp [PutT.onPut, hbad, hok, fail]
        rw [converse_request (c := .throw _) (by rw [hs]; exact hc), converse_throw, hsame]
        exact ⟨_, rfl, .inl ⟨_, rfl⟩⟩
  · refine .inr ⟨.error Refusal.library.error, ?_, .inl ⟨_, rfl⟩⟩
    simp [perform, run_put hnn, ask, Command.path, hv]

theorem perform_put_cases {version : Int} (h : perform t (.put p v version) = some (t', o)) :
    (∃ n w, o = .value (.put true w) ∧ validPath p = true ∧ 0 ≤ version ∧ t.node p = some n ∧
      Ztree.expects (i32 version) n = true ∧
      t'.node = Function.update t.node p (some { n with data := serialize v, version := n.version + 1 })) ∨
    t' = t ∧ ∀ w, o ≠ .value (.put true w) := by
  rcases perform_put_answered t p v version with ⟨n, t'', w, h', hset⟩ | ⟨o', h', ho⟩
  · rw [h] at h'
    cases h'
    exact .inl ⟨n, w, rfl, hset⟩
  · rw [h] at h'
    cases h'
    rcases ho with ⟨e, rfl⟩ | ⟨w, rfl⟩ <;> exact .inr ⟨rfl, by simp⟩

def Reads (t : Ztree Data) (p : Str) (o : Outcome) : Prop :=
  (∃ e, o = .error e) ∨ (t.node p = none ∧ o = .value (.value ⟨.null, notExistingVersion⟩)) ∨
    ∃ n v, t.node p = some n ∧ unserialize n.data = .ok v ∧ o = .value (.value ⟨v, n.version⟩)

theorem perform_get_answered (t : Ztree Data) (p : Str) :
    ∃ o, perform t (.get p) = some (t, o) ∧ Reads t p o := by
  by_cases hv : validPath p = true
  · rcases hn : t.node p with _ | n
    · exact ⟨_, perform_get_missing hv hn, .inr (.inl ⟨hn, rfl⟩)⟩
    · by_cases hc : n.children = []
      · rcases hd : unserialize n.data with e | v
        · have hs : serve t (.get p) = (t, .get .ok n.data n.stat) := by simp [serve, hn]
          have hg : GetT.onGet .ok n.data n.stat = [.throw e] := by
            simp [GetT.onGet, Znode.stat, hc, hd]
          rw [perform_eq t (.get p) rfl hv, converse_request (by rw [hs]; exact hg), hs,
            converse_throw]
          exact ⟨_, rfl, .inl ⟨e, rfl⟩⟩
        · exact ⟨_, perform_get_value hv hn hc hd, .inr (.inr ⟨n, v, hn, hd, rfl⟩)⟩
      · obtain ⟨e, he⟩ := perform_get_above hv hn hc
        exact ⟨_, he, .inl ⟨e, rfl⟩⟩
  · exact ⟨.error Refusal.library.error, if_neg hv, .inl ⟨_, rfl⟩⟩

theorem perform_get_cases (h : perform t (.get p) = some (t', o)) :
    t' = t ∧ Reads t p o := by
  obtain ⟨o', h', ho⟩ := perform_get_answered t p
  rw [h] at h'
  cases h'
  exact ⟨rfl, ho⟩

end

end Cocaine.Unicorn
