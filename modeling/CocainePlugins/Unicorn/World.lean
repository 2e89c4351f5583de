import CocainePlugins.Unicorn.Machine
import CocainePlugins.Unicorn.Server

/-!
# Operations of many clients on one tree

The ensemble serves the requests of each operation in the order they were made;
replies and the events of its watches reach it in the order they arose. A watch
fires once, at the first change of its node after it was armed. A request may also
fail on its way, before or after it was served (`Fault`). What was served is
recorded (`Served`), by which call and between which trees, so that the theorems
can speak of the moment a request took effect.

`Run` is the same from the place of one of the calls: what the others do is a
change of the tree. `World.run` derives it, and every theorem about one operation
among the others goes by induction on it.
-/

namespace Cocaine.Unicorn

open Framework

/-! ## Watches -/

inductive WatchKind where
  | data | child
deriving DecidableEq, Repr

structure Watch where
  id : Nat
  kind : WatchKind
  path : Str
deriving DecidableEq, Repr

/-- The event of a change of the tree. -/
def Watch.fires (w : Watch) (before after : Ztree Data) : Option EventType :=
  match w.kind, before.node w.path, after.node w.path with
  | .data, none, some _ => some .created
  | .data, some n, some n' => if n'.version = n.version then none else some .changed
  | .child, some n, some n' => if n'.cversion = n.cversion then none else some .child
  | _, some _, none => some .deleted
  | _, _, _ => none

/-- The watch that is armed when the request is served; `exists` watches a missing
node as well. -/
def Sent.watch (s : Sent) (r : Reply) : List Watch :=
  match s.watcher, s.query, r with
  | some id, .exists' p, .exists' .ok _ | some id, .exists' p, .exists' .noNode _ => [⟨id, .data, p⟩]
  | some id, .get p, .get .ok _ _ => [⟨id, .data, p⟩]
  | some id, .childs p, .childs .ok _ _ => [⟨id, .child, p⟩]
  | _, _, _ => []

/-! ## One operation and its side of the ensemble -/

/-- On the way to an operation. -/
inductive Msg where
  | reply (s : Sent) (r : Reply)
  | event (id : Nat) (w : WatchReply)
deriving DecidableEq

structure Client where
  op : Machine
  armed : List Watch := []
  /-- Oldest first. -/
  inbox : List Msg := []
deriving DecidableEq

/-- What the operation does next on its own. -/
inductive Move where
  /-- A watcher hears that the state of the session changed. -/
  | session (id : Nat) (state : SessionState)
  | deliver (l : Luck)
  | resume (k : Nat) (l : Luck)
  | abort (l : Luck)
  | close (l : Luck)
deriving DecidableEq

namespace Client

variable (c : Client)

/-- The watches of the operation at a change of the tree. -/
def observe (before after : Ztree Data) : Client :=
  { c with
    armed := c.armed.filter fun w => (w.fires before after).isNone
    inbox := c.inbox ++ c.armed.filterMap fun w =>
      (w.fires before after).map fun e => .event w.id { type := e, path := w.path } }

def served (s : Sent) (r : Reply) : Client :=
  { op := { c.op with outbox := c.op.outbox.tail }
    armed := c.armed ++ s.watch r
    inbox := c.inbox ++ [.reply s r] }

/-- The event of a watcher that is not registered any more is dropped. -/
def receive (l : Luck) : Msg → Machine
  | .reply s r => c.op.deliver s.query r l
  | .event id w => if c.op.watchers.any (·.1 == id) then c.op.notify id w l else c.op

def move : Move → Option Client
  | .session id state =>
    some { c with inbox := c.inbox ++ [.event id { type := .session, state }] }
  | .deliver l =>
    match c.inbox with
    | [] => none
    | msg :: rest => some { c with op := c.receive l msg, inbox := rest }
  | .resume k l => (c.op.step (.resume k l)).map fun op => { c with op }
  | .abort l => (c.op.step (.abort l)).map fun op => { c with op }
  | .close l => some { c with op := c.op.close l }

/-- What a move can be. -/
inductive Moved : Move → Client → Prop where
  | session (id : Nat) (state : SessionState) : Moved (.session id state)
    { c with inbox := c.inbox ++ [.event id { type := .session, state }] }
  | reply {s : Sent} {r : Reply} {rest : List Msg} {l : Luck}
    (hbox : c.inbox = .reply s r :: rest) :
    Moved (.deliver l) { c with op := c.op.deliver s.query r l, inbox := rest }
  | event {id : Nat} {w : WatchReply} {rest : List Msg} {l : Luck}
    (hbox : c.inbox = .event id w :: rest) (hid : c.op.watchers.any (·.1 == id) = true) :
    Moved (.deliver l) { c with op := c.op.notify id w l, inbox := rest }
  | dropped {id : Nat} {w : WatchReply} {rest : List Msg} {l : Luck}
    (hbox : c.inbox = .event id w :: rest) (hid : ¬ c.op.watchers.any (·.1 == id) = true) :
    Moved (.deliver l) { c with inbox := rest }
  | resume {k : Nat} {calls : List Call} {l : Luck} (hk : c.op.running[k]? = some calls) :
    Moved (.resume k l)
      { c with op := { c.op with running := c.op.running.eraseIdx k }.handle calls l }
  | abort {e : Error} {l : Luck} (he : c.op.deferred = some e) :
    Moved (.abort l) { c with op := { c.op with deferred := none }.abort e l }
  | close {l : Luck} : Moved (.close l) { c with op := c.op.close l }

theorem moved {c c' : Client} {a : Move} (h : c.move a = some c') : Moved c a c' := by
  cases a with
  | session id state =>
    cases h
    exact .session id state
  | deliver l =>
    simp only [move] at h
    split at h
    · cases h
    · rename_i msg rest hbox
      cases h
      cases msg with
      | reply s r => exact .reply hbox
      | event id w =>
        dsimp only [receive]
        split
        · rename_i hid
          exact .event hbox hid
        · rename_i hid
          exact .dropped hbox hid
  | resume k l =>
    obtain ⟨m, hm, rfl⟩ := Option.map_eq_some_iff.mp h
    cases Machine.stepped hm with
    | resume hk => exact .resume hk
  | abort l =>
    obtain ⟨m, hm, rfl⟩ := Option.map_eq_some_iff.mp h
    cases Machine.stepped hm with
    | abort he => exact .abort he
  | close l =>
    cases h
    exact .close

/-- Nothing of the operation is on its way. -/
def idle : Bool :=
  c.op.outbox.isEmpty && c.inbox.isEmpty && c.op.running.isEmpty && c.op.deferred.isNone

theorem idle_iff {c : Client} : c.idle = true ↔
    c.op.outbox = [] ∧ c.inbox = [] ∧ c.op.running = [] ∧ c.op.deferred = none := by
  simp [idle, and_assoc]

end Client

/-! ## The ensemble -/

/-- The request fails with an error of the connection. -/
structure Fault where
  rc : Rc
  /-- It was served before. -/
  applied : Bool
deriving DecidableEq

def Reply.rc : Reply → Rc
  | .put rc _ | .get rc _ _ | .create rc _ | .del rc | .exists' rc _ | .childs rc _ _ => rc

/-- The reply to a request that failed. -/
def Query.error (rc : Rc) : Query → Reply
  | .put _ _ _ => .put rc {}
  | .get _ => .get rc .raw {}
  | .create _ _ _ _ => .create rc []
  | .del _ _ => .del rc
  | .exists' _ => .exists' rc {}
  | .childs _ => .childs rc [] {}

def answer (t : Ztree Data) (q : Query) : Option Fault → Ztree Data × Reply
  | none => serve t q
  | some f => (if f.applied then (serve t q).1 else t, q.error f.rc)

/-- A request that was served or failed. -/
structure Served where
  /-- The call it belongs to, if it is one of ours. -/
  client : Option Nat
  /-- The calls made before. -/
  calls : Nat
  query : Query
  reply : Reply
  before : Ztree Data
  after : Ztree Data

def Served.of (client : Option Nat) (calls : Nat) (t : Ztree Data) (q : Query) (f : Option Fault) :
    Served :=
  ⟨client, calls, q, (answer t q f).2, t, (answer t q f).1⟩

structure World where
  tree : Ztree Data
  clients : List Client := []
  /-- Newest first. -/
  history : List Served := []

inductive World.Label where
  /-- A method of `zookeeper_t` is called. -/
  | run (cmd : Command) (l : Luck)
  | other (q : Query)
  | serve (i : Nat) (f : Option Fault)
  | move (i : Nat) (a : Move)
deriving DecidableEq

namespace World

variable (w : World)

def commit (e : Served) : World where
  tree := e.after
  clients := w.clients.map (·.observe e.before e.after)
  history := e :: w.history

def step : Label → Option World
  | .run cmd l => some { w with clients := w.clients ++ [{ op := .start cmd l }] }
  | .other q => some (w.commit (.of none w.clients.length w.tree q none))
  | .serve i f =>
    match w.clients[i]? with
    | none => none
    | some c =>
      match c.op.outbox with
      | [] => none
      | s :: _ =>
        if f.all (·.rc.isFault) then
          let e := Served.of (some i) w.clients.length w.tree s.query f
          let w₁ := w.commit e
          some { w₁ with clients := w₁.clients.modify i (·.served s e.reply) }
        else none
  | .move i a =>
    match w.clients[i]? with
    | none => none
    | some c => (c.move a).map fun c' => { w with clients := w.clients.set i c' }

end World

/-- Any tree, and no calls yet. -/
def worldSystem : System World World.Label where
  init w := w.clients = [] ∧ w.history = []
  step := World.step

/-! ## From the place of one call -/

/-- Call number `i` after some steps, with the tree and what was served. -/
inductive Run (i : Nat) (cmd : Command) : Ztree Data → List Served → Client → Prop where
  | start {t : Ztree Data} {h : List Served} (l : Luck)
    (hh : ∀ e ∈ h, e.client ≠ some i ∧ e.calls ≤ i) : Run i cmd t h { op := .start cmd l }
  /-- A request that is not of this call. -/
  | other {t : Ztree Data} {h : List Served} {c : Client} {client : Option Nat} {calls : Nat}
    {q : Query} {f : Option Fault} (hr : Run i cmd t h c) (hc : client ≠ some i) (hi : i < calls) :
    Run i cmd (answer t q f).1 (.of client calls t q f :: h) (c.observe t (answer t q f).1)
  | serve {t : Ztree Data} {h : List Served} {c : Client} {calls : Nat} {s : Sent}
    {rest : List Sent} {f : Option Fault} (hr : Run i cmd t h c) (hi : i < calls)
    (ho : c.op.outbox = s :: rest) (hf : f.all (·.rc.isFault) = true) :
    Run i cmd (answer t s.query f).1 (.of (some i) calls t s.query f :: h)
      ((c.observe t (answer t s.query f).1).served s (answer t s.query f).2)
  | move {t : Ztree Data} {h : List Served} {c c' : Client} {a : Move} (hr : Run i cmd t h c)
    (ha : c.move a = some c') : Run i cmd t h c'

theorem Client.cmd_move {c c' : Client} {a : Move} (h : c.move a = some c') :
    c'.op.act.cmd = c.op.act.cmd := by
  cases moved h with
  | session | dropped => rfl
  | reply =>
    exact (congrArg Action.cmd (Machine.act_handle _ _)).trans (Action.cmd_onReply _ _ _)
  | event | resume => exact congrArg Action.cmd (Machine.act_handle _ _)
  | abort => exact congrArg Action.cmd (Machine.act_abort _ _)
  | close => exact congrArg Action.cmd (Machine.act_close _)

namespace World

/-- Each record is of a call made before. -/
def Dated (w : World) : Prop :=
  ∀ e ∈ w.history, e.calls ≤ w.clients.length ∧ ∀ j ∈ e.client, j < e.calls

theorem Dated.step {w w' : World} {a : Label} (h : w.Dated) (hs : w.step a = some w') :
    w'.Dated := by
  cases a with
  | run cmd l =>
    cases hs
    intro e he
    obtain ⟨hle, hj⟩ := h e he
    refine ⟨?_, hj⟩
    rw [List.length_append]
    omega
  | other q =>
    cases hs
    refine List.forall_mem_cons.mpr ⟨⟨?_, nofun⟩, ?_⟩
    · exact (List.length_map _).ge
    · simpa [Dated, commit] using h
  | serve i f =>
    simp only [World.step] at hs
    split at hs
    · cases hs
    · rename_i c hc
      split at hs
      · cases hs
      · obtain ⟨-, rfl⟩ := of_guard hs
        refine List.forall_mem_cons.mpr ⟨⟨?_, ?_⟩, ?_⟩
        · simp [Served.of, commit]
        · rintro j ⟨⟩
          exact (List.getElem?_eq_some_iff.mp hc).1
        · simpa [Dated, commit] using h
  | move i a =>
    simp only [World.step] at hs
    split at hs
    · cases hs
    · obtain ⟨c', -, rfl⟩ := Option.map_eq_some_iff.mp hs
      simpa [Dated] using h

/-- One step, from the place of one call. -/
theorem run_step {w w' : World} {a : Label} (hs : w.step a = some w') (hd : w.Dated) {i : Nat}
    (ih : ∀ c, w.clients[i]? = some c → Run i c.op.act.cmd w.tree w.history c) {c : Client}
    (hc : w'.clients[i]? = some c) : Run i c.op.act.cmd w'.tree w'.history c := by
  cases a with
  | run cmd l =>
    cases hs
    rw [List.getElem?_append] at hc
    split at hc
    · exact ih c hc
    · rename_i hi
      rw [List.getElem?_singleton] at hc
      obtain ⟨-, rfl⟩ := of_guard hc
      rw [Machine.act_start, Action.cmd_init]
      refine .start l fun e he => ?_
      obtain ⟨hle, hj⟩ := hd e he
      refine ⟨fun heq => ?_, by omega⟩
      have := hj i heq
      omega
  | other q =>
    cases hs
    simp only [commit, List.getElem?_map, Option.map_eq_some_iff] at hc
    obtain ⟨c₀, hc₀, rfl⟩ := hc
    exact (ih c₀ hc₀).other nofun (List.getElem?_eq_some_iff.mp hc₀).1
  | serve j f =>
    simp only [World.step] at hs
    split at hs
    · cases hs
    · rename_i cj hj
      split at hs
      · cases hs
      · rename_i s rest ho
        obtain ⟨hf, rfl⟩ := of_guard hs
        rw [List.getElem?_modify] at hc
        obtain ⟨c₁, hc₁, rfl⟩ := Option.map_eq_some_iff.mp hc
        simp only [commit, List.getElem?_map, Option.map_eq_some_iff] at hc₁
        obtain ⟨c₀, hc₀, rfl⟩ := hc₁
        have hi := (List.getElem?_eq_some_iff.mp hc₀).1
        by_cases hij : j = i
        · subst hij
          rw [hj] at hc₀
          cases hc₀
          rw [if_pos rfl]
          exact (ih cj hj).serve hi ho hf
        · rw [if_neg hij]
          exact (ih c₀ hc₀).other (by simpa using hij) hi
  | move j a =>
    simp only [World.step] at hs
    split at hs
    · cases hs
    · rename_i cj hj
      obtain ⟨c', hm, rfl⟩ := Option.map_eq_some_iff.mp hs
      rw [List.getElem?_set] at hc
      split at hc
      · rename_i hij
        subst hij
        obtain ⟨-, rfl⟩ := of_guard hc
        rw [Client.cmd_move hm]
        exact (ih cj hj).move hm
      · exact ih c hc

/-- Every call of a reachable world, from its own place. -/
theorem run {ok : World → Label → Prop} {w : World} (hr : worldSystem.Reachable ok w) {i : Nat}
    {c : Client} (hc : w.clients[i]? = some c) : Run i c.op.act.cmd w.tree w.history c := by
  have h : w.Dated ∧ ∀ c, w.clients[i]? = some c → Run i c.op.act.cmd w.tree w.history c := by
    refine hr.induct (P := fun w => w.Dated ∧ ∀ c, w.clients[i]? = some c →
      Run i c.op.act.cmd w.tree w.history c) ?_ ?_
    · rintro w ⟨hc, hh⟩
      simp [Dated, hc, hh]
    · rintro w a w' ⟨hd, ih⟩ _ hs
      exact ⟨hd.step hs, fun c hc => run_step hs hd ih hc⟩
  exact h.2 c hc

/-- A call of a reachable world, by evaluation. -/
theorem exists_client {P : World → Client → Prop} (i : Nat) (as : List Label) {s : World}
    (hs : worldSystem.init s)
    (h : ∃ w ∈ worldSystem.run System.Any s as, ∃ c ∈ w.clients[i]?, P w c) :
    ∃ w c, worldSystem.Reachable System.Any w ∧ w.clients[i]? = some c ∧ P w c := by
  obtain ⟨w, hr, c, hc, hp⟩ := worldSystem.exists_reachable System.Any as hs h
  exact ⟨w, c, hr, hc, hp⟩

end World

end Cocaine.Unicorn
