import CocainePlugins.Framework.Transition
import CocainePlugins.Unicorn.Action

/-!
# One operation and its scope

What `safe`, the scopes and `run_command` add to a class: the callback is invoked
under the scope's mutex and only while the scope is not closed; an exception of a
handler closes the scope; an exception of `run` does so later, from the executor.
`lock_scope_t` also deletes the sequence node. What the environment decides of a
step is its `Luck`: whether a call throws, and for the clean-up of a lock whether
the delete and the last resort, the reconnect, do.

Replies come from ZooKeeper's thread and `close` from the user's, so a `close` may
come between two calls of one handler: after its first call the rest of a handler
waits in `running`.
-/

namespace Cocaine.Unicorn

open Framework

/-- Why a call of `connection_t` throws. The library refuses a request with a code
of its own, not with one about the nodes. -/
inductive Refusal where
  | connection | path | library
  | other (what : String)
deriving DecidableEq

def Refusal.error : Refusal → Error
  | .connection => ⟨.connectionLoss, "could not connect to zookeeper"⟩
  | .path => ⟨.invalidPath, "invalid path provided"⟩
  | .library => ⟨.backendInternalError, "can not perform operation"⟩
  | .other what => ⟨.uncaught, what⟩

/-- `connection_t::format_path`. -/
def formatPath (pre path : Str) : Except Refusal Str :=
  if path.head? = some '/' then .ok (pre ++ path) else .error .path

structure Luck where
  /-- The exception of the call. -/
  call : Option Refusal := none
  /-- `lock_scope_t::on_abort` cannot issue the delete. -/
  del : Bool := false
  /-- The `reconnect` after that throws. -/
  reconnect : Bool := false
deriving DecidableEq

/-- What the user's callback is invoked with. -/
inductive Outcome where
  | value (r : Response)
  | error (e : Error)
deriving DecidableEq

inductive Reconnect where
  /-- The delete of the node could not be issued. -/
  | refused (path : Str)
  /-- The reply to a delete had an error code. -/
  | failed
deriving DecidableEq

/-- What is recorded of a run, newest first. -/
inductive Obs where
  | sent (q : Query)
  | replied (q : Query) (r : Reply)
  | invoked (o : Outcome)
  | closed
  | reconnect (cause : Reconnect)
deriving DecidableEq

/-- A request on its way, with the number of its watcher. -/
structure Sent where
  query : Query
  watcher : Option Nat := none
deriving DecidableEq

structure Machine where
  act : Action
  /-- The scope's flag. -/
  closed : Bool := false
  /-- `lock_scope_t::parent`. -/
  attached : Bool := false
  /-- The requests that are not answered, oldest first. -/
  outbox : List Sent := []
  /-- The watchers of the operation in `connection_t::watchers`, with what they
  were registered for. -/
  watchers : List (Nat × Query) := []
  idCounter : Nat := 1
  /-- The rests of the handlers that are running. -/
  running : List (List Call) := []
  /-- The abort that `run_command` gave to the executor. -/
  deferred : Option Error := none
  log : List Obs := []
deriving DecidableEq

namespace Machine

variable (m : Machine)

@[simp] def note (o : Obs) : Machine := { m with log := o :: m.log }

@[simp] def send (q : Query) (watcher : Option Nat) : Machine :=
  { m with outbox := m.outbox ++ [⟨q, watcher⟩], log := .sent q :: m.log }

/-- `zoo_watched_command` registers the watcher before it makes the request. -/
@[simp] def watch (q : Query) : Machine :=
  { m with watchers := (m.idCounter, q) :: m.watchers, idCounter := m.idCounter + 1 }

/-- `safe::satisfy`. -/
def satisfy (r : Response) : Machine := if m.closed then m else m.note (.invoked (.value r))

/-- `on_abort` of the scope, and whether it threw. Only `lock_scope_t` has
something to do. -/
def onAbort (l : Luck) : Machine × Bool :=
  if m.attached = true ∧ m.act.created ≠ [] then
    if l.del then
      let m₁ := m.note (.reconnect (.refused m.act.created))
      if l.reconnect then (m₁, true) else ({ m₁ with attached := false }, false)
    else ({ m.send (.del m.act.created (-1)) none with attached := false }, false)
  else (m, false)

/-- `abort_with_current_exception`. An exception of `on_abort` leaves it. -/
def abort (e : Error) (l : Luck) : Machine :=
  let p := m.onAbort l
  if p.2 then p.1
  else if p.1.closed then p.1
  else { p.1.note (.invoked (.error e)) with closed := true }

/-- Every scope but the one of a lock has nothing to release. -/
theorem abort_of_detached {m : Machine} (h : m.attached = false) (e : Error) (l : Luck) :
    m.abort e l =
      if m.closed then m else { m.note (.invoked (.error e)) with closed := true } := by
  have ha : m.onAbort l = (m, false) := by simp [onAbort, h]
  simp only [abort, ha, Bool.false_eq_true, if_false]

/-- One call, and its exception. -/
def exec (c : Call) (l : Luck) : Machine × Option Error :=
  match c with
  | .satisfy r => (m.satisfy r, none)
  | .throw e => (m, some e)
  | .reconnect => (m.note (.reconnect .failed), l.call.map Refusal.error)
  | .request q watch =>
    let m₁ := if watch then m.watch q else m
    match l.call with
    | some e => (m₁, some e.error)
    | none => (m₁.send q (if watch then some m.idCounter else none), none)

/-- `action::operator()` with what the handler does. -/
def handle (calls : List Call) (l : Luck) : Machine :=
  match calls with
  | [] => m
  | c :: rest =>
    let p := m.exec c l
    match p.2 with
    | some e => p.1.abort e l
    | none => if rest = [] then p.1 else { p.1 with running := rest :: p.1.running }

def deliver (q : Query) (r : Reply) (l : Luck) : Machine :=
  let p := m.act.onReply m.closed r
  { m with act := p.1, log := .replied q r :: m.log }.handle p.2 l

/-- `watch_cb`: the watcher is taken out of the map and notified. -/
def notify (id : Nat) (w : WatchReply) (l : Luck) : Machine :=
  { m with watchers := m.watchers.filter (·.1 ≠ id) }.handle (m.act.onWatch m.closed w) l

def close (l : Luck) : Machine :=
  if m.closed then m.note .closed
  else
    let p := m.onAbort l
    if p.2 then p.1 else { p.1 with closed := true }.note .closed

/-- `run_command`. Only `lock_t::run` sets the scope's parent. -/
def start (cmd : Command) (l : Luck) : Machine :=
  let m : Machine := { act := .init cmd, attached := cmd.locks.isSome }
  match m.act.run with
  | [] => m
  | c :: _ =>
    let p := m.exec c l
    { p.1 with deferred := p.2 }

end Machine

/-! ## The rule for what a handler keeps -/

/-- An exception of a call that meets `ok`. -/
def Thrown (ok : Call → Prop) (e : Error) : Prop := ok (.throw e) ∨ ∃ r : Refusal, e = r.error

/-- What has to keep `P` for every handler whose calls meet `ok` to keep it. -/
structure Kept (ok : Call → Prop) (P : Machine → Prop) : Prop where
  watch {m : Machine} (q : Query) : P m → P (m.watch q)
  send {m : Machine} {q : Query} (w : Option Nat) : P m → ok (.request q w.isSome) → P (m.send q w)
  satisfy {m : Machine} {r : Response} : P m → m.closed = false → ok (.satisfy r) →
    P (m.note (.invoked (.value r)))
  fail {m : Machine} {e : Error} : P m → m.closed = false → Thrown ok e →
    P { m.note (.invoked (.error e)) with closed := true }
  reconnect {m : Machine} (c : Reconnect) : P m → P (m.note (.reconnect c))
  release {m : Machine} : P m → m.attached = true → m.act.created ≠ [] →
    P (m.send (.del m.act.created (-1)) none)
  detach {m : Machine} : P m → P { m with attached := false }
  wait {m : Machine} {rest : List Call} : P m → (∀ c ∈ rest, ok c) →
    P { m with running := rest :: m.running }

namespace Kept

variable {ok : Call → Prop} {P : Machine → Prop} {m : Machine}

theorem onAbort (k : Kept ok P) (h : P m) (l : Luck) : P (m.onAbort l).1 := by
  unfold Machine.onAbort
  split
  · rename_i ha
    split
    · dsimp only
      split
      · exact k.reconnect _ h
      · exact k.detach (k.reconnect _ h)
    · exact k.detach (k.release h ha.1 ha.2)
  · exact h

theorem abort (k : Kept ok P) (h : P m) {e : Error} (he : Thrown ok e) (l : Luck) :
    P (m.abort e l) := by
  have ha := k.onAbort h l
  unfold Machine.abort
  dsimp only
  split
  · exact ha
  · split
    · exact ha
    · rename_i hc
      exact k.fail ha (by simpa using hc) he

theorem exec (k : Kept ok P) (h : P m) {c : Call} (hc : ok c) (l : Luck) : P (m.exec c l).1 := by
  cases c with
  | satisfy r =>
    simp only [Machine.exec, Machine.satisfy]
    split
    · exact h
    · rename_i hcl
      exact k.satisfy h (by simpa using hcl) hc
  | throw e => exact h
  | reconnect => exact k.reconnect _ h
  | request q watch =>
    have hw : P (if watch then m.watch q else m) := by
      split
      · exact k.watch q h
      · exact h
    simp only [Machine.exec]
    split
    · exact hw
    · refine k.send _ hw ?_
      cases watch <;> exact hc

/-- The exception of a call is its own, or of the connection. -/
theorem thrown {c : Call} (hc : ok c) {l : Luck} {e : Error} (h : (m.exec c l).2 = some e) :
    Thrown ok e := by
  cases c with
  | satisfy r => cases h
  | throw e' =>
    cases h
    exact .inl hc
  | reconnect =>
    obtain ⟨r, -, rfl⟩ := Option.map_eq_some_iff.mp h
    exact .inr ⟨r, rfl⟩
  | request q watch =>
    simp only [Machine.exec] at h
    split at h
    · cases h
      exact .inr ⟨_, rfl⟩
    · cases h

theorem handle (k : Kept ok P) (h : P m) {calls : List Call} (hc : ∀ c ∈ calls, ok c) (l : Luck) :
    P (m.handle calls l) := by
  unfold Machine.handle
  split
  · exact h
  · rename_i c rest
    rw [List.forall_mem_cons] at hc
    have he := k.exec h hc.1 l
    dsimp only
    split
    · rename_i e hthrow
      exact k.abort he (thrown hc.1 hthrow) l
    · split
      · exact he
      · exact k.wait he hc.2

/-- No handler's calls change the members of the class. -/
theorem act (a : Action) : Kept (fun _ => True) (fun m => m.act = a) where
  watch _ := id
  send _ h _ := h
  satisfy h _ _ := h
  fail h _ _ := h
  reconnect _ := id
  release h _ _ := h
  detach := id
  wait h _ := h

end Kept

namespace Machine

variable {m : Machine}

theorem act_handle (calls : List Call) (l : Luck) : (m.handle calls l).act = m.act :=
  (Kept.act m.act).handle rfl (fun _ _ => trivial) l

theorem act_abort (e : Error) (l : Luck) : (m.abort e l).act = m.act :=
  (Kept.act m.act).abort rfl (.inl trivial) l

theorem act_close (l : Luck) : (m.close l).act = m.act := by
  have h := (Kept.act m.act).onAbort rfl l
  unfold close
  split
  · rfl
  · dsimp only
    split
    · exact h
    · exact h

theorem act_start (cmd : Command) (l : Luck) : (start cmd l).act = .init cmd := by
  unfold start
  dsimp only
  split
  · rfl
  · exact (Kept.act (.init cmd)).exec rfl trivial l

end Machine

/-! ## The operation among arbitrary replies -/

/-- The reply is one to the request; a created node has a path. -/
def Query.answers : Query → Reply → Bool
  | .put _ _ _, .put _ _ | .get _, .get _ _ _ | .del _ _, .del _ | .exists' _, .exists' _ _
  | .childs _, .childs _ _ _ => true
  | .create _ _ _ _, .create rc path => rc != .ok || path != []
  | _, _ => false

inductive Label where
  /-- The `k`-th of the outstanding requests is answered. -/
  | reply (k : Nat) (r : Reply) (l : Luck)
  | event (id : Nat) (w : WatchReply) (l : Luck)
  /-- The `k`-th of the running handlers goes on. -/
  | resume (k : Nat) (l : Luck)
  /-- The executor runs the deferred abort. -/
  | abort (l : Luck)
  | close (l : Luck)
deriving DecidableEq

namespace Machine

def step (m : Machine) : Label → Option Machine
  | .reply k r l =>
    match m.outbox[k]? with
    | some s =>
      if s.query.answers r then
        some ({ m with outbox := m.outbox.eraseIdx k }.deliver s.query r l)
      else none
    | none => none
  | .event id w l =>
    if m.watchers.any (·.1 == id) then some (m.notify id w l) else none
  | .resume k l =>
    match m.running[k]? with
    | some calls => some ({ m with running := m.running.eraseIdx k }.handle calls l)
    | none => none
  | .abort l =>
    match m.deferred with
    | some e => some ({ m with deferred := none }.abort e l)
    | none => none
  | .close l => some (m.close l)

inductive Stepped (m : Machine) : Label → Machine → Prop where
  | reply {k : Nat} {s : Sent} {r : Reply} {l : Luck} (hk : m.outbox[k]? = some s)
    (ha : s.query.answers r = true) :
    Stepped m (.reply k r l) ({ m with outbox := m.outbox.eraseIdx k }.deliver s.query r l)
  | event {id : Nat} {w : WatchReply} {l : Luck} (hw : m.watchers.any (·.1 == id) = true) :
    Stepped m (.event id w l) (m.notify id w l)
  | resume {k : Nat} {calls : List Call} {l : Luck} (hk : m.running[k]? = some calls) :
    Stepped m (.resume k l) ({ m with running := m.running.eraseIdx k }.handle calls l)
  | abort {e : Error} {l : Luck} (he : m.deferred = some e) :
    Stepped m (.abort l) ({ m with deferred := none }.abort e l)
  | close {l : Luck} : Stepped m (.close l) (m.close l)

theorem stepped {m m' : Machine} {a : Label} (h : m.step a = some m') : Stepped m a m' := by
  cases a with
  | reply k r l =>
    simp only [step] at h
    split at h
    · rename_i s hk
      obtain ⟨ha, rfl⟩ := of_guard h
      exact .reply hk ha
    · cases h
  | event id w l =>
    obtain ⟨hw, rfl⟩ := of_guard h
    exact .event hw
  | resume k l =>
    simp only [step] at h
    split at h
    · rename_i hk
      cases h
      exact .resume hk
    · cases h
  | abort l =>
    simp only [step] at h
    split at h
    · rename_i he
      cases h
      exact .abort he
    · cases h
  | close l =>
    cases h
    exact .close

end Machine

/-- An operation, from the return of `run_command` on. -/
def operationSystem (cmd : Command) : System Machine Label where
  init m := ∃ l, m = .start cmd l
  step := Machine.step

end Cocaine.Unicorn
