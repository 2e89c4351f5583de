import Mathlib.Logic.Function.Basic
import CocainePlugins.Framework.Text
import CocainePlugins.Framework.Timer
import CocainePlugins.Framework.Transition
import CocainePlugins.Node.Error

/-!
# The external isolation

`external_t` passes spool and spawn requests to an isolation daemon over one session. A request
becomes a load, which is sent when the session is there and the context is prepared, and waits
in a queue otherwise. `connect` gives the session up for a new one; after a failure it does
nothing for a while, which doubles with each failure up to a bound. A load can be cancelled, by
its handle or with it.

The loop of the isolation runs its handlers one at a time; the cancellations and the replies of
the daemon come in between.
-/

namespace Cocaine.Isolate

open Framework Node

/-! ## Loads -/

/-- A `std::system_error`, which always has a code. -/
structure SystemError where
  code : ErrorCode
  failed : code.failed = true
  what : Str := []
  /-- `error::to_string` of it. -/
  text : Str := []

inductive Kind where
  | spool | spawn
deriving DecidableEq, Repr

/-- A call of a `spool_handle_base_t` or a `spawn_handle_base_t`. -/
inductive Call where
  | onReady
  | onData (data : Str)
  | onAbort (ec : ErrorCode) (reason : Str)
  | onTerminate (ec : ErrorCode) (reason : Str)
deriving DecidableEq, Repr

/-- What has led to a call: a reply, or a failure to connect or to send. -/
inductive Origin where
  | reply | failure
deriving DecidableEq, Repr

inductive Reply where
  | value
  | chunk (data : Str)
  | choke
  | error (ec : ErrorCode) (reason : Str)
deriving DecidableEq, Repr

/-- A `spool_load_t` or a `spawn_load_t` with the dispatch of its stream. -/
structure Load where
  kind : Kind
  cancelled : Bool := false
  stream : Bool := false
  /-- `spawn_dispatch_t::ready`. -/
  ready : Bool := false
  /-- The daemon has the request, and has sent its last reply. -/
  sent : Bool := false
  answered : Bool := false
  /-- The calls of the handle, newest first. -/
  calls : List (Origin × Call) := []
deriving DecidableEq, Repr

namespace Load

variable (load : Load)

def failure (kind : Kind) (ec : ErrorCode) (reason : Str) : Call :=
  match kind with
  | .spool => .onAbort ec reason
  | .spawn => .onTerminate ec reason

def fail (ec : ErrorCode) (reason : Str) : Load :=
  { load with calls := (.failure, failure load.kind ec reason) :: load.calls }

/-- What `apply` says of what was thrown. -/
def reason (kind : Kind) (e : SystemError) : Str :=
  match kind with
  | .spool => e.text
  | .spawn => e.what

/-- `cancel`; `throws` is what the send of the cancellation throws. -/
def cancel (throws : Option SystemError) : Load :=
  if load.cancelled then load
  else
    let load := { load with cancelled := true }
    match load.stream, throws with
    | true, some e => load.fail e.code e.text
    | _, _ => load

def call (c : Call) : Load := { load with calls := (.reply, c) :: load.calls }

/-- The handlers of `spool_dispatch_t` and `spawn_dispatch_t`. -/
def receive : Reply → Option Load
  | .value =>
    match load.kind with
    | .spool => some { load.call .onReady with answered := true }
    | .spawn => none
  | .chunk data =>
    match load.kind with
    | .spool => none
    | .spawn =>
      if data.isEmpty && !load.ready then some { load.call .onReady with ready := true }
      else some (load.call (.onData data))
  | .choke =>
    match load.kind with
    | .spool => none
    | .spawn => some { load.call (.onTerminate .success []) with answered := true }
  | .error ec reason => some { load.call (failure load.kind ec reason) with answered := true }

end Load

/-! ## The connection -/

/-- `min_seal_time` and `max_seal_time`. -/
def minSealTime : Nat := 1000

def maxSealTime : Nat := 1000000

/-- How `apply` sends a request. -/
inductive Sending where
  | sent
  /-- The stream cannot be made, or the request cannot be sent on it. -/
  | forkThrows (e : SystemError)
  | sendThrows (e : SystemError)

/-- `external_t::inner_t`, its loads, and the clock in milliseconds. -/
structure Inner where
  now : Nat
  prepared : Bool := false
  connecting : Bool := false
  connectTimer : Timer := {}
  session : Bool := false
  lastFailed : Nat := 0
  sealTime : Nat := minSealTime
  loads : Nat → Load := fun _ => { kind := .spool }
  /-- The loads so far, and those whose handler the loop has yet to run. -/
  made : Nat := 0
  posted : List Nat := []
  spoolQueue : List Nat := []
  spawnQueue : List Nat := []
  /-- A null pointer has been followed. -/
  crashed : Bool := false

namespace Inner

variable (s : Inner)

def modify (k : Nat) (f : Load → Load) : Inner :=
  { s with loads := Function.update s.loads k (f (s.loads k)) }

def connect : Inner :=
  if s.connecting then s
  else if s.now < s.lastFailed + s.sealTime then s
  else { s with connecting := true, session := false, connectTimer := s.connectTimer.start }

def apply (k : Nat) (sending : Sending) : Inner :=
  if (s.loads k).cancelled then s
  else if !s.session then { s with crashed := true }
  else
    match sending with
    | .sent => s.modify k fun load => { load with stream := true, sent := true }
    | .forkThrows e => (s.modify k fun load => load.fail e.code (Load.reason load.kind e)).connect
    | .sendThrows e =>
      (s.modify k fun load =>
        { load with stream := true }.fail e.code (Load.reason load.kind e)).connect

/-- The loads of a queue, one after the other. -/
def applyAll (sending : Nat → Sending) : List Nat → Inner → Inner
  | [], s => s
  | k :: ks, s => if s.crashed then s else applyAll sending ks (s.apply k (sending k))

def clearSpool : Inner := { s with spoolQueue := [] }

def clearSpawn : Inner := { s with spawnQueue := [] }

/-- The loop over the spool queue with the `clear` after it, and that over the spawn queue. -/
def applySpool (sending : Nat → Sending) : Inner := (s.applyAll sending s.spoolQueue).clearSpool

def applySpawn (sending : Nat → Sending) : Inner := (s.applyAll sending s.spawnQueue).clearSpawn

def onReady (sending : Nat → Sending) : Inner :=
  let s := { s with sealTime := minSealTime }
  if !s.prepared || !s.session then s else (s.applySpool sending).applySpawn sending

def failAll (ec : ErrorCode) : List Nat → Inner → Inner
  | [], s => s
  | k :: ks, s => failAll ec ks (s.modify k fun load =>
    load.fail ec "could not connect to external dispatch".toList)

def failSpool (ec : ErrorCode) : Inner := (s.failAll ec s.spoolQueue).clearSpool

def failSpawn (ec : ErrorCode) : Inner := (s.failAll ec s.spawnQueue).clearSpawn

def onFail (ec : ErrorCode) : Inner :=
  let s := { s with lastFailed := s.now, sealTime := min (s.sealTime * 2) maxSealTime }
  (s.failSpool ec).failSpawn ec

/-- The handler of `async_connect`. -/
def onConnect (ec : ErrorCode) (sending : Nat → Sending) : Inner :=
  let cancelled := s.connectTimer.pending
  let s := { s with connecting := false, connectTimer := s.connectTimer.cancel }
  if cancelled ≠ 0 ∧ ec.failed = false then { s with session := true }.onReady sending
  else s.onFail ec

/-- The handler of the timer, which cancels the socket. There is one while it is connecting. -/
def onTimeout : Inner :=
  let s := { s with connectTimer := s.connectTimer.complete }
  if s.connecting then s else { s with crashed := true }

/-- `spool` and `spawn`, up to the handler that they post. -/
def request (kind : Kind) : Inner :=
  { s with
    loads := Function.update s.loads s.made { kind }
    made := s.made + 1
    posted := s.posted ++ [s.made] }

def enqueue (k : Nat) : Inner :=
  match (s.loads k).kind with
  | .spool => { s with spoolQueue := s.spoolQueue ++ [k] }
  | .spawn => { s with spawnQueue := s.spawnQueue ++ [k] }

/-- The handler that a request posts. -/
def process (k : Nat) (sending : Sending) : Inner :=
  let s := { s with posted := s.posted.erase k }
  if s.session && s.prepared then s.apply k sending
  else
    let s := s.enqueue k
    if s.prepared then s.connect else s

/-- The handler that `metrics` posts, but for the calls of its handle. -/
def metrics : Sending → Inner
  | .sent => if !(s.session && s.prepared) && s.prepared then s.connect else s
  | .forkThrows _ | .sendThrows _ => if s.prepared then s.connect else s

inductive Label where
  /-- The signal `context::prepared`. -/
  | prepare (sending : Nat → Sending)
  | request (kind : Kind)
  | process (k : Nat) (sending : Sending)
  | metrics (sending : Sending)
  /-- The time of the connection is over, and the handler runs. -/
  | expire
  | timeout
  | connected (ec : ErrorCode) (sending : Nat → Sending)
  | cancel (k : Nat) (throws : Option SystemError)
  | receive (k : Nat) (reply : Reply)
  | tick (ms : Nat)

def step : Label → Option Inner
  | .prepare sending => some ({ s with prepared := true }.onReady sending)
  | .request kind => some (s.request kind)
  | .process k sending => if k ∈ s.posted then some (s.process k sending) else none
  | .metrics sending => some (s.metrics sending)
  | .expire =>
    if s.connectTimer.armed then some { s with connectTimer := s.connectTimer.expire } else none
  | .timeout => if 0 < s.connectTimer.fired then some s.onTimeout else none
  | .connected ec sending => if s.connecting then some (s.onConnect ec sending) else none
  | .cancel k throws =>
    if k < s.made then some (s.modify k fun load => load.cancel throws) else none
  | .receive k reply =>
    if (s.loads k).sent && !(s.loads k).answered then
      ((s.loads k).receive reply).map fun load => s.modify k fun _ => load
    else none
  | .tick ms => some { s with now := s.now + ms }

end Inner

/-- The isolation from its constructor on, which connects. The clock's epoch is long over. -/
def externalSystem : System Inner Inner.Label where
  init s := ∃ now, minSealTime ≤ now ∧ s = Inner.connect { now }
  step s a := if s.crashed then none else s.step a

namespace Inner

variable {s t u : Inner}

/-! ## What the operations do -/

inductive Stepped (s : Inner) : Label → Inner → Prop where
  | prepare {sending : Nat → Sending} :
      Stepped s (.prepare sending) (onReady { s with prepared := true } sending)
  | request {kind : Kind} : Stepped s (.request kind) (s.request kind)
  | process {k : Nat} {sending : Sending} (posted : k ∈ s.posted) :
      Stepped s (.process k sending) (s.process k sending)
  | metrics {sending : Sending} : Stepped s (.metrics sending) (s.metrics sending)
  | expire (armed : s.connectTimer.armed = true) :
      Stepped s .expire { s with connectTimer := s.connectTimer.expire }
  | timeout (fired : 0 < s.connectTimer.fired) : Stepped s .timeout s.onTimeout
  | connected {ec : ErrorCode} {sending : Nat → Sending} (connecting : s.connecting = true) :
      Stepped s (.connected ec sending) (s.onConnect ec sending)
  | cancel {k : Nat} {throws : Option SystemError} (made : k < s.made) :
      Stepped s (.cancel k throws) (s.modify k fun load => load.cancel throws)
  | receive {k : Nat} {reply : Reply} {load : Load} (sent : (s.loads k).sent = true)
      (unanswered : (s.loads k).answered = false) (received : (s.loads k).receive reply = some load) :
      Stepped s (.receive k reply) (s.modify k fun _ => load)
  | tick {ms : Nat} : Stepped s (.tick ms) { s with now := s.now + ms }

theorem stepped {a : Label} (h : externalSystem.step s a = some t) :
    s.crashed = false ∧ Stepped s a t := by
  simp only [externalSystem] at h
  split at h
  · cases h
  · rename_i hc
    refine ⟨by simpa using hc, ?_⟩
    cases a with
    | prepare sending => cases h; exact .prepare
    | request kind => cases h; exact .request
    | process k sending =>
      obtain ⟨hk, rfl⟩ := of_guard h
      exact .process hk
    | metrics sending => cases h; exact .metrics
    | expire =>
      obtain ⟨ha, rfl⟩ := of_guard h
      exact .expire ha
    | timeout =>
      obtain ⟨hf, rfl⟩ := of_guard h
      exact .timeout hf
    | connected ec sending =>
      obtain ⟨hconn, rfl⟩ := of_guard h
      exact .connected hconn
    | cancel k throws =>
      obtain ⟨hk, rfl⟩ := of_guard h
      exact .cancel hk
    | receive k reply =>
      simp only [step, Option.ite_none_right_eq_some, Option.map_eq_some_iff, Bool.and_eq_true,
        Bool.not_eq_true'] at h
      obtain ⟨⟨hsent, hopen⟩, load, hload, rfl⟩ := h
      exact .receive hsent hopen hload
    | tick ms => cases h; exact .tick

@[simp] theorem loads_modify_self (k : Nat) (f : Load → Load) :
    (s.modify k f).loads k = f (s.loads k) :=
  Function.update_self k _ s.loads

theorem loads_modify_ne {j k : Nat} (h : j ≠ k) (f : Load → Load) :
    (s.modify k f).loads j = s.loads j :=
  Function.update_of_ne h _ s.loads

/-- What `apply` does. -/
inductive Applied (s : Inner) (k : Nat) : Inner → Prop where
  | cancelled (cancelled : (s.loads k).cancelled = true) : Applied s k s
  | crashed : Applied s k { s with crashed := true }
  | sent : Applied s k (s.modify k fun load => { load with stream := true, sent := true })
  | threw (e : SystemError) (stream : Load → Bool) :
      Applied s k (s.modify k fun load =>
        { load with stream := stream load }.fail e.code (Load.reason load.kind e)).connect

theorem applied (k : Nat) (sending : Sending) : Applied s k (s.apply k sending) := by
  simp only [apply]
  split
  · rename_i hc
    exact .cancelled hc
  · split
    · exact .crashed
    · cases sending with
      | sent => exact .sent
      | forkThrows e => exact .threw e Load.stream
      | sendThrows e => exact .threw e fun _ => true

@[simp] theorem loads_connect : s.connect.loads = s.loads := by
  simp only [connect]
  split
  · rfl
  · split <;> rfl

/-- The requests that wait are left alone, and no connection is given up. -/
structure Keeps (s t : Inner) : Prop where
  prepared : t.prepared = s.prepared
  connecting : s.connecting = true → t.connecting = true
  made : t.made = s.made
  posted : t.posted = s.posted
  spoolQueue : t.spoolQueue = s.spoolQueue
  spawnQueue : t.spawnQueue = s.spawnQueue

namespace Keeps

theorem refl : Keeps s s := ⟨rfl, id, rfl, rfl, rfl, rfl⟩

theorem trans (h₁ : Keeps s t) (h₂ : Keeps t u) : Keeps s u :=
  ⟨h₂.prepared.trans h₁.prepared, fun h => h₂.connecting (h₁.connecting h), h₂.made.trans h₁.made,
    h₂.posted.trans h₁.posted, h₂.spoolQueue.trans h₁.spoolQueue, h₂.spawnQueue.trans h₁.spawnQueue⟩

theorem modify (k : Nat) (f : Load → Load) : Keeps s (s.modify k f) :=
  ⟨rfl, id, rfl, rfl, rfl, rfl⟩

theorem connect : Keeps s s.connect := by
  simp only [Inner.connect]
  split
  · exact .refl
  · split
    · exact .refl
    · exact ⟨rfl, fun _ => rfl, rfl, rfl, rfl, rfl⟩

theorem of_applied {k : Nat} (h : Applied s k t) : Keeps s t := by
  cases h with
  | cancelled _ => exact .refl
  | crashed => exact ⟨rfl, id, rfl, rfl, rfl, rfl⟩
  | sent => exact .modify k _
  | threw e stream => exact (Keeps.modify k _).trans .connect

theorem applyAll (sending : Nat → Sending) (ks : List Nat) : Keeps s (s.applyAll sending ks) := by
  induction ks generalizing s with
  | nil => exact .refl
  | cons k ks ih =>
    simp only [Inner.applyAll]
    split
    · exact .refl
    · exact (of_applied (applied k (sending k))).trans ih

theorem failAll (ec : ErrorCode) (ks : List Nat) : Keeps s (s.failAll ec ks) := by
  induction ks generalizing s with
  | nil => exact .refl
  | cons k ks ih => exact (Keeps.modify k _).trans ih

theorem metrics (sending : Sending) : Keeps s (s.metrics sending) := by
  cases sending with
  | sent | forkThrows e | sendThrows e =>
    simp only [Inner.metrics]
    split
    · exact .connect
    · exact .refl

end Keeps

/-- What `on_ready` does: it works off the queues, unless something is missing. -/
inductive Readied (s : Inner) (sending : Nat → Sending) : Inner → Prop where
  | missing (missing : ¬(s.prepared = true ∧ s.session = true)) :
      Readied s sending { s with sealTime := minSealTime }
  | ready (prepared : s.prepared = true) (session : s.session = true) :
      Readied s sending
        ((applySpool { s with sealTime := minSealTime } sending).applySpawn sending)

theorem readied (sending : Nat → Sending) : Readied s sending (s.onReady sending) := by
  simp only [onReady]
  split
  · rename_i h
    refine .missing ?_
    rintro ⟨hp, hs⟩
    simp [hp, hs] at h
  · rename_i h
    simp only [Bool.or_eq_true, Bool.not_eq_true', not_or, Bool.not_eq_false] at h
    exact .ready h.1 h.2

end Inner

end Cocaine.Isolate
