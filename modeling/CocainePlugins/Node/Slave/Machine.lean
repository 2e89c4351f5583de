import CocainePlugins.Node.Slave.State

/-!
# The handlers of a slave

The methods of `machine_t`, of the state classes, of `control_t`,
`spawn_handle_t` and `channel_t`, as functions of the machine. What the
environment decides is an argument: `throws` says that an operation which may
throw does, `lost` that the terminate message cannot be sent to the worker.
-/

namespace Cocaine.Node.Slave

open Framework

namespace Machine

variable (m : Machine)

@[simp] def modify (r : Nat) (f : StateObj → StateObj) : Machine :=
  { m with objs := Function.update m.objs r (f (m.objs r)) }

@[simp] def setRes (r : Nat) (res : Resources) : Machine :=
  m.modify r fun o => { o with res := res }

@[simp] def setTimer (r : Nat) (t : Timer) : Machine :=
  m.modify r fun o => { o with timer := t }

/-- A new state object, under the number `m.fresh`. -/
@[simp] def alloc (o : StateObj) : Machine :=
  { m with objs := Function.update m.objs m.fresh o, fresh := m.fresh + 1 }

@[simp] def migrate (r : Nat) : Machine := { m with state := r }

@[simp] def post (t : Task) : Machine := { m with posted := t :: m.posted }

/-- Removes a posted handler that is about to run. -/
@[simp] def take (t : Task) : Machine := { m with posted := m.posted.erase t }

@[simp] def note (o : Obs) : Machine := { m with log := o :: m.log }

@[simp] def setChan (c : Nat) (f : Chan → Chan) : Machine :=
  { m with chans := Function.update m.chans c (f (m.chans c)) }

@[simp] def setControl (c : Nat) (f : Control → Control) : Machine :=
  { m with controls := Function.update m.controls c (f (m.controls c)) }

/-- `state_t::cancel`: the classes with a timer cancel it; the timer of the
others is idle. -/
@[simp] def cancel (r : Nat) : Machine := m.setTimer r (m.objs r).timer.cancel

/-- The part of `shutdown` that empties the timers and channels maps; destroying
a timer cancels it. -/
@[simp] def dropChannels : Machine :=
  { m with
    chans := fun c => { m.chans c with timer := (m.chans c).timer.cancel }
    posted := m.channels.map .closeBoth ++ m.posted
    channels := [] }

/-- The code `shutdown` ends with: no reason for termination in the
terminating state is considered an error. -/
def shutdownCode (ec : ErrorCode) : ErrorCode :=
  if m.cur.kind = .terminate then .success else ec

/-- The part of `shutdown` that sets the flag and replaces the current state. -/
def enterInactive (code : ErrorCode) : Machine :=
  (({ m with shutdowned := true }.cancel m.state).alloc { kind := .inactive code }).migrate m.fresh

def shutdown (ec : ErrorCode) : Machine :=
  if m.shutdowned then m else
    let code := m.shutdownCode ec
    let m₁ := (m.enterInactive code).dropChannels
    if m.closed then m₁ else m₁.post (.cleanup code)

/-- `control_t::terminate` through a possibly null pointer. -/
def controlTerminate (control : Option Nat) (ec : ErrorCode) (lost : Bool) : Machine :=
  match control with
  | none => { m with crashed := true }
  | some _ =>
    let m₁ := m.note (.controlTerminate ec)
    if lost then m₁.shutdown SlaveErrors.conrolIpcError.code else m₁

/-- `terminate_t::start`. -/
def terminateStart (t : Nat) (ec : ErrorCode) (lost : Bool) : Machine :=
  (m.setTimer t (m.objs t).timer.start).controlTerminate (m.objs t).res.control ec lost

/-- Moves the resources of the state object `r` to a new one of class `k` and
migrates to it. -/
def handOver (r : Nat) (k : Kind) : Machine :=
  let res := (m.objs r).res
  let m₁ := (m.setRes r {}).alloc { kind := k, res := res }
  ((m₁.note (.built k res)).note (.handed r)).migrate m.fresh

/-- `active_t::terminate`, and the end of `seal_t::terminate`, of the state
object `r`. -/
def activeTerminate (r : Nat) (ec : ErrorCode) (lost : Bool) : Machine :=
  (m.handOver r .terminate).terminateStart m.fresh ec lost

def sealTerminate (r : Nat) (ec : ErrorCode) (lost : Bool) : Machine :=
  (m.cancel r).activeTerminate r ec lost

/-- `state_t::terminate` of the state object `r`. -/
def stateTerminate (r : Nat) (ec : ErrorCode) (lost : Bool) : Machine :=
  match (m.objs r).kind with
  | .preparation => m.shutdown ec
  | .spawn | .handshaking | .terminate => (m.cancel r).shutdown ec
  | .active => m.activeTerminate r ec lost
  | .seal => m.sealTerminate r ec lost
  | .inactive _ => m

/-- `machine_t::terminate`. -/
def terminate (ec : ErrorCode) (lost : Bool) : Machine :=
  let m₁ := m.note (.terminate ec)
  if m.closed then m₁.note .terminated else
    ({ m₁ with closed := true }.stateTerminate m.state ec lost).note .terminated

/-- `seal_t::start`. -/
def sealStart (s : Nat) (lost : Bool) : Machine :=
  if m.channels = [] then m.sealTerminate s SlaveErrors.slaveIsSealing.code lost
  else m.setTimer s (m.objs s).timer.start

/-- `active_t::seal`. -/
def activeSeal (r : Nat) (lost : Bool) : Machine := (m.handOver r .seal).sealStart m.fresh lost

/-- `machine_t::seal`; every other state throws `invalid_state`. -/
def machineSeal (lost : Bool) : Machine :=
  if m.cur.kind = .active then m.activeSeal m.state lost else m

/-! ## From the token to the active state -/

/-- How `spawn_t::spawn` goes. -/
inductive SpawnOutcome where
  | locatorNotFound | emptyLocatorEndpoints
  /-- No isolate of that type, before the timer starts. -/
  | isolateThrows (ec : ErrorCode)
  | spawnThrows (ec : ErrorCode)
  | spawned
deriving DecidableEq, Repr

def spawn (r : Nat) : SpawnOutcome → Machine
  | .locatorNotFound => m.shutdown SlaveErrors.locatorNotFound.code
  | .emptyLocatorEndpoints => m.shutdown SlaveErrors.emptyLocatorEndpoints.code
  | .isolateThrows ec => m.post (.shutdown ec)
  | .spawnThrows ec => (m.setTimer r (m.objs r).timer.start).post (.shutdown ec)
  | .spawned =>
    { m.modify r fun o => { o with
        timer := o.timer.start, awaited := true, res := { o.res with handle := some m.handles } } with
      handles := m.handles + 1 }

/-- `preparation_t::on_refresh`. -/
def onRefresh (ec : ErrorCode) (out : SpawnOutcome) : Machine :=
  if ec.failed then m.shutdown ec
  else ((m.alloc { kind := .spawn }).migrate m.fresh).spawn m.fresh out

/-- `handshaking_t::activate` with a control channel, and whether it threw:
the constructor of `active_t` starts the heartbeat timer. -/
def handshakingActivate (h : Nat) (session control : Option Nat) (throws : Bool) : Machine × Bool :=
  let res : Resources := { handle := (m.objs h).res.handle, control := control, session := session }
  let m₁ := (m.setRes h {}).note (.built .active res)
  match control with
  | none => ({ m₁ with crashed := true }, false)
  | some c =>
    if throws then (m₁, true)
    else (((m₁.alloc { kind := .active, res := res }).migrate m.fresh).setControl c
      fun k => { k with timer := k.timer.start }, false)

/-- The control channel and the session of a handshake. -/
@[simp] def newLink : Machine :=
  { m with controls := Function.update m.controls m.links {}, links := m.links + 1 }

/-- `handshaking_t::activate` with a stream, and whether it returned a control
channel. -/
def handshakingHandshake (h : Nat) (throws : Bool) : Machine × Bool :=
  if (m.objs h).timer.pending = 0 then (m.cancel h, false)
  else
    let p := ((m.cancel h).newLink).handshakingActivate h (some m.links) (some m.links) throws
    if p.2 then (p.1.shutdown SlaveErrors.unknownActivateError.code, false) else (p.1, true)

/-- `machine_t::activate`, and whether it returned a control channel. The states
other than `spawn_t` and `handshaking_t` throw, which the engine catches. -/
def activate (throws : Bool) : Machine × Bool :=
  match m.cur.kind with
  | .spawn =>
    match m.cur.handshaking with
    | some h => m.handshakingHandshake h throws
    | none =>
      (m.newLink.setRes m.state { m.cur.res with control := some m.links, session := some m.links },
        true)
  | .handshaking => m.handshakingHandshake m.state throws
  | _ => (m, false)

/-- The `handshaking_t` that `spawn_t::on_spawn` makes takes the isolate's handle
and becomes current. -/
def enterHandshaking (r : Nat) : Machine :=
  ((m.modify r fun o => { o with
    res := { o.res with handle := none }, handshaking := some m.fresh }).alloc
      { kind := .handshaking, res := { handle := (m.objs r).res.handle } }).migrate m.fresh

/-- The part of `spawn_t::on_spawn` after the spawn timer was cancelled. -/
def onSpawned (r : Nat) (throws : Bool) : Machine :=
  let m₁ := m.enterHandshaking r
  match (m.objs r).res.control with
  | some c =>
    let p := (m₁.setRes r {}).handshakingActivate m.fresh (m.objs r).res.session (some c) throws
    if p.2 then p.1.post (.shutdown SlaveErrors.unknownActivateError.code) else p.1
  | none =>
    if throws then m₁.post (.shutdown SlaveErrors.unknownActivateError.code)
    else m₁.setTimer m.fresh (m₁.objs m.fresh).timer.start

def onSpawn (r : Nat) (throws : Bool) : Machine :=
  if (m.objs r).timer.pending = 0 then m.cancel r else (m.cancel r).onSpawned r throws

/-- `spawn_handle_t::on_ready`. -/
def onReady (r : Nat) (throws : Bool) : Machine :=
  (m.onSpawn r throws).modify r fun o => { o with awaited := false }

/-- `spawn_handle_t::on_terminate`. -/
def onTerminate (r : Nat) (ec : ErrorCode) : Machine :=
  (m.modify r fun o => { o with awaited := false }).shutdown ec

/-- `on_timeout` of the state object `r` with a success code. -/
def onTimeout (r : Nat) (lost : Bool) : Machine :=
  match (m.objs r).kind with
  | .spawn => m.shutdown SlaveErrors.spawnTimeout.code
  | .handshaking => m.shutdown SlaveErrors.activateTimeout.code
  | .seal => m.sealTerminate r SlaveErrors.sealTimeout.code lost
  | .terminate => m.shutdown SlaveErrors.teminateTimeout.code
  | _ => m

/-! ## The control channel -/

/-- `control_t::cancel`. -/
def controlCancel (c : Nat) : Machine :=
  m.setControl c fun k => { closed := true, timer := k.timer.cancel }

/-- `control_t::discard`. -/
def controlDiscard (c : Nat) (ec : ErrorCode) : Machine :=
  if ec.failed && !(m.controls c).closed then m.shutdown SlaveErrors.conrolIpcError.code else m

/-- `control_t::on_heartbeat`. -/
def onHeartbeat (c : Nat) : Machine :=
  if (m.controls c).closed then m
  else m.setControl c fun k => { k with timer := k.timer.start }

/-- The destructor of the state object `r`. Detaching the session discards the
dispatches forked on it, which are steps of their own. -/
def destroy (r : Nat) : Machine :=
  let m₁ := m.modify r fun o => { o with res := {}, dead := true }
  match (m.objs r).kind, (m.objs r).res.control with
  | .spawn, some c | .active, some c | .terminate, some c => m₁.controlCancel c
  | .terminate, none => { m₁ with crashed := true }
  | _, _ => m₁

/-! ## Channels -/

/-- The part of `revoke` that erases the channel and its timer. -/
@[simp] def dropChannel (c : Nat) : Machine :=
  { m with channels := m.channels.erase c }.setChan c fun k => { k with timer := k.timer.cancel }

/-- `machine_t::revoke`, with the handler of the engine. -/
def revoke (c : Nat) (lost : Bool) : Machine :=
  let m₁ := m.dropChannel c
  let m₂ := if m.cur.kind = .seal ∧ m₁.channels = [] then
      m₁.stateTerminate m.state SlaveErrors.slaveIsSealing.code lost else m₁
  m₂.post .rebalanceEvents

/-- `channel_t::maybe_notify`. -/
def maybeNotify (c : Nat) (lost : Bool) : Machine :=
  let k := m.chans c
  if !k.tx && !k.rx && k.watched then m.revoke c lost else m

def closeSend (c : Nat) (lost : Bool) : Machine :=
  (m.setChan c fun k => { k with tx := false }).maybeNotify c lost

def closeRecv (c : Nat) (lost : Bool) : Machine :=
  (m.setChan c fun k => { k with rx := false }).maybeNotify c lost

def closeBoth (c : Nat) (lost : Bool) : Machine :=
  (m.setChan c fun k => { k with tx := false, rx := false }).maybeNotify c lost

def watch (c : Nat) (lost : Bool) : Machine :=
  (m.setChan c fun k => { k with watched := true }).maybeNotify c lost

/-- The first lines of `machine_t::inject`: a new channel, under the number
`m.counter + 1`. -/
def newChannel : Machine :=
  { m with counter := m.counter + 1, chans := Function.update m.chans (m.counter + 1) {} }

def register (c : Nat) : Machine :=
  { m with channels := if c ∈ m.channels then m.channels else c :: m.channels }

end Machine

end Cocaine.Node.Slave
