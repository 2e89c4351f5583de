import CocainePlugins.Framework.Transition
import CocainePlugins.Node.Slave.Machine

/-!
# A slave as a transition system

Each handler of the machine is one step, and any handler that is enabled may
run next: the posted ones, the completions of timers (also of those that had
expired when they were cancelled), the notifications of the isolate and of the
worker, the calls of the engine. A destructor may run as soon as nothing that
the model keeps points to the object.
-/

namespace Cocaine.Node.Slave

open Framework

inductive Act where
  /-- `preparation_t::start`; asking for the token may throw. -/
  | prepare (throws : Bool)
  | token (ec : ErrorCode)
  | refresh (ec : ErrorCode) (out : Machine.SpawnOutcome)
  /-- The `terminate` that `preparation_t::start` posts when it caught an exception. -/
  | abandon
  | ready (r : Nat) (throws : Bool)
  | exited (r : Nat) (ec : ErrorCode)
  | activate (throws : Bool)
  | doSeal (lost : Bool)
  | terminate (ec : ErrorCode) (lost : Bool)
  /-- The timer of the state object `r` expires; its completion runs. -/
  | expire (r : Nat)
  | timeout (r : Nat) (ec : ErrorCode) (lost : Bool)
  | heartbeat (c : Nat)
  | expireHeartbeat (c : Nat)
  | heartbeatTimeout (c : Nat) (ec : ErrorCode)
  | discard (c : Nat) (ec : ErrorCode)
  /-- The worker's terminate message. -/
  | suicide (c : Nat)
  | runShutdown (ec : ErrorCode)
  | runCloseBoth (c : Nat) (lost : Bool)
  | runCleanup (ec : ErrorCode)
  | runRebalance
  /-- The steps that `inject` and the two dispatches of a channel are made of. -/
  | newChannel
  | register (c : Nat)
  | arm (c : Nat)
  | watch (c : Nat) (lost : Bool)
  | closeSend (c : Nat) (lost : Bool)
  | closeRecv (c : Nat) (lost : Bool)
  | closeBoth (c : Nat) (lost : Bool)
  | expireRequest (c : Nat)
  | completeRequest (c : Nat)
  | destroy (r : Nat)
deriving DecidableEq, Repr

namespace Machine

variable (m : Machine)

/-- The state object `r` exists and nothing points to it any more. -/
def dangling (r : Nat) : Bool :=
  decide (r < m.fresh) && !(m.objs r).dead && r != m.state && !(m.objs r).timer.armed &&
    (m.objs r).timer.fired == 0 && !(m.objs r).awaited &&
    (List.range m.fresh).all fun r' => (m.objs r').dead || (m.objs r').handshaking != some r

/-- The handler may run: it is posted, its timer has expired, or whoever calls it
has what it calls it on. -/
def enabled : Act → Bool
  | .prepare _ => m.preparation == .start
  | .token _ => m.preparation == .token
  | .refresh ec _ => m.preparation == .refresh ec
  | .abandon => m.preparation == .terminate
  | .ready r _ => (m.objs r).kind == .spawn && (m.objs r).awaited
  | .exited r _ => (m.objs r).kind == .spawn
  | .expire r => (m.objs r).timer.armed
  | .timeout r ec _ => ec.failed || (m.objs r).timer.fired != 0
  | .heartbeat c | .discard c _ | .suicide c => decide (c < m.links)
  | .expireHeartbeat c => (m.controls c).timer.armed
  | .heartbeatTimeout c ec => ec.failed || (m.controls c).timer.fired != 0
  | .runShutdown ec => m.posted.contains (.shutdown ec)
  | .runCloseBoth c _ => m.posted.contains (.closeBoth c)
  | .runCleanup ec => m.posted.contains (.cleanup ec)
  | .runRebalance => m.posted.contains .rebalanceEvents
  | .expireRequest c => (m.chans c).timer.armed
  | .completeRequest c => (m.chans c).timer.fired != 0
  | .destroy r => m.dangling r
  | _ => true

def effect : Act → Machine
  | .prepare throws => { m with preparation := if throws then .terminate else .token }
  | .token ec => { m with preparation := .refresh ec }
  | .refresh ec out => { m with preparation := .done }.onRefresh ec out
  | .abandon => { m with preparation := .done }.shutdown SlaveErrors.unknownActivateError.code
  | .ready r throws => m.onReady r throws
  | .exited r ec => m.onTerminate r ec
  | .activate throws => (m.activate throws).1
  | .doSeal lost => m.machineSeal lost
  | .terminate ec lost => m.terminate ec lost
  | .expire r => m.setTimer r (m.objs r).timer.expire
  | .timeout r ec lost =>
    if ec.failed then m else (m.setTimer r (m.objs r).timer.complete).onTimeout r lost
  | .heartbeat c => m.onHeartbeat c
  | .expireHeartbeat c => m.setControl c fun k => { k with timer := k.timer.expire }
  | .heartbeatTimeout c ec =>
    if ec.failed then m
    else (m.setControl c fun k => { k with timer := k.timer.complete }).shutdown
      SlaveErrors.heartbeatTimeout.code
  | .discard c ec => m.controlDiscard c ec
  | .suicide _ => m.shutdown SlaveErrors.committedSuicide.code
  | .runShutdown ec => (m.take (.shutdown ec)).shutdown ec
  | .runCloseBoth c lost => (m.take (.closeBoth c)).closeBoth c lost
  | .runCleanup ec => (m.take (.cleanup ec)).note (.cleanup ec)
  | .runRebalance => m.take .rebalanceEvents
  | .newChannel => m.newChannel
  | .register c => m.register c
  | .arm c => m.setChan c fun k => { k with timer := k.timer.start }
  | .watch c lost => m.watch c lost
  | .closeSend c lost => m.closeSend c lost
  | .closeRecv c lost => m.closeRecv c lost
  | .closeBoth c lost => m.closeBoth c lost
  | .expireRequest c => m.setChan c fun k => { k with timer := k.timer.expire }
  | .completeRequest c => m.setChan c fun k => { k with timer := k.timer.complete }
  | .destroy r => m.destroy r

/-- No handler runs after a crash. -/
def step (a : Act) : Option Machine :=
  if !m.crashed && m.enabled a then some (m.effect a) else none

variable {m} in
theorem step_eq_some {a : Act} {m' : Machine} :
    m.step a = some m' ↔ m.crashed = false ∧ m.enabled a = true ∧ m.effect a = m' := by
  simp only [step, Option.ite_none_right_eq_some, Bool.and_eq_true, Bool.not_eq_true',
    Option.some.injEq, and_assoc]

end Machine

/-- The handlers that only shut the machine down, or concern its channels and the heartbeat. -/
def Act.routine : Act → Bool
  | .heartbeat _ | .expireHeartbeat _ | .heartbeatTimeout _ _ | .discard _ _ | .suicide _
  | .runShutdown _ | .runCloseBoth _ _ | .runRebalance | .newChannel | .register _ | .arm _
  | .watch _ _ | .closeSend _ _ | .closeRecv _ _ | .closeBoth _ _ | .expireRequest _
  | .completeRequest _ => true
  | _ => false

/-- A property that looks neither at the channels nor at the controls, and that a shutdown and the
end of a channel keep. -/
structure Routine (P : Machine → Prop) : Prop where
  aside {m m' : Machine} : P m → m'.objs = m.objs → m'.state = m.state → m'.fresh = m.fresh →
    m'.handles = m.handles → m'.links = m.links → m'.log = m.log →
    m'.preparation = m.preparation → m'.shutdowned = m.shutdowned → P m'
  shutdown {m : Machine} (ec : ErrorCode) : P m → P (m.shutdown ec)
  maybeNotify {m : Machine} (c : Nat) (f : Chan → Chan) (lost : Bool) :
    P m → P ((m.setChan c f).maybeNotify c lost)

theorem Routine.effect {P : Machine → Prop} (hP : Routine P) {m : Machine} (h : P m) {a : Act}
    (ha : a.routine = true) : P (m.effect a) := by
  cases a with
  | heartbeat c =>
    simp only [Machine.effect, Machine.onHeartbeat]
    split
    · exact h
    · exact hP.aside h rfl rfl rfl rfl rfl rfl rfl rfl
  | heartbeatTimeout c ec =>
    simp only [Machine.effect]
    split
    · exact h
    · exact hP.shutdown _ (hP.aside h rfl rfl rfl rfl rfl rfl rfl rfl)
  | discard c ec =>
    simp only [Machine.effect, Machine.controlDiscard]
    split
    · exact hP.shutdown _ h
    · exact h
  | suicide c => exact hP.shutdown _ h
  | runShutdown ec => exact hP.shutdown ec (hP.aside h rfl rfl rfl rfl rfl rfl rfl rfl)
  | runCloseBoth c lost =>
    exact hP.maybeNotify c _ lost (hP.aside h rfl rfl rfl rfl rfl rfl rfl rfl)
  | watch c lost | closeSend c lost | closeRecv c lost | closeBoth c lost =>
    exact hP.maybeNotify c _ lost h
  | expireHeartbeat | runRebalance | newChannel | register | arm | expireRequest | completeRequest =>
    exact hP.aside h rfl rfl rfl rfl rfl rfl rfl rfl
  | _ => cases ha

/-- The slave, from the end of `machine_t::start` on. -/
def machineSystem : System Machine Act where
  init m := m = {}
  step := Machine.step

end Cocaine.Node.Slave
