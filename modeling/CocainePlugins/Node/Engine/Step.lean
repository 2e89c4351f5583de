import CocainePlugins.Node.Engine.Rebalance

/-!
# An engine as a transition system

The remaining handlers of `engine_t`, of the overseer and of the running
application, and the steps: calls of clients, of workers and of the control
service, posted handlers, completions of timers. A handler of a slave that
neither calls the engine nor is called by it is a step of the engine too.
-/

namespace Cocaine.Node.Engine

open Framework Slave

variable (st : Engine)

/-! ## Publishing -/

/-- `running_t::maybe_publish`; publishing twice throws, which `spawned` catches. -/
def maybePublish : Engine :=
  if st.profile.publishOn ≤ st.activeWorkers then { st with published := true } else st

/-- `running_t::maybe_unpublish`. -/
def maybeUnpublish : Engine :=
  if st.activeWorkers < st.profile.unpublishUnder then { st with published := false } else st

/-! ## Slaves come and go -/

/-- Erases a slave from the pool; the destructor of `slave_t` terminates its machine. -/
def eraseSlave (i : Nat) (lost : List Nat) : Engine :=
  ({ st with pool := st.pool.erase i } : Engine).perform i
    (.terminate (st.workers i).ec (lost.contains i))

/-- `engine_t::on_handshake`. -/
def onHandshake (i : Nat) (throws : Bool) : Engine :=
  if i ∈ st.pool then
    let st₁ := st.perform i (.activate throws)
    if ((st.machine i).activate throws).2 then (st₁.post .rebalanceEvents).maybePublish else st₁
  else st

/-- The backoff that `on_slave_death` starts; times in nanoseconds. -/
def startBackoff (now₁ now₂ : Int) : Engine :=
  let st₁ := if st.backoff then st else
    { st with
      backoff := true
      waits := st.waits + 1
      lastTimeout := if now₁ - st.lastFailed < 32000000000 then min (st.lastTimeout * 2) 32 else 1 }
  { st₁ with lastFailed := now₂, crashed := st.crashed + 1 }

/-- The part of `on_slave_death` that removes the slave from the pool. -/
def removeSlave (i : Nat) (ec : ErrorCode) (lost : List Nat) : Engine :=
  if i ∈ st.pool then
    ({ st with workers := Function.update st.workers i { st.workers i with ec := ec } } : Engine).eraseSlave
      i lost
  else st

/-- `engine_t::on_slave_death`. -/
def onSlaveDeath (i : Nat) (ec : ErrorCode) (now₁ now₂ : Int) (lost : List Nat) : Engine :=
  let st₁ := if ec.failed then st.startBackoff now₁ now₂ else st
  ((st₁.removeSlave i ec lost).maybeUnpublish).post .rebalanceSlaves

/-- `engine_t::despawn`, gracefully: a slave that is not active throws. -/
def despawnGraceful (i : Nat) (lost : List Nat) : Engine :=
  if i ∈ st.pool then st.perform i (.doSeal (lost.contains i)) else st

/-- `engine_t::despawn`, by force. -/
def despawnForce (i : Nat) (lost : List Nat) : Engine :=
  if i ∈ st.pool then ((st.eraseSlave i lost).post .rebalanceSlaves).maybeUnpublish else st

/-- `engine_t::control_population`. -/
def controlPopulation (count : Int) (env : Supply) : Engine :=
  (({ st with poolTarget := count.toNat } : Engine).rebalanceSlaves env).1

/-- `engine_t::on_spawn_rate_timeout`. -/
def onSpawnRateTimeout (env : Supply) : Engine :=
  (({ st with backoff := false, waits := st.waits - 1 } : Engine).rebalanceSlaves env).1

/-- The destructors of `running_t` and of the overseer. -/
def stop (lost : List Nat) : Engine :=
  let st₁ := ({ st with published := false, stopped := true } : Engine).controlPopulation 0 {}
  { st₁.pool.foldl (fun st i => st.eraseSlave i lost) st₁ with backoff := false }

/-! ## Requests -/

/-- `app_dispatch_t::on_enqueue`: `system` says that an exception thrown by the
construction of a slave is a `std::system_error`, `mute` that the client cannot
be sent the error. -/
def onEnqueue (env : Arrival) (system mute : Bool) : Engine :=
  if st.stopped then
    if mute then { st with arrived := st.arrived + 1 }
    else ({ st with arrived := st.arrived + 1 } : Engine).emit st.arrived .error
  else
    let p := st.enqueue env
    if p.2 && (st.queueIsFull || system) && !mute then p.1.emit st.arrived .error else p.1

/-- The completion of the request timer of a channel. -/
def onRequestTimeout (i c : Nat) (throws : Bool) (lost : List Nat) : Engine :=
  (st.perform i (.completeRequest c)).channelTimeout i c throws lost

end Engine

/-- The handlers of a slave that are steps on their own. -/
def Slave.Act.external : Slave.Act → Bool
  | .prepare _ | .token _ | .refresh _ _ | .abandon | .ready _ _ | .exited _ _ | .expire _
  | .timeout _ _ _ | .heartbeat _ | .expireHeartbeat _ | .heartbeatTimeout _ _ | .discard _ _
  | .suicide _ | .runShutdown _ | .runCloseBoth _ _ | .expireRequest _ | .destroy _ => true
  | _ => false

namespace Engine

inductive Act where
  | enqueue (env : Arrival) (system mute : Bool)
  | rebalanceEvents (env : Nat → Attempt)
  /-- The `rebalance_events` posted when a channel of the slave `i` was revoked. -/
  | revoked (i : Nat) (env : Nat → Attempt)
  | rebalanceSlaves (env : Supply)
  | controlPopulation (count : Int) (env : Supply)
  | spawnRateTimeout (env : Supply)
  | handshake (i : Nat) (throws : Bool)
  | cleanup (i : Nat) (ec : ErrorCode) (now₁ now₂ : Int) (lost : List Nat)
  | despawnGraceful (i : Nat) (lost : List Nat)
  | despawnForce (i : Nat) (lost : List Nat)
  | slave (i : Nat) (a : Slave.Act)
  | workerFrame (i c : Nat) (msg : Msg) (throws : Bool) (lost : List Nat)
  | workerDiscard (i c : Nat) (ec : ErrorCode) (throws : Bool) (lost : List Nat)
  /-- A choke or an error of the client was forwarded. -/
  | clientEnd (e : Nat) (lost : List Nat)
  | clientDiscard (e : Nat) (ec : ErrorCode) (lost : List Nat)
  | requestTimeout (i c : Nat) (throws : Bool) (lost : List Nat)
  | stop (lost : List Nat)
  /-- The pool is iterated in another order. -/
  | rehash (pool : List Nat)

variable (st : Engine)

def enabled : Act → Bool
  | .rebalanceEvents _ => st.posted.contains .rebalanceEvents
  | .revoked i _ => decide (i < st.born) && (st.machine i).enabled .runRebalance
  | .rebalanceSlaves _ => st.posted.contains .rebalanceSlaves
  | .controlPopulation _ _ | .stop _ => !st.stopped
  | .spawnRateTimeout _ => st.waits != 0
  | .cleanup i ec _ _ _ => decide (i < st.born) && (st.machine i).enabled (.runCleanup ec)
  | .slave i a => decide (i < st.born) && a.external && (st.machine i).enabled a
  | .workerFrame i c _ _ _ | .workerDiscard i c _ _ _ =>
    decide (i < st.born) && (st.dispatches i c).forked
  | .clientEnd e _ | .clientDiscard e _ _ => decide (e < st.arrived)
  | .requestTimeout i c _ _ =>
    decide (i < st.born) && (st.dispatches i c).forked && (st.machine i).enabled (.completeRequest c)
  | .rehash pool => decide (pool.Perm st.pool)
  | _ => true

def effect : Act → Engine
  | .enqueue env system mute => st.onEnqueue env system mute
  | .rebalanceEvents env =>
    ({ st with posted := st.posted.erase .rebalanceEvents } : Engine).rebalanceEvents env
  | .revoked i env => (st.perform i .runRebalance).rebalanceEvents env
  | .rebalanceSlaves env =>
    (({ st with posted := st.posted.erase .rebalanceSlaves } : Engine).rebalanceSlaves env).1
  | .controlPopulation count env => st.controlPopulation count env
  | .spawnRateTimeout env => st.onSpawnRateTimeout env
  | .handshake i throws => st.onHandshake i throws
  | .cleanup i ec now₁ now₂ lost =>
    (st.perform i (.runCleanup ec)).onSlaveDeath i ec now₁ now₂ lost
  | .despawnGraceful i lost => st.despawnGraceful i lost
  | .despawnForce i lost => st.despawnForce i lost
  | .slave i a => st.perform i a
  | .workerFrame i c msg throws lost => st.workerFrame i c msg throws lost
  | .workerDiscard i c ec throws lost => st.workerDiscard i c ec throws lost
  | .clientEnd e lost => st.clientFinalize e lost
  | .clientDiscard e ec lost => st.clientDiscard e ec lost
  | .requestTimeout i c throws lost => st.onRequestTimeout i c throws lost
  | .stop lost => st.stop lost
  | .rehash pool => { st with pool := pool }

def broken : Bool := st.failed || (List.range st.born).any fun i => (st.machine i).crashed

def step (a : Act) : Option Engine :=
  if !st.broken && st.enabled a then some (st.effect a) else none

variable {st} in
theorem step_eq_some {a : Act} {st' : Engine} :
    st.step a = some st' ↔ st.broken = false ∧ st.enabled a = true ∧ st.effect a = st' := by
  simp only [step, Option.ite_none_right_eq_some, Bool.and_eq_true, Bool.not_eq_true',
    Option.some.injEq, and_assoc]

/-- The engine of a running application, just created. -/
def start (p : Profile) : Engine := ({ profile := p } : Engine).maybePublish

end Engine

/-- The engine and its slaves, for every profile that `profile_t` accepts. -/
def engineSystem : Framework.System Engine Engine.Act where
  init st := ∃ p : Profile, p.Accepted ∧ st = Engine.start p
  step := Engine.step

end Cocaine.Node
