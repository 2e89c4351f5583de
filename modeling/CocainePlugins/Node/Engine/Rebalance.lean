import Mathlib.Data.List.MinMax
import CocainePlugins.Node.Engine.Dispatch

/-!
# Balancing

The queue of requests against the free slaves (`rebalance_events`), the pool
against the load (`rebalance_slaves`), and `enqueue`, which runs both. What may
throw returns whether it did.
-/

namespace Cocaine.Node.Engine

open Framework Slave

variable (st : Engine)

/-! ## Events -/

/-- `engine_t::select_slave`: the first slave of the pool with the least load
among those that pass the filter. -/
def selectSlave (filter : Nat → Bool) : Option Nat := (st.pool.filter filter).argmin st.load

/-- The slave is active and has a free channel. -/
def vacant (i : Nat) : Bool := st.active i && decide (st.load i < st.profile.concurrency)

/-- `drop_event` of `assign`. -/
def dropEvent (e : Nat) (mute : Bool) : Engine :=
  { (if mute then st else st.emit e .error) with expired := e :: st.expired }

/-- `engine_t::assign`, and whether it threw. -/
def assign (i e : Nat) (env : Attempt) : Engine × Bool :=
  let ev := (st.loads e).event
  if ev.expiry st.profile < env.now₁ then (st.dropEvent e env.mute, false)
  else
    match ev.deadline with
    | some d => if d < env.now₂ then (st.dropEvent e env.mute, false) else st.inject i e env
    | none => st.inject i e env

/-- The loop of `rebalance_events` over the queue, given as its second argument;
an assignment that throws ends it. -/
def rebalanceLoop (env : Nat → Attempt) (st : Engine) : List Nat → Engine
  | [] => st
  | e :: q =>
    match st.selectSlave st.vacant with
    | none => st
    | some i =>
      let p := st.assign i e (env e)
      if p.2 then p.1.post .rebalanceSlaves else rebalanceLoop env { p.1 with queue := q } q

/-- `engine_t::rebalance_events`. -/
def rebalanceEvents (env : Nat → Attempt) : Engine :=
  if st.pool = [] then st else rebalanceLoop env st st.queue

/-! ## Slaves -/

/-- `engine_t::pool_pressure`: the sum of the loads, accumulated in an `int`. -/
def poolPressure : Nat := accumulate32 (st.pool.map st.load)

/-- `engine_t::spawn`, when the construction of the slave succeeds. -/
def spawn : Engine :=
  { st with
    workers := Function.update st.workers st.born {}
    born := st.born + 1
    pool := st.born :: st.pool
    spawned := st.spawned + 1 }

/-- What the environment decides in `rebalance_slaves`: how many constructions of
a slave succeed before one throws, if one does. -/
structure Supply where
  fails : Option Nat := none
  lost : List Nat := []

/-- The loops that spawn `n` slaves, and whether one threw. -/
def spawnLoop : Nat → Option Nat → Engine → Engine × Bool
  | 0, _, st => (st, false)
  | n + 1, fails, st =>
    if st.profile.poolLimit ≤ st.pool.length || fails == some 0 then (st, true)
    else spawnLoop n (fails.map Nat.pred) st.spawn

def sealLoop (lost : List Nat) : Nat → Engine → Engine
  | 0, st => st
  | n + 1, st =>
    match st.selectSlave st.active with
    | none => st
    | some i => sealLoop lost n (st.perform i (.doSeal (lost.contains i)))

/-- The vacant channels that `rebalance_slaves` counts. -/
def poolVacant : Nat := sub64 (u64 (st.pool.length * st.profile.concurrency)) st.poolPressure

/-- How many slaves are lacking for the queue; the division is one of doubles,
which is exact below `2 ^ 53`. -/
def lack : Nat :=
  if st.queue.length < st.poolVacant then 0
  else (st.queue.length - st.poolVacant + (st.profile.concurrency - 1)) / st.profile.concurrency

/-- The pool target of `rebalance_slaves` before it is bounded. -/
def target : Nat :=
  if 0 < st.poolTarget then st.poolTarget
  else if 0 < st.profile.queueLimit then st.queue.length / st.profile.growThreshold
  else st.pool.length + st.lack

/-- The target is computed from the queue limit, with a zero divisor. -/
def dividesByZero : Bool :=
  st.poolTarget == 0 && decide (0 < st.profile.queueLimit) && st.profile.growThreshold == 0

def afterTarget : Engine :=
  if st.dividesByZero then { st with failed := true }
  else if st.poolTarget = 0 ∧ st.profile.queueLimit = 0 then
    { st with subs := (u64 (st.pool.length * st.profile.concurrency), st.poolPressure) :: st.subs }
  else st

/-- `stdext::clamp(target, 1, pool_limit)`. -/
def boundedTarget : Nat := max 1 (min st.target st.profile.poolLimit)

/-- `engine_t::rebalance_slaves`, and whether it threw. -/
def rebalanceSlaves (env : Supply) : Engine × Bool :=
  if st.stopped then (st, false)
  else
    let target := st.boundedTarget
    let st₁ := st.afterTarget
    if st₁.failed || st.backoff then (st₁, false)
    else if 0 < st.poolTarget then
      if target ≤ st.pool.length then (sealLoop env.lost (st.activeWorkers - target) st₁, false)
      else spawnLoop (target - st.pool.length) env.fails st₁
    else if st.profile.poolLimit ≤ st.pool.length then (st₁, false)
    else spawnLoop (target - st.pool.length) env.fails st₁

/-! ## Requests -/

/-- The vacant channels that `enqueue` counts. -/
def limitVacant : Nat := sub64 (u64 (st.profile.poolLimit * st.profile.concurrency)) st.poolPressure

def queueIsFull : Bool :=
  if 0 < st.profile.queueLimit then decide (st.profile.queueLimit ≤ st.queue.length)
  else decide (st.limitVacant ≤ st.queue.length)

/-- A new request, under the number `st.arrived`, and what `enqueue` computes to
decide on it. -/
def arrive (ev : Event) : Engine :=
  { st with
    loads := Function.update st.loads st.arrived { event := ev }
    arrived := st.arrived + 1
    subs := if st.profile.queueLimit = 0 then
        (u64 (st.profile.poolLimit * st.profile.concurrency), st.poolPressure) :: st.subs
      else st.subs }

def push : Engine :=
  { st with
    queue := st.queue ++ [st.arrived - 1]
    admitted := (st.arrived - 1) :: st.admitted
    accepted := st.accepted + 1 }

/-- What the environment decides during `enqueue`: in its `try` block, and in the
handler of an exception. -/
structure Arrival where
  event : Event := {}
  events : Nat → Attempt := fun _ => {}
  slaves : Supply := {}
  events' : Nat → Attempt := fun _ => {}
  slaves' : Supply := {}

/-- The handler of an exception in `enqueue`. -/
def reject (env : Arrival) : Engine :=
  ((({ st with rejected := st.rejected + 1 } : Engine).rebalanceEvents env.events').rebalanceSlaves
    env.slaves').1

/-- `engine_t::enqueue`, and whether it threw. -/
def enqueue (env : Arrival) : Engine × Bool :=
  let st₁ := st.arrive env.event
  if st.queueIsFull then (st₁.reject env, true)
  else
    let p := (st₁.push.rebalanceEvents env.events).rebalanceSlaves env.slaves
    if p.2 then (p.1.reject env, true) else (p.1, false)

end Cocaine.Node.Engine
