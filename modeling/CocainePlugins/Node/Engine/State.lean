import CocainePlugins.Framework.Word
import CocainePlugins.Node.Profile
import CocainePlugins.Node.Slave.Step

/-!
# The data of an engine

`engine_t` with its pool of slaves and its queue, the dispatches of the requests
it was given and what was written to their clients, and whether the application
is published. Slaves and requests are numbered in the order of their creation.
A slave that left the pool keeps its machine, because handlers keep it alive.
-/

namespace Cocaine.Node.Engine

open Framework Slave

/-- What the engine reads of `event_t`: times in nanoseconds, and the
`request_timeout` header in milliseconds. -/
structure Event where
  birthstamp : Int := 0
  deadline : Option Int := none
  requestTimeout : Option Nat := none
deriving DecidableEq, Repr

/-- `client_rpc_dispatch_t::state`; when bound, with the channel that the
callback closes. -/
inductive DispatchState where
  | opened
  | bound (slave chan : Nat)
  | closed
deriving DecidableEq, Repr

/-- `load_t`: an event and its `client_rpc_dispatch_t`. -/
structure Load where
  event : Event := {}
  state : DispatchState := .opened
  ec : ErrorCode := .success
deriving DecidableEq, Repr

/-- `worker_rpc_dispatch_t`, one for each attempt to inject a request. -/
structure Dispatch where
  event : Nat := 0
  /-- It is forked on the worker's session. -/
  forked : Bool := false
  closed : Bool := false
deriving DecidableEq, Repr

/-- What a client receives. -/
inductive Msg where
  | chunk | error | choke
deriving DecidableEq, Repr

/-- The handlers that the engine has posted to the loop. -/
inductive Job where
  | rebalanceEvents | rebalanceSlaves
deriving DecidableEq, Repr

/-- `slave_t`. -/
structure Worker where
  ec : ErrorCode := SlaveErrors.overseerShutdowning.code
  machine : Machine := {}

end Engine

open Engine Slave in
/-- `engine_t`, with the published flag of `running_t`. -/
structure Engine where
  profile : Profile := {}
  stopped : Bool := false
  workers : Nat → Worker := fun _ => {}
  born : Nat := 0
  /-- The slaves of the pool, in the order in which it is iterated. -/
  pool : List Nat := []
  poolTarget : Nat := 0
  /-- `on_spawn_rate_timer` is set. -/
  backoff : Bool := false
  /-- Waits for `on_spawn_rate_timeout` that have not completed. -/
  waits : Nat := 0
  lastFailed : Int := 0
  /-- In seconds. -/
  lastTimeout : Nat := 1
  queue : List Nat := []
  loads : Nat → Load := fun _ => {}
  arrived : Nat := 0
  /-- The worker's dispatch of each channel, by slave and channel. -/
  dispatches : Nat → Nat → Dispatch := fun _ _ => {}
  accepted : Nat := 0
  rejected : Nat := 0
  spawned : Nat := 0
  crashed : Nat := 0
  posted : List Job := []
  /-- What was written to the clients, newest first. -/
  wire : List (Nat × Msg) := []
  /-- The requests that were pushed to the queue. -/
  admitted : List Nat := []
  /-- The requests that expired in the queue. -/
  expired : List Nat := []
  /-- The requests that got a channel in the map of a slave. -/
  placed : List (Nat × Nat × Nat) := []
  /-- The unsigned subtractions of `enqueue` and `rebalance_slaves`. -/
  subs : List (Nat × Nat) := []
  published : Bool := false
  /-- A division by zero was executed. -/
  failed : Bool := false

namespace Engine

open Framework Slave

variable (st : Engine)

def machine (i : Nat) : Machine := (st.workers i).machine

/-- `slave_t::active` and `slave_t::load`. -/
def active (i : Nat) : Bool := (st.machine i).active

def load (i : Nat) : Nat := (st.machine i).load

/-- `engine_t::active_workers`. -/
def activeWorkers : Nat := st.pool.countP st.active

def setMachine (i : Nat) (m : Machine) : Engine :=
  { st with workers := Function.update st.workers i { st.workers i with machine := m } }

def perform (i : Nat) (a : Slave.Act) : Engine := st.setMachine i ((st.machine i).effect a)

def post (j : Job) : Engine := { st with posted := j :: st.posted }

/-- A message that was sent to the client of the request `e`. -/
def emit (e : Nat) (msg : Msg) : Engine := { st with wire := (e, msg) :: st.wire }

def setDispatch (i c : Nat) (d : Dispatch) : Engine :=
  { st with dispatches := Function.update st.dispatches i (Function.update (st.dispatches i) c d) }

def setLoad (e : Nat) (f : Load → Load) : Engine :=
  { st with loads := Function.update st.loads e (f (st.loads e)) }

end Engine

end Cocaine.Node
