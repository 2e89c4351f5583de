import CocainePlugins.Node.Engine.State

/-!
# The streams of a request

A request is served through two dispatches: the client's
(`client_rpc_dispatch_t`), which exists from `enqueue` on and is bound to a
channel by `inject`, and the worker's (`worker_rpc_dispatch_t`), of which every
attempt to inject the request makes a new one. Each closes its side of the
channel when it ends. `lost` lists the slaves to whose workers the terminate
message cannot be sent.
-/

namespace Cocaine.Node.Engine

open Framework Slave

/-! ## Times -/

/-- The request timeout in milliseconds: of the header, or else of the profile. -/
def Event.timeout (ev : Event) (p : Profile) : Int :=
  i64 (ev.requestTimeout.getD p.requestTimeout)

/-- `birthstamp + request_timeout`, in nanoseconds. -/
def Event.expiry (ev : Event) (p : Profile) : Int :=
  i64 (ev.birthstamp + i64 (ev.timeout p * 1000000))

/-- The whole milliseconds left at `now`. -/
def Event.duration (ev : Event) (p : Profile) (now : Int) : Int :=
  (i64 (ev.expiry p - now)).tdiv 1000000

variable (st : Engine)

/-! ## The client's dispatch -/

/-- The callback that `inject` gives to `attach`. -/
def clientCallback (i c : Nat) (ec : ErrorCode) (lost : List Nat) : Engine :=
  st.perform i (if ec.failed then .closeBoth c (lost.contains i) else .closeSend c (lost.contains i))

/-- `client_rpc_dispatch_t::finalize`. -/
def clientFinalize (e : Nat) (lost : List Nat) : Engine :=
  match (st.loads e).state with
  | .opened => st.setLoad e fun l => { l with state := .closed }
  | .bound i c =>
    (st.setLoad e fun l => { l with state := .closed }).clientCallback i c (st.loads e).ec lost
  | .closed => st

/-- `client_rpc_dispatch_t::discard`. -/
def clientDiscard (e : Nat) (ec : ErrorCode) (lost : List Nat) : Engine :=
  if ec.failed then (st.setLoad e fun l => { l with ec := ec }).clientFinalize e lost else st

/-- `client_rpc_dispatch_t::attach`, once its stream is attached. -/
def clientAttach (e i c : Nat) (lost : List Nat) : Engine :=
  match (st.loads e).state with
  | .opened => st.setLoad e fun l => { l with state := .bound i c }
  | .closed => st.clientCallback i c (st.loads e).ec lost
  | .bound _ _ => st

/-! ## The worker's dispatch -/

/-- `worker_rpc_dispatch_t::finalize` of a dispatch that is not closed, with the
callback that `inject` gives it. -/
def workerFinalize (i c : Nat) (ec : ErrorCode) (lost : List Nat) : Engine :=
  (st.setDispatch i c { st.dispatches i c with closed := true }).perform i
    (if ec.failed then .closeBoth c (lost.contains i) else .closeRecv c (lost.contains i))

/-- `asio::error::connection_aborted`. -/
def connectionAborted : ErrorCode := ⟨103, .system⟩

/-- A message of the worker; `throws` says that it cannot be passed to the client. -/
def workerFrame (i c : Nat) (msg : Msg) (throws : Bool) (lost : List Nat) : Engine :=
  if (st.dispatches i c).closed then st
  else if throws then st.workerFinalize i c connectionAborted lost
  else
    match msg with
    | .chunk => st.emit (st.dispatches i c).event .chunk
    | msg => (st.emit (st.dispatches i c).event msg).workerFinalize i c .success lost

/-- `worker_rpc_dispatch_t::discard`. -/
def workerDiscard (i c : Nat) (ec : ErrorCode) (throws : Bool) (lost : List Nat) : Engine :=
  if ec.failed && !(st.dispatches i c).closed then
    (if throws then st else st.emit (st.dispatches i c).event .error).workerFinalize i c .success lost
  else st

/-- What both dispatches of a channel get when the request times out. -/
def channelTimeout (i c : Nat) (throws : Bool) (lost : List Nat) : Engine :=
  (st.clientDiscard (st.dispatches i c).event NodeErrors.timeoutError.code lost).workerDiscard i c
    NodeErrors.timeoutError.code throws lost

/-! ## Injection -/

/-- The calls of `inject` that may throw. -/
inductive Fault where
  | fork | send | attach
deriving DecidableEq, Repr

/-- What the environment decides while a request is assigned: the three readings
of the clock, the call that throws, and whether the client takes an error. -/
structure Attempt where
  now₁ : Int := 0
  now₂ : Int := 0
  now₃ : Int := 0
  fault : Option Fault := none
  mute : Bool := false
  lost : List Nat := []

def register (i c e : Nat) : Engine :=
  { st.perform i (.register c) with placed := (e, i, c) :: st.placed }

/-- `machine_t::inject` into the slave `i`, and whether it threw. -/
def inject (i e : Nat) (env : Attempt) : Engine × Bool :=
  let c := (st.machine i).counter + 1
  let st₁ := (st.perform i .newChannel).setDispatch i c { event := e }
  -- Every state but `active_t` throws.
  if !st.active i || env.fault == some .fork then (st₁, true)
  else
    let st₂ := st₁.setDispatch i c { event := e, forked := true }
    if env.fault == some .send then (st₂, true)
    else
      let st₃ := st₂.register i c e
      let st₄ := if (st.loads e).event.duration st.profile env.now₃ ≤ 0 then
          st₃.channelTimeout i c env.mute env.lost
        else st₃.perform i (.arm c)
      if env.fault == some .attach then (st₄, true)
      else ((st₄.clientAttach e i c env.lost).perform i (.watch c (env.lost.contains i)), false)

end Cocaine.Node.Engine
