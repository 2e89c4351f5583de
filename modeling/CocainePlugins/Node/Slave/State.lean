import Mathlib.Logic.Function.Basic
import CocainePlugins.Framework.Timer
import CocainePlugins.Node.Error

/-!
# The data of a slave

A slave's state machine (`machine_t`) points to its current state object. The
objects stay in `objs` after the machine has left them, because timers, the
isolate's spawn handle and the callers of a state keep them alive; a later
handler may run on an object that is no longer current. All state classes share
one record: a class that lacks a field leaves it at its default.

The resources that move between states are named by numbers: a handshake brings
a session and makes a control channel, both under the number of the handshake;
a spawned isolate brings a handle.
-/

namespace Cocaine.Node.Slave

open Framework

-- The object heap, the controls and the channels are functions changed at one place.
attribute [simp] Function.update_apply

/-- The state classes (`slave/state`). -/
inductive Kind where
  | preparation | spawn | handshaking | active | seal | terminate
  | inactive (ec : ErrorCode)
deriving DecidableEq, Repr

/-- What a state object owns of the worker; moving from a field leaves `none`. -/
structure Resources where
  handle : Option Nat := none
  control : Option Nat := none
  session : Option Nat := none
deriving DecidableEq, Repr

structure StateObj where
  kind : Kind := .preparation
  res : Resources := {}
  timer : Timer := {}
  /-- `spawn_t::data.handshaking`. -/
  handshaking : Option Nat := none
  /-- The isolate's spawn handle still points to this `spawn_t`. -/
  awaited : Bool := false
  /-- The destructor has run. -/
  dead : Bool := false
deriving DecidableEq, Repr

/-- `control_t`. -/
structure Control where
  closed : Bool := false
  timer : Timer := {}
deriving DecidableEq, Repr

/-- `channel_t`, with its request timer. -/
structure Chan where
  /-- The sides of `channel_t::state` that are still open. -/
  tx : Bool := true
  rx : Bool := true
  watched : Bool := false
  timer : Timer := {}
deriving DecidableEq, Repr

/-- The handlers that the machine has posted to the loop. -/
inductive Task where
  | shutdown (ec : ErrorCode)
  | closeBoth (c : Nat)
  | cleanup (ec : ErrorCode)
  /-- Posted by the handler that the engine passes to `inject`. -/
  | rebalanceEvents
deriving DecidableEq, Repr

/-- Where the one chain of handlers that `machine_t::start` begins stands:
`preparation_t::start` posted, the token asked for, `on_refresh` posted, or
`terminate` posted because asking threw. -/
inductive Preparation where
  | start | token
  | refresh (ec : ErrorCode)
  | terminate | done
deriving DecidableEq, Repr

/-- What is recorded of a run, newest first. -/
inductive Obs where
  /-- A state object was constructed with these resources. -/
  | built (k : Kind) (res : Resources)
  /-- `active_t::seal`, `active_t::terminate` or `seal_t::terminate` moved the
  resources of the object. -/
  | handed (r : Nat)
  /-- `machine_t::terminate` was called, and returned. -/
  | terminate (ec : ErrorCode)
  | terminated
  /-- `control_t::terminate` was called. -/
  | controlTerminate (ec : ErrorCode)
  /-- The cleanup callback was invoked. -/
  | cleanup (ec : ErrorCode)
deriving DecidableEq, Repr

/-- `machine_t`, from the end of `start` on. -/
structure Machine where
  /-- `terminate` was called: the cleanup callback is not wanted any more. -/
  closed : Bool := false
  shutdowned : Bool := false
  state : Nat := 0
  objs : Nat → StateObj := fun _ => {}
  fresh : Nat := 1
  preparation : Preparation := .start
  controls : Nat → Control := fun _ => {}
  links : Nat := 0
  handles : Nat := 0
  counter : Nat := 1
  channels : List Nat := []
  chans : Nat → Chan := fun _ => {}
  posted : List Task := []
  log : List Obs := []
  /-- A null pointer was dereferenced. -/
  crashed : Bool := false

namespace Machine

def cur (m : Machine) : StateObj := m.objs m.state

/-- `machine_t::active`. -/
def active (m : Machine) : Bool := m.cur.kind == .active

/-- `machine_t::load`. -/
def load (m : Machine) : Nat := m.channels.length

def inactive (m : Machine) : Bool :=
  match m.cur.kind with
  | .inactive _ => true
  | _ => false

theorem active_iff {m : Machine} : m.active = true ↔ m.cur.kind = .active := by
  simp [active]

theorem inactive_iff {m : Machine} : m.inactive = true ↔ ∃ ec, m.cur.kind = .inactive ec := by
  unfold inactive
  split
  · rename_i ec h
    simp [h]
  · rename_i h
    simpa using h

end Machine

end Cocaine.Node.Slave
