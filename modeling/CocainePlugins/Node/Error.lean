import Mathlib.Logic.Basic

/-!
# Error codes

`std::error_code` and the codes that the node service defines. A code is an
error when its value is not zero, whatever its category.
-/

namespace Cocaine.Node

inductive Category where
  | system | asio | slave | overseer | node
  | other (id : Nat)
deriving DecidableEq, Repr

structure ErrorCode where
  value : Int := 0
  category : Category := .system
deriving DecidableEq, Repr

namespace ErrorCode

/-- The default code, which `clear` sets too. -/
def success : ErrorCode := {}

/-- `operator bool`. -/
def failed (ec : ErrorCode) : Bool := ec.value != 0

end ErrorCode

/-- `slave_errors`, in the source's order. -/
inductive SlaveErrors where
  | spawnTimeout | locatorNotFound | emptyLocatorEndpoints | activateTimeout
  | unknownActivateError | sealTimeout | teminateTimeout | heartbeatTimeout | invalidState
  | conrolIpcError | overseerShutdowning | committedSuicide | slaveIdle | slaveIsSealing
deriving DecidableEq, Repr

/-- `make_error_code(slave_errors)`: the enumeration starts at 1. -/
def SlaveErrors.code (e : SlaveErrors) : ErrorCode := ⟨e.ctorIdx + 1, .slave⟩

@[simp] theorem SlaveErrors.failed_code (e : SlaveErrors) : e.code.failed = true := by
  cases e <;> rfl

/-- `overseer_errors`. -/
inductive OverseerErrors where
  | queueIsFull | poolIsFull
deriving DecidableEq, Repr

def OverseerErrors.code (e : OverseerErrors) : ErrorCode := ⟨e.ctorIdx + 1, .overseer⟩

/-- `node_errors`. -/
inductive NodeErrors where
  | deadlineError | resourceError | timeoutError | invalidAssignment | alreadyStarted | notRunning
  | uncaughtSpoolError | uncaughtPublishError
deriving DecidableEq, Repr

def NodeErrors.code (e : NodeErrors) : ErrorCode := ⟨e.ctorIdx + 1, .node⟩

end Cocaine.Node
