import Mathlib.Logic.Basic

/-!
# One-shot timers with queued completions

A deadline timer of an event loop as its owner sees it. A wait is pending
(`armed`) until it expires or is cancelled. Expiry queues a completion with a
success code (`fired`), which runs later and which a cancellation in between
does not recall: `cancel` then reports that it cancelled nothing (`pending`).
A cancelled wait completes with an abort code at any time; those completions
carry no state.
-/

namespace Cocaine.Framework

structure Timer where
  armed : Bool := false
  /-- Expired waits whose completion has not run yet. -/
  fired : Nat := 0
deriving DecidableEq, Repr

namespace Timer

/-- Sets the expiry, which cancels a pending wait, and waits again. -/
def start (t : Timer) : Timer := { t with armed := true }

def cancel (t : Timer) : Timer := { t with armed := false }

/-- The number of waits `cancel` cancels. -/
def pending (t : Timer) : Nat := if t.armed then 1 else 0

def expire (t : Timer) : Timer := ⟨false, t.fired + 1⟩

/-- A queued completion with a success code runs. -/
def complete (t : Timer) : Timer := { t with fired := t.fired - 1 }

/-- A completion with a success code is to come, unless the wait is cancelled. -/
def waits (t : Timer) : Bool := t.armed || t.fired != 0

@[simp] theorem armed_start (t : Timer) : t.start.armed = true := rfl
@[simp] theorem armed_cancel (t : Timer) : t.cancel.armed = false := rfl
@[simp] theorem armed_expire (t : Timer) : t.expire.armed = false := rfl
@[simp] theorem armed_complete (t : Timer) : t.complete.armed = t.armed := rfl

@[simp] theorem pending_eq_zero {t : Timer} : t.pending = 0 ↔ t.armed = false := by
  unfold pending; cases t.armed <;> simp

end Timer

/-! ## Timers with several waits

Any number of handlers may wait for one deadline. A handler runs with a success code when the
deadline has passed, and with an abort code when the deadline is changed before that. -/

structure Deadline (η : Type) where
  expiry : Nat := 0
  waits : List η := []
  /-- The handlers to run next, and whether they get an abort code. -/
  ready : List (η × Bool) := []
deriving DecidableEq, Repr

namespace Deadline

variable {η : Type} (t : Deadline η)

def asyncWait (h : η) : Deadline η := { t with waits := t.waits ++ [h] }

def complete (aborted : Bool) : Deadline η :=
  { t with waits := [], ready := t.ready ++ t.waits.map (·, aborted) }

/-- Changes the deadline, which aborts the waits. -/
def expiresAt (time : Nat) : Deadline η := { t.complete true with expiry := time }

def expire : Deadline η := t.complete false

def handlers : List η := t.ready.map Prod.fst ++ t.waits

@[simp] theorem handlers_asyncWait (h : η) : (t.asyncWait h).handlers = t.handlers ++ [h] := by
  simp [handlers, asyncWait]

@[simp] theorem handlers_expiresAt (time : Nat) : (t.expiresAt time).handlers = t.handlers := by
  simp [handlers, expiresAt, complete, Function.comp_def]

@[simp] theorem handlers_expire : t.expire.handlers = t.handlers := by
  simp [handlers, expire, complete, Function.comp_def]

end Deadline

end Cocaine.Framework
