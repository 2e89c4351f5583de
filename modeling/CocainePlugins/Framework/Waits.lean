import Mathlib.Data.List.Perm.Basic

/-!
# Waits on the timers of an event loop

A wait belongs to a timer and has a handler. It is pending until its time has come,
which queues its handler with a success code, or until the timer is destroyed or set to
another time, which queues the handler with an abort code. A handler that is queued is
not recalled. A wait stays in the list until its handler runs; it is outstanding as long
as it is not aborted.
-/

namespace Cocaine.Framework

inductive Phase where
  | pending | fired | aborted
deriving DecidableEq, Repr

structure Wait (η : Type) where
  handler : η
  timer : Nat
  due : Nat
  phase : Phase := .pending
deriving DecidableEq, Repr

namespace Wait

variable {η : Type}

def pending (w : Wait η) : Bool := decide (w.phase = .pending)

def abort (timer : Nat) (w : Wait η) : Wait η :=
  if w.timer = timer ∧ w.phase = .pending then { w with phase := .aborted } else w

def fire (w : Wait η) : Wait η := { w with phase := .fired }

/-- The wait belongs to the timer and is not aborted. -/
def outstanding (timer : Nat) (w : Wait η) : Bool := decide (w.timer = timer ∧ w.phase ≠ .aborted)

/-- The wait belongs to the timer, and its handler is queued with a success code. -/
def expired (timer : Nat) (w : Wait η) : Bool := decide (w.timer = timer ∧ w.phase = .fired)

variable {w : Wait η} {timer other : Nat}

@[simp] theorem timer_abort : (w.abort timer).timer = w.timer := by
  unfold abort
  split <;> rfl

@[simp] theorem handler_abort : (w.abort timer).handler = w.handler := by
  unfold abort
  split <;> rfl

@[simp] theorem due_abort : (w.abort timer).due = w.due := by
  unfold abort
  split <;> rfl

theorem abort_of_ne (h : w.timer ≠ timer) : w.abort timer = w := if_neg fun h' => h h'.1

theorem pending_abort : (w.abort timer).pending = true ↔ w.pending = true ∧ w.timer ≠ timer := by
  unfold abort pending
  by_cases ht : w.timer = timer
  · cases h : w.phase <;> simp [ht, h]
  · simp [ht]

theorem fired_abort : (w.abort timer).phase = .fired ↔ w.phase = .fired := by
  unfold abort
  split <;> simp_all

theorem outstanding_abort : (w.abort timer).outstanding timer = w.expired timer := by
  unfold abort outstanding expired
  by_cases ht : w.timer = timer
  · cases h : w.phase <;> simp [ht, h]
  · simp [ht]

theorem outstanding_abort_of_ne (h : other ≠ timer) :
    (w.abort timer).outstanding other = w.outstanding other := by
  unfold abort
  split
  · rename_i hw
    simp [outstanding, hw.1, Ne.symm h]
  · rfl

end Wait

namespace Waits

variable {η : Type} (ws : List (Wait η))

/-- The timer is destroyed or set to another time. -/
def abort (timer : Nat) : List (Wait η) := ws.map (Wait.abort timer)

def expire (i : Nat) : List (Wait η) := ws.modify i Wait.fire

/-- The number of outstanding waits of a timer. -/
def outstanding (timer : Nat) : Nat := ws.countP (Wait.outstanding timer)

/-- The number of the waits of a timer whose handlers are queued with a success code. -/
def expired (timer : Nat) : Nat := ws.countP (Wait.expired timer)

variable {ws} {w : Wait η}

theorem mem_expire {i : Nat} (h : w ∈ expire ws i) :
    w ∈ ws ∨ ∃ v, ws[i]? = some v ∧ w = v.fire := by
  induction ws generalizing i with
  | nil => cases i <;> cases h
  | cons v ws ih =>
    cases i with
    | zero =>
      rcases List.mem_cons.mp h with rfl | h
      · exact .inr ⟨v, rfl, rfl⟩
      · exact .inl (List.mem_cons_of_mem _ h)
    | succ i =>
      rcases List.mem_cons.mp h with rfl | h
      · exact .inl List.mem_cons_self
      · exact (ih h).imp_left (List.mem_cons_of_mem _)

theorem countP_pending_expire (i : Nat) :
    (expire ws i).countP Wait.pending ≤ ws.countP Wait.pending := by
  induction ws generalizing i with
  | nil => cases i <;> exact Nat.le_refl 0
  | cons v ws ih =>
    cases i with
    | zero =>
      show (v.fire :: ws).countP Wait.pending ≤ (v :: ws).countP Wait.pending
      rw [List.countP_cons_of_neg (by simp [Wait.pending, Wait.fire]), List.countP_cons]
      exact Nat.le_add_right ..
    | succ i =>
      show (v :: expire ws i).countP Wait.pending ≤ (v :: ws).countP Wait.pending
      rw [List.countP_cons, List.countP_cons]
      exact Nat.add_le_add_right (ih i) _

section Outstanding

variable {timer other i : Nat}

theorem expired_le : expired ws timer ≤ outstanding ws timer := by
  refine List.countP_mono_left fun w _ h => ?_
  obtain ⟨ht, hf⟩ := of_decide_eq_true h
  exact decide_eq_true ⟨ht, by simp [hf]⟩

/-- Only the handlers that are queued already are left. -/
theorem outstanding_abort : outstanding (abort ws timer) timer = expired ws timer := by
  rw [outstanding, abort, List.countP_map, expired]
  exact List.countP_congr fun w _ => by simp [Wait.outstanding_abort]

theorem outstanding_abort_of_ne (h : other ≠ timer) :
    outstanding (abort ws timer) other = outstanding ws other := by
  rw [outstanding, abort, List.countP_map, outstanding]
  exact List.countP_congr fun w _ => by simp [Wait.outstanding_abort_of_ne h]

theorem outstanding_cons :
    outstanding (w :: ws) timer = outstanding ws timer + (w.outstanding timer).toNat := by
  rw [outstanding, List.countP_cons, outstanding]
  cases w.outstanding timer <;> rfl

theorem outstanding_expire (h : ws[i]? = some w) (hp : w.pending = true) :
    outstanding (expire ws i) timer = outstanding ws timer := by
  induction ws generalizing i with
  | nil => cases h
  | cons v ws ih =>
    cases i with
    | zero =>
      cases h
      have hfire : w.fire.outstanding timer = w.outstanding timer := by
        simp_all [Wait.outstanding, Wait.fire, Wait.pending]
      show outstanding (w.fire :: ws) timer = _
      rw [outstanding_cons, outstanding_cons, hfire]
    | succ i =>
      show outstanding (v :: expire ws i) timer = _
      rw [outstanding_cons, outstanding_cons, ih h]

theorem outstanding_eraseIdx (h : ws[i]? = some w) (timer : Nat) :
    outstanding ws timer = outstanding (ws.eraseIdx i) timer + (w.outstanding timer).toNat := by
  obtain ⟨hi, rfl⟩ := List.getElem?_eq_some_iff.mp h
  rw [← outstanding_cons]
  exact (List.getElem_cons_eraseIdx_perm hi).symm.countP_eq _

theorem expired_eraseIdx_le (i timer : Nat) : expired (ws.eraseIdx i) timer ≤ expired ws timer :=
  (List.eraseIdx_sublist ..).countP_le

theorem outstanding_eq_zero (h : ∀ w ∈ ws, w.timer ≠ timer) : outstanding ws timer = 0 :=
  List.countP_eq_zero.mpr fun w hw => by simp [Wait.outstanding, h w hw]

end Outstanding

end Waits

end Cocaine.Framework
