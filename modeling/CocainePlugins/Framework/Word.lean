import Mathlib.Algebra.Order.Ring.Int
import Mathlib.Algebra.Order.Ring.Nat

/-!
# Machine integers

Unsigned 64-bit arithmetic on naturals, signed 64-bit arithmetic on integers,
and sums that a program keeps in a signed integer narrower than the terms.
`sub64_of_le`, `i64_eq_self` and `accumulate32_eq` say when they agree with the
arithmetic they stand for, `i64_spec` and `sub64_accumulate32` how they differ.
-/

namespace Cocaine.Framework

/-- The value of a natural in an unsigned 64-bit integer. -/
def u64 (n : Nat) : Nat := n % 2 ^ 64

def sub64 (a b : Nat) : Nat := (a + 2 ^ 64 - b % 2 ^ 64) % 2 ^ 64

/-- The value of an integer in a signed 32-bit integer. -/
def i32 (n : Int) : Int := n.bmod (2 ^ 32)

/-- The value of an integer in a signed 64-bit integer. -/
def i64 (n : Int) : Int := n.bmod (2 ^ 64)

/-- The integer has a signed 64-bit representation. -/
def Fits64 (n : Int) : Prop := -2 ^ 63 ≤ n ∧ n < 2 ^ 63

instance (n : Int) : Decidable (Fits64 n) := inferInstanceAs (Decidable (_ ∧ _))

/-- Conversion to an unsigned 64-bit integer. -/
def toU64 (n : Int) : Nat := (n % 2 ^ 64).toNat

/-- The sum of unsigned terms that is accumulated in a signed 32-bit integer. -/
def accumulate32 (l : List Nat) : Nat := toU64 (l.foldl (fun acc (x : Nat) => i32 (acc + x)) 0)

/-- The multiple of `2 ^ 32` that a sum loses in a signed 32-bit integer. -/
def lost32 (n : Nat) : Nat := 2 ^ 32 * ((n + 2 ^ 31) / 2 ^ 32)

theorem sub64_of_le {a b : Nat} (h : b ≤ a) (ha : a < 2 ^ 64) : sub64 a b = a - b := by
  unfold sub64
  rw [Nat.mod_eq_of_lt (Nat.lt_of_le_of_lt h ha), Nat.sub_add_comm h, Nat.add_mod_right,
    Nat.mod_eq_of_lt (by omega)]

/-- A signed 64-bit integer differs from the exact one by a multiple of `2 ^ 64`. -/
theorem i64_spec (n : Int) : Fits64 (i64 n) ∧ ∃ k : Int, n = i64 n + k * 2 ^ 64 := by
  refine ⟨?_, n.bdiv (2 ^ 64), (Int.bmod_add_bdiv' n (2 ^ 64)).symm⟩
  have hle : -(((2 ^ 64 : Nat) : Int) / 2) ≤ i64 n := Int.le_bmod (by decide)
  have hlt : i64 n < (((2 ^ 64 : Nat) : Int) + 1) / 2 := Int.bmod_lt (by decide)
  unfold Fits64
  omega

theorem i64_eq_self {n : Int} (h : Fits64 n) : i64 n = n := by
  obtain ⟨hf, k, hk⟩ := i64_spec n
  unfold Fits64 at h hf
  omega

theorem i32_of_lt {n : Int} (h0 : 0 ≤ n) (h : n < 2 ^ 31) : i32 n = n := by
  unfold i32
  rw [Int.bmod_eq_of_le] <;> omega

theorem i32_eq_sub (n : Nat) : i32 n = (n : Int) - lost32 n := by
  have hle : -(((2 ^ 32 : Nat) : Int) / 2) ≤ i32 n := Int.le_bmod (by decide)
  have hlt : i32 n < (((2 ^ 32 : Nat) : Int) + 1) / 2 := Int.bmod_lt (by decide)
  have heq : i32 n + (n : Int).bdiv (2 ^ 32) * (2 ^ 32 : Nat) = n := Int.bmod_add_bdiv' n (2 ^ 32)
  unfold lost32
  omega

/-- The terms may be added before the sum is converted. -/
theorem foldl_i32 (l : List Nat) (acc : Int) :
    l.foldl (fun acc (x : Nat) => i32 (acc + x)) (i32 acc) = i32 (acc + l.sum) := by
  induction l generalizing acc with
  | nil => simp
  | cons x l ih =>
    have hstep : i32 (i32 acc + x) = i32 (acc + x) := Int.bmod_add_bmod
    rw [List.foldl_cons, hstep, ih, List.sum_cons, Int.natCast_add, Int.add_assoc]

theorem accumulate32_eq_toU64 (l : List Nat) :
    accumulate32 l = toU64 ((l.sum : Int) - lost32 l.sum) := by
  have hzero : i32 0 = 0 := rfl
  rw [accumulate32, ← i32_eq_sub]
  conv_lhs => rw [← hzero, foldl_i32, Int.zero_add]

theorem accumulate32_eq {l : List Nat} (h : l.sum < 2 ^ 31) : accumulate32 l = l.sum := by
  rw [accumulate32_eq_toU64, toU64, lost32]
  omega

/-- A difference from which such a sum is taken is too large by what the sum loses. -/
theorem sub64_accumulate32 {a : Nat} {l : List Nat} (h : l.sum ≤ a) (ha : a < 2 ^ 62) :
    sub64 a (accumulate32 l) = a - l.sum + lost32 l.sum := by
  rw [accumulate32_eq_toU64, toU64, sub64, lost32]
  omega

end Cocaine.Framework
