import Mathlib.Data.Rat.Floor

/-!
# Quotients in binary floating point

The numbers of a binary format with significands of `p` bits (53 for a double),
without its bounds on the exponent, and rounding to a nearest one of them; ties
may be broken either way. `Nearest.ceil_div` says that the ceiling of a rounded
quotient is the ceiling of the quotient, as long as the divisor and the dividend
have at most `p` bits.
-/

namespace Cocaine.Framework

/-- The numbers with significands of `p` bits. -/
def Binary (p : Nat) : Set ℚ := {x | ∃ m e : ℤ, |m| < 2 ^ p ∧ x = m * 2 ^ e}

/-- `y` is the number of the format, or one of the two, nearest to `x`. -/
structure Nearest (p : Nat) (x y : ℚ) : Prop where
  mem : y ∈ Binary p
  le : ∀ z ∈ Binary p, |x - y| ≤ |x - z|

variable {p : Nat}

theorem natCast_mem_binary {n : Nat} (h : n < 2 ^ p) : (n : ℚ) ∈ Binary p := by
  refine ⟨n, 0, ?_, by simp⟩
  rw [Nat.abs_cast]
  exact_mod_cast h

/-- A number with `d` binary digits after the point. -/
theorem div_mem_binary {n : Nat} (h : n < 2 ^ p) (d : Nat) : (n : ℚ) / 2 ^ d ∈ Binary p := by
  refine ⟨n, -d, ?_, ?_⟩
  · rw [Nat.abs_cast]
    exact_mod_cast h
  · rw [zpow_neg, zpow_natCast, Int.cast_natCast, div_eq_mul_inv]

namespace Nearest

variable {x y z : ℚ}

theorem eq_of_mem (h : Nearest p x y) (hx : x ∈ Binary p) : y = x := by
  have hle := h.le x hx
  rw [sub_self, abs_zero, abs_nonpos_iff, sub_eq_zero] at hle
  exact hle.symm

/-- Rounding does not pass a number of the format. -/
theorem le_of_le (h : Nearest p x y) (hz : z ∈ Binary p) (hx : x ≤ z) : y ≤ z := by
  by_contra hlt
  rw [not_le] at hlt
  have hle := h.le z hz
  rw [abs_of_nonpos (by linarith), abs_of_nonpos (by linarith)] at hle
  linarith

/-- Above the middle, a number is not rounded down. -/
theorem lt_of_middle_lt (h : Nearest p x y) {u v : ℚ} (hv : v ∈ Binary p) (huv : u < v)
    (hx : u + v < 2 * x) : u < y := by
  by_contra hle
  rw [not_lt] at hle
  have hdist := h.le v hv
  rw [abs_of_nonneg (by linarith)] at hdist
  rcases abs_cases (x - v) with ⟨habs, -⟩ | ⟨habs, -⟩
  · rw [habs] at hdist
    linarith
  · rw [habs] at hdist
    linarith

/-- The distance from the quotient rounded down to the next number of the format
is a power of two, and the quotient is more than half of it away. -/
theorem exists_spacing {a b : Nat} (h0 : 0 < b) (ha : a < 2 ^ p) (hb : b < 2 ^ p)
    (hr : 0 < a % b) : ∃ d : Nat, b < 2 ^ (d + 1) ∧ a / b * 2 ^ d + 1 < 2 ^ p := by
  have hdiv := Nat.div_add_mod a b
  have hb2 : 2 ≤ b := by
    by_contra hlt
    rw [show b = 1 by omega, Nat.mod_one] at hr
    exact Nat.lt_irrefl 0 hr
  -- `2 ^ e` is the leading binary place of the quotient.
  have hlead : b * 2 ^ (a / b).log2 < 2 ^ p := by
    rcases Nat.eq_zero_or_pos (a / b) with hk | hk
    · rw [hk, Nat.log2_zero, Nat.pow_zero, Nat.mul_one]
      exact hb
    · have hle := Nat.mul_le_mul_left b (Nat.log2_self_le (Nat.ne_of_gt hk))
      omega
  have hlt : (a / b).log2 + 1 < p := by
    have hpow : 2 ^ ((a / b).log2 + 1) < 2 ^ p := by
      have hle := Nat.mul_le_mul_right (2 ^ (a / b).log2) hb2
      rw [Nat.pow_succ]
      omega
    exact (Nat.pow_lt_pow_iff_right (by decide)).mp hpow
  obtain ⟨d, hd⟩ := Nat.exists_eq_add_of_lt hlt
  have hp : 2 ^ p = 2 ^ (a / b).log2 * 2 ^ (d + 1 + 1) := by
    rw [← Nat.pow_add, hd]
    congr 1
    omega
  refine ⟨d + 1, ?_, ?_⟩
  · rw [hp, Nat.mul_comm] at hlead
    exact Nat.lt_of_mul_lt_mul_left hlead
  · have hk : a / b + 1 ≤ 2 ^ ((a / b).log2 + 1) := Nat.lt_log2_self
    have hle := Nat.mul_le_mul_right (2 ^ (d + 1)) hk
    rw [← Nat.pow_add, show (a / b).log2 + 1 + (d + 1) = p by omega, Nat.succ_mul] at hle
    have hone : 2 ≤ 2 ^ (d + 1) := by
      rw [Nat.pow_succ]
      have hpos := Nat.two_pow_pos d
      omega
    omega

theorem div_eq_add_mod {a b : Nat} (h0 : 0 < b) :
    (a : ℚ) / b = (a / b : Nat) + (a % b : Nat) / b := by
  have hdiv : ((b * (a / b) + a % b : Nat) : ℚ) = a := by rw [Nat.div_add_mod]
  have hb0 : (0 : ℚ) < b := by exact_mod_cast h0
  push_cast at hdiv
  rw [← hdiv, add_div, mul_div_cancel_left₀ _ (ne_of_gt hb0)]

theorem lt_of_mod_pos {a b : Nat} (h : Nearest p (a / b) y) (h0 : 0 < b) (ha : a < 2 ^ p)
    (hb : b < 2 ^ p) (hr : 0 < a % b) : ((a / b : Nat) : ℚ) < y := by
  obtain ⟨d, hd, hn⟩ := exists_spacing h0 ha hb hr
  have hb0 : (0 : ℚ) < b := by exact_mod_cast h0
  have hnext : ((a / b * 2 ^ d + 1 : Nat) : ℚ) / 2 ^ d = (a / b : Nat) + 1 / 2 ^ d := by
    push_cast
    rw [add_div, mul_div_cancel_right₀ _ (by positivity)]
  refine h.lt_of_middle_lt (div_mem_binary hn d) ?_ ?_
  · rw [hnext]
    linarith [show (0 : ℚ) < 1 / 2 ^ d by positivity]
  · have hhalf : 1 / 2 ^ d < 2 * ((a % b : Nat) / (b : ℚ)) := by
      rw [← mul_div_assoc, div_lt_div_iff₀ (by positivity) hb0, one_mul]
      have hlt : b < 2 * (a % b) * 2 ^ d := by
        calc b < 2 * 2 ^ d := by rw [Nat.mul_comm, ← Nat.pow_succ]; exact hd
          _ ≤ 2 * (a % b) * 2 ^ d := Nat.mul_le_mul_right _ (by omega)
      exact_mod_cast hlt
    rw [hnext, div_eq_add_mod h0]
    linarith

/-- The ceiling of a rounded quotient is the ceiling of the quotient. -/
theorem ceil_div {a b : Nat} (h : Nearest p (a / b) y) (h0 : 0 < b) (ha : a < 2 ^ p)
    (hb : b < 2 ^ p) : ⌈y⌉₊ = (a + (b - 1)) / b := by
  have hb0 : (0 : ℚ) < b := by exact_mod_cast h0
  have hdiv := Nat.div_add_mod a b
  have hmod := Nat.mod_lt a h0
  rcases Nat.eq_zero_or_pos (a % b) with hr | hr
  · have hx : (a : ℚ) / b = (a / b : Nat) := by
      rw [div_eq_add_mod h0, hr, Nat.cast_zero, zero_div, add_zero]
    rw [hx] at h
    rw [h.eq_of_mem (natCast_mem_binary (Nat.lt_of_le_of_lt (Nat.div_le_self a b) ha)),
      Nat.ceil_natCast]
    refine (Nat.div_eq_of_lt_le ?_ ?_).symm
    · rw [Nat.mul_comm]
      omega
    · rw [Nat.mul_comm, Nat.mul_add]
      omega
  · have hlow := h.lt_of_mod_pos h0 ha hb hr
    have hhigh : y ≤ (a / b + 1 : Nat) := by
      refine h.le_of_le (natCast_mem_binary ?_) ?_
      · have hle : a / b + 1 ≤ a := by nlinarith
        exact Nat.lt_of_le_of_lt hle ha
      · rw [div_le_iff₀ hb0]
        have hle : a ≤ (a / b + 1) * b := by nlinarith
        exact_mod_cast hle
    have hceil : ⌈y⌉₊ = a / b + 1 := by
      rw [Nat.ceil_eq_iff (Nat.succ_ne_zero _), Nat.succ_sub_one]
      exact ⟨hlow, hhigh⟩
    rw [hceil]
    refine (Nat.div_eq_of_lt_le ?_ ?_).symm
    · rw [Nat.mul_comm, Nat.mul_add]
      omega
    · rw [Nat.mul_comm, Nat.mul_add, Nat.mul_add]
      omega

end Nearest

end Cocaine.Framework
