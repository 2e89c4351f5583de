import Mathlib.Data.Char
import Mathlib.Data.List.Lex
import Mathlib.Data.List.Sort
import Mathlib.Data.Nat.Digits.Defs

/-!
# Text

Strings as lists of characters: where they are cut at a separator, and how they
write numbers. `padded_lt` says that numbers written with the same number of
digits are ordered as their texts are.
-/

namespace Cocaine.Framework

abbrev Str := List Char

section Cut

variable {α : Type} [DecidableEq α]

def beforeLast (c : α) : List α → Option (List α)
  | [] => none
  | x :: xs =>
    match beforeLast c xs with
    | some ys => some (x :: ys)
    | none => if x = c then some [] else none

def afterLast (c : α) : List α → Option (List α)
  | [] => none
  | x :: xs =>
    match afterLast c xs with
    | some ys => some ys
    | none => if x = c then some xs else none

variable {c : α}

theorem beforeLast_eq_none {l : List α} : beforeLast c l = none ↔ c ∉ l := by
  induction l with
  | nil => simp [beforeLast]
  | cons x xs ih =>
    unfold beforeLast
    split
    · rename_i ys h
      have : c ∈ xs := by
        by_contra hc
        rw [ih.mpr hc] at h
        cases h
      simp [this]
    · rename_i h
      rw [ih] at h
      split
      · simp_all
      · rename_i hx
        simp [h, Ne.symm hx]

theorem beforeLast_append {a b : List α} (hb : c ∉ b) : beforeLast c (a ++ c :: b) = some a := by
  induction a with
  | nil => simp [beforeLast, beforeLast_eq_none.mpr hb]
  | cons x xs ih => simp [beforeLast, ih]

theorem beforeLast_append_of_notMem {b : List α} (hb : c ∉ b) (a : List α) :
    beforeLast c (a ++ b) = beforeLast c a := by
  induction a with
  | nil => exact beforeLast_eq_none.mpr hb
  | cons x xs ih => simp [beforeLast, ih]

theorem afterLast_eq_none {l : List α} (h : c ∉ l) : afterLast c l = none := by
  induction l with
  | nil => rfl
  | cons x xs ih =>
    rw [List.mem_cons, not_or] at h
    simp [afterLast, ih h.2, Ne.symm h.1]

theorem afterLast_append {a b : List α} (hb : c ∉ b) : afterLast c (a ++ c :: b) = some b := by
  induction a with
  | nil => simp [afterLast, afterLast_eq_none hb]
  | cons x xs ih => simp [afterLast, ih]

theorem beforeLast_eq_some {l a : List α} (h : beforeLast c l = some a) :
    ∃ b, c ∉ b ∧ l = a ++ c :: b := by
  induction l generalizing a with
  | nil => cases h
  | cons x xs ih =>
    unfold beforeLast at h
    split at h
    · rename_i ys hys
      cases h
      obtain ⟨b, hb, rfl⟩ := ih hys
      exact ⟨b, hb, rfl⟩
    · rename_i hn
      split at h
      · rename_i hx
        cases h
        exact ⟨xs, beforeLast_eq_none.mp hn, by rw [hx]; rfl⟩
      · cases h

theorem length_of_beforeLast {l a : List α} (h : beforeLast c l = some a) : a.length < l.length := by
  obtain ⟨b, -, rfl⟩ := beforeLast_eq_some h
  simp only [List.length_append, List.length_cons]
  omega

end Cut

/-- The pieces between the runs of separators; `run` says that the text starts
inside such a run. -/
def tokens {α : Type} (sep : α → Bool) (run : Bool) : List α → List (List α)
  | [] => [[]]
  | x :: xs =>
    if sep x then if run then tokens sep true xs else [] :: tokens sep true xs
    else
      match tokens sep false xs with
      | t :: ts => (x :: t) :: ts
      | [] => [[x]]

theorem head_tokens {α : Type} (sep : α → Bool) (l : List α) :
    (tokens sep false l).head? = some (l.takeWhile fun x => !sep x) := by
  induction l with
  | nil => rfl
  | cons x xs ih =>
    rcases hx : sep x with _ | _
    · rcases ht : tokens sep false xs with _ | ⟨t, ts⟩
      · rw [ht] at ih
        cases ih
      · rw [ht] at ih
        simpa [tokens, hx, ht, List.takeWhile_cons] using ih
    · simp [tokens, hx]

/-! ## Numbers -/

def digit (n : Nat) : Char := Char.ofNat ('0'.toNat + n)

theorem digit_lt {a b : Nat} (h : a < b) (hb : b < 10) : digit a < digit b := by
  have : ∀ b < 10, ∀ a < b, digit a < digit b := by decide
  exact this b hb a h

/-- The last `w` digits of a number. -/
def padded : Nat → Nat → Str
  | 0, _ => []
  | w + 1, n => digit (n / 10 ^ w) :: padded w (n % 10 ^ w)

theorem digit_ne_slash (n : Nat) : digit n ≠ '/' := by
  intro h
  have hn : (digit n).toNat = 47 := congrArg Char.toNat h
  have h0 : '0'.toNat = 48 := rfl
  rw [digit, h0] at hn
  by_cases hv : (48 + n).isValidChar
  · have hchar : Char.ofNat (48 + n) = Char.ofNatAux (48 + n) hv := dif_pos hv
    rw [hchar] at hn
    have hsum : 48 + n = 47 := hn
    omega
  · have hchar : Char.ofNat (48 + n) = Char.ofNat 0 := dif_neg hv
    rw [hchar] at hn
    cases hn

theorem slash_notMem_padded (w n : Nat) : '/' ∉ padded w n := by
  induction w generalizing n with
  | zero => simp [padded]
  | succ w ih => simpa [padded, ih] using (digit_ne_slash _).symm

theorem padded_lt {w a b : Nat} (h : a < b) (hb : b < 10 ^ w) : padded w a < padded w b := by
  induction w generalizing a b with
  | zero => omega
  | succ w ih =>
    have hw : 0 < 10 ^ w := Nat.pow_pos (by decide)
    have hb' : b / 10 ^ w < 10 := by
      rw [Nat.div_lt_iff_lt_mul hw]
      rwa [Nat.pow_succ, Nat.mul_comm] at hb
    rcases Nat.lt_or_ge (a / 10 ^ w) (b / 10 ^ w) with hd | hd
    · exact List.cons_lt_cons_iff.mpr (.inl (digit_lt hd hb'))
    · -- The first digits agree, so the rest decides.
      have heq : a / 10 ^ w = b / 10 ^ w := Nat.le_antisymm (Nat.div_le_div_right h.le) hd
      refine List.cons_lt_cons_iff.mpr (.inr ⟨by rw [heq], ih ?_ (Nat.mod_lt _ hw)⟩)
      have ha := Nat.div_add_mod a (10 ^ w)
      have hb := Nat.div_add_mod b (10 ^ w)
      rw [heq] at ha
      omega

end Cocaine.Framework
