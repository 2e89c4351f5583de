import Mathlib.Data.List.Basic

/-!
# Lexicographic comparison by a predicate

`std::lexicographical_compare` takes the comparison of the elements as an argument. A
list that ends first is less, whatever the comparison is: comparing by the reversed order
is not the reverse of the comparison. `split_cases` says how two lists can relate, and
the lemmas of `StrictTotal` what the comparison gives then.
-/

namespace Cocaine.Framework

variable {α : Type}

def lexicographicalCompare (lt : α → α → Bool) : List α → List α → Bool
  | _, [] => false
  | [], _ :: _ => true
  | x :: xs, y :: ys =>
    if lt x y then true
    else if lt y x then false
    else lexicographicalCompare lt xs ys

/-- Of two elements that differ exactly one is less. -/
structure StrictTotal (lt : α → α → Bool) : Prop where
  asymm : ∀ x y, lt x y = true → lt y x = false
  total : ∀ x y, x ≠ y → lt x y = true ∨ lt y x = true

namespace StrictTotal

variable {lt : α → α → Bool}

theorem irrefl (h : StrictTotal lt) (x : α) : lt x x = false := by
  by_contra hx
  rw [Bool.not_eq_false] at hx
  have := h.asymm x x hx
  rw [hx] at this
  cases this

theorem reversed (h : StrictTotal lt) : StrictTotal fun x y => lt y x :=
  ⟨fun x y hxy => h.asymm y x hxy, fun x y hne => h.total y x (Ne.symm hne)⟩

theorem eq_not (h : StrictTotal lt) {x y : α} (hne : x ≠ y) : lt y x = !lt x y := by
  rcases h.total x y hne with hxy | hyx
  · rw [hxy, h.asymm x y hxy]
    rfl
  · rw [hyx, h.asymm y x hyx]
    rfl

/-- The comparison skips what both lists begin with. -/
theorem compare_append (h : StrictTotal lt) (p s t : List α) :
    lexicographicalCompare lt (p ++ s) (p ++ t) = lexicographicalCompare lt s t := by
  induction p with
  | nil => rfl
  | cons x p ih =>
    rw [List.cons_append, List.cons_append, lexicographicalCompare, h.irrefl x]
    exact ih

/-- The list that ends first is less. -/
theorem compare_shorter (h : StrictTotal lt) (p : List α) (x : α) (s : List α) :
    lexicographicalCompare lt p (p ++ x :: s) = true := by
  have hskip := h.compare_append p [] (x :: s)
  rw [List.append_nil] at hskip
  exact hskip

theorem compare_longer (h : StrictTotal lt) (p s : List α) :
    lexicographicalCompare lt (p ++ s) p = false := by
  have hskip := h.compare_append p s []
  rw [List.append_nil] at hskip
  rw [hskip, lexicographicalCompare]

theorem compare_self (h : StrictTotal lt) (l : List α) :
    lexicographicalCompare lt l l = false := by
  have hlonger := h.compare_longer l []
  rwa [List.append_nil] at hlonger

/-- The first elements that differ decide. -/
theorem compare_of_ne (h : StrictTotal lt) {x y : α} (hne : x ≠ y) (p s t : List α) :
    lexicographicalCompare lt (p ++ x :: s) (p ++ y :: t) = lt x y := by
  rw [h.compare_append, lexicographicalCompare, h.eq_not hne]
  cases lt x y <;> rfl

end StrictTotal

/-- How two lists relate: they are equal, one goes on where the other ends, or they part. -/
inductive Split : List α → List α → Prop where
  | same (l : List α) : Split l l
  | shorter (p : List α) (x : α) (s : List α) : Split p (p ++ x :: s)
  | longer (p : List α) (x : α) (s : List α) : Split (p ++ x :: s) p
  | parts (p : List α) {x y : α} (s t : List α) : x ≠ y → Split (p ++ x :: s) (p ++ y :: t)

theorem Split.cons (x : α) {l l' : List α} (h : Split l l') : Split (x :: l) (x :: l') := by
  cases h with
  | same => exact .same _
  | shorter _ y s => exact .shorter (x :: l) y s
  | longer _ y s => exact .longer (x :: l') y s
  | parts p s t hne => exact .parts (x :: p) s t hne

theorem split_cases [DecidableEq α] (l l' : List α) : Split l l' := by
  induction l generalizing l' with
  | nil =>
    cases l' with
    | nil => exact .same []
    | cons y ys => exact .shorter [] y ys
  | cons x xs ih =>
    cases l' with
    | nil => exact .longer [] x xs
    | cons y ys =>
      by_cases hxy : x = y
      · subst hxy
        exact (ih ys).cons x
      · exact .parts [] xs ys hxy

end Cocaine.Framework
