import Mathlib.Data.List.Sort

/-!
# The union of sorted ranges

`setUnion` merges two sorted ranges and takes an element that is in both of them once, as
`std::set_union` does; of strictly sorted ranges it makes a strictly sorted one
(`sorted_setUnion`) with the elements of both (`mem_setUnion`).
-/

namespace Cocaine.Framework

variable {α : Type} [LinearOrder α]

/-- A step of the merge: `x` is the first element of the one range, and `rest` merges what
follows it with the other range. -/
def setUnionWith (x : α) (rest : List α → List α) : List α → List α
  | [] => x :: rest []
  | y :: ys =>
    if x < y then x :: rest (y :: ys)
    else if y < x then y :: setUnionWith x rest ys
    else x :: rest ys

def setUnion : List α → List α → List α
  | [], ys => ys
  | x :: xs, ys => setUnionWith x (setUnion xs) ys

theorem mem_setUnionWith {x a : α} {xs : List α} {rest : List α → List α}
    (hrest : ∀ ys, a ∈ rest ys ↔ a ∈ xs ∨ a ∈ ys) (ys : List α) :
    a ∈ setUnionWith x rest ys ↔ a ∈ x :: xs ∨ a ∈ ys := by
  induction ys with
  | nil => simp [setUnionWith, hrest]
  | cons y ys ih =>
    simp only [setUnionWith]
    split
    · simp only [List.mem_cons, hrest, or_assoc]
    · split
      · rw [List.mem_cons, ih, List.mem_cons (b := y)]
        exact or_left_comm
      · rename_i hxy hyx
        have heq : x = y := le_antisymm (not_lt.mp hyx) (not_lt.mp hxy)
        rw [heq, List.mem_cons, hrest, List.mem_cons, List.mem_cons]
        exact or_or_distrib_left

theorem mem_setUnion {a : α} (xs ys : List α) : a ∈ setUnion xs ys ↔ a ∈ xs ∨ a ∈ ys := by
  induction xs generalizing ys with
  | nil => simp [setUnion]
  | cons x xs ih => exact mem_setUnionWith ih ys

theorem sorted_cons_setUnion {x : α} {xs ys : List α} (hxs : ∀ a ∈ xs, x < a)
    (hys : ∀ a ∈ ys, x < a) (h : (setUnion xs ys).Pairwise (· < ·)) :
    (x :: setUnion xs ys).Pairwise (· < ·) :=
  List.pairwise_cons.mpr ⟨fun a ha => ((mem_setUnion xs ys).mp ha).elim (hxs a) (hys a), h⟩

theorem lt_of_mem_cons {x y : α} {ys : List α} (hxy : x < y) (hy : ∀ a ∈ ys, y < a) :
    ∀ a ∈ y :: ys, x < a :=
  List.forall_mem_cons.mpr ⟨hxy, fun a ha => hxy.trans (hy a ha)⟩

theorem sorted_setUnion {xs ys : List α} (hxs : xs.Pairwise (· < ·)) (hys : ys.Pairwise (· < ·)) :
    (setUnion xs ys).Pairwise (· < ·) := by
  induction xs generalizing ys with
  | nil => exact hys
  | cons x xs ih =>
    obtain ⟨hx, hxs⟩ := List.pairwise_cons.mp hxs
    show (setUnionWith x (setUnion xs) ys).Pairwise (· < ·)
    induction ys with
    | nil => exact sorted_cons_setUnion hx (List.forall_mem_nil _) (ih hxs .nil)
    | cons y ys ihy =>
      obtain ⟨hy, hys'⟩ := List.pairwise_cons.mp hys
      simp only [setUnionWith]
      split
      · rename_i hxy
        exact sorted_cons_setUnion hx (lt_of_mem_cons hxy hy) (ih hxs hys)
      · split
        · rename_i hyx
          exact sorted_cons_setUnion (lt_of_mem_cons hyx hx) hy (ihy hys')
        · rename_i hxy hyx
          have heq : x = y := le_antisymm (not_lt.mp hyx) (not_lt.mp hxy)
          exact sorted_cons_setUnion hx (heq ▸ hy) (ih hxs hys')

/-- Sorting a range without repetitions makes it strictly sorted. -/
theorem sorted_insertionSort {l : List α} (h : l.Nodup) :
    (l.insertionSort (· ≤ ·)).Pairwise (· < ·) := by
  have hle := List.pairwise_insertionSort (· ≤ ·) l
  have hne := (List.perm_insertionSort (· ≤ ·) l).nodup_iff.mpr h
  exact (hle.and hne).imp fun hab => lt_of_le_of_ne hab.1 hab.2

end Cocaine.Framework
