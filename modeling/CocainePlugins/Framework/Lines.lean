import Mathlib.Data.List.Basic
import CocainePlugins.Framework.Text

/-!
# Lines of a stream, and the last of them

`splitOn_append` says how the split of a list at a separator goes on when the list grows at
its end: only what stands behind the last separator is split again. A `Circular` keeps the
last elements that it was given, as many as it has room for.
-/

namespace Cocaine.Framework

variable {α : Type}

section Split

variable [DecidableEq α] {sep : α}

theorem splitOn_of_not_mem {l : List α} (h : sep ∉ l) : l.splitOn sep = [l] :=
  List.splitOnP_eq_singleton fun x hx => by
    rw [beq_eq_false_iff_ne]
    rintro rfl
    exact h hx

theorem splitOn_line {line : List α} (h : sep ∉ line) (rest : List α) :
    (line ++ sep :: rest).splitOn sep = line :: rest.splitOn sep := by
  have hsplit : (line ++ sep :: rest).splitOn sep = line.splitOn sep ++ rest.splitOn sep :=
    List.splitOnP_append_cons line rest (beq_self_eq_true sep)
  rw [hsplit, splitOn_of_not_mem h]
  rfl

theorem splitOn_append {a : List α} (b : List α) {lines : List (List α)} {tail : List α}
    (h : a.splitOn sep = lines ++ [tail]) :
    (a ++ b).splitOn sep = lines ++ (tail ++ b).splitOn sep := by
  induction hn : a.length using Nat.strongRecOn generalizing a lines with
  | ind n ih =>
    by_cases hmem : sep ∈ a
    · -- the first line stays, and what is behind it is shorter
      obtain ⟨line, rest, rfl, hline⟩ := List.eq_append_cons_of_mem hmem
      rw [splitOn_line hline] at h
      cases lines with
      | nil =>
        obtain ⟨-, hnil⟩ := List.cons.inj h
        exact absurd hnil (List.splitOnP_ne_nil _ rest)
      | cons first lines =>
        obtain ⟨rfl, hrest⟩ := List.cons.inj h
        have hlt : rest.length < n := by
          rw [← hn, List.length_append, List.length_cons]
          omega
        rw [List.append_assoc, List.cons_append, splitOn_line hline, ih _ hlt hrest rfl]
        rfl
    · rw [splitOn_of_not_mem hmem] at h
      obtain ⟨rfl, heq⟩ := List.append_eq_singleton_iff.mp h.symm |>.resolve_right (by simp)
      rw [List.singleton_inj.mp heq]
      rfl

/-- Without runs of separators the pieces are those of `splitOn`; the first one may be empty. -/
theorem tokens_eq_splitOn {l : List α} (h : ∀ part ∈ (l.splitOn sep).tail, part ≠ []) :
    tokens (· == sep) false l = l.splitOn sep := by
  induction l with
  | nil => rfl
  | cons x xs ih =>
    by_cases hx : x = sep
    · subst hx
      have hsplit : (x :: xs).splitOn x = [] :: xs.splitOn x := splitOn_line List.not_mem_nil xs
      rw [hsplit, List.tail_cons] at h
      -- The rest starts with a piece, so it is cut as it would be alone.
      have hrun : tokens (· == x) true xs = tokens (· == x) false xs := by
        cases xs with
        | nil => rfl
        | cons y ys =>
          have hy : y ≠ x := by
            rintro rfl
            have hys : (y :: ys).splitOn y = [] :: ys.splitOn y := splitOn_line List.not_mem_nil ys
            exact h [] (by rw [hys]; exact List.mem_cons_self) rfl
          simp [tokens, hy]
      have hrest : tokens (· == x) false xs = xs.splitOn x :=
        ih fun part hpart => h part (List.mem_of_mem_tail hpart)
      rw [hsplit, ← hrest, ← hrun]
      simp [tokens]
    · have hsplit : (x :: xs).splitOn sep = (xs.splitOn sep).modifyHead (x :: ·) := by
        simp [List.splitOn, List.splitOnP_cons_eq_if_modifyHead, hx]
      rw [hsplit, List.tail_modifyHead] at h
      rw [hsplit, ← ih h]
      simp only [tokens, beq_iff_eq, hx, if_false]
      cases ht : tokens (· == sep) false xs with
      | nil =>
        rw [ih h] at ht
        exact absurd ht (List.splitOnP_ne_nil _ xs)
      | cons t ts => rfl

end Split

@[ext]
structure Circular (α : Type) where
  capacity : Nat
  items : List α := []
  length_le : items.length ≤ capacity := by simp

namespace Circular

/-- A full buffer drops its first element. -/
def pushBack (c : Circular α) (x : α) : Circular α :=
  if h : c.items.length < c.capacity then
    { c with items := c.items ++ [x], length_le := by simpa using Nat.succ_le_of_lt h }
  else
    { c with
      items := (c.items ++ [x]).tail
      length_le := by simpa using c.length_le }

def last (n : Nat) (l : List α) : List α := l.drop (l.length - n)

theorem capacity_pushBack (c : Circular α) (x : α) : (c.pushBack x).capacity = c.capacity := by
  unfold pushBack
  split <;> rfl

theorem items_pushBack_eq (c : Circular α) (x : α) : (c.pushBack x).items =
    if c.items.length < c.capacity then c.items ++ [x] else (c.items ++ [x]).tail := by
  unfold pushBack
  split <;> rfl

theorem items_pushBack {c : Circular α} {l : List α} (h : c.items = last c.capacity l) (x : α) :
    (c.pushBack x).items = last c.capacity (l ++ [x]) := by
  have hlen : c.items.length = min l.length c.capacity := by
    rw [h, last, List.length_drop]
    omega
  rw [items_pushBack_eq]
  split
  · rename_i hroom
    have hall : l.length < c.capacity := by omega
    rw [h, last, last, Nat.sub_eq_zero_of_le (Nat.le_of_lt hall), List.drop_zero, List.length_append,
      List.length_singleton, Nat.sub_eq_zero_of_le hall]
    rfl
  · rename_i hfull
    have hle : c.capacity ≤ l.length := by omega
    have hdrop : (l ++ [x]).length - c.capacity = l.length - c.capacity + 1 := by
      rw [List.length_append, List.length_singleton]
      omega
    rw [h, last, last, hdrop, ← List.tail_drop, List.drop_append_of_le_length (Nat.sub_le ..)]

end Circular

end Cocaine.Framework
