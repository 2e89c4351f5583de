import Mathlib.Algebra.GroupWithZero.Nat
import Mathlib.Data.List.AList

/-!
# Sums over the entries of a map

`AList` is a map without an order that its users may rely on. `sumOver f` is the sum of `f` over
its entries and `valueAt f` the term of one key; `sumOver_insert` says how the sum changes with
an entry, and `sumOver_eq` that only the keys where `f` is not zero count.
-/

namespace Cocaine.Framework

theorem lookup_eq_none {α β : Type} [BEq α] [LawfulBEq α] {l : List (α × β)} {a : α} :
    l.lookup a = none ↔ a ∉ l.map Prod.fst := by
  rw [List.lookup_eq_none_iff]
  simp only [bne_iff_ne, List.mem_map, not_exists, not_and]
  exact forall₂_congr fun e _ => ne_comm

theorem lookup_map_values {α β γ : Type} [BEq α] [LawfulBEq α] (g : α → β → γ) (l : List (α × β))
    (a : α) : (l.map fun e => (e.1, g e.1 e.2)).lookup a = (l.lookup a).map (g a) := by
  induction l with
  | nil => rfl
  | cons e l ih =>
    obtain ⟨k, b⟩ := e
    by_cases h : a = k
    · subst h
      simp
    · have hbeq : (a == k) = false := beq_eq_false_iff_ne.mpr h
      simp only [List.map_cons, List.lookup_cons, hbeq, ih]

variable {α : Type} [DecidableEq α] {β : α → Type} (f : ∀ a, β a → Nat)

def sumOver (s : AList β) : Nat := (s.entries.map fun e => f e.1 e.2).sum

/-- The term of a key, which is zero if the key is not there. -/
def valueAt (s : AList β) (a : α) : Nat := ((s.lookup a).map (f a)).getD 0

variable {f} {s : AList β} {a : α}

theorem sum_kerase (l : List (Sigma β)) (a : α) :
    ((l.kerase a).map fun e => f e.1 e.2).sum + ((l.dlookup a).map (f a)).getD 0 =
      (l.map fun e => f e.1 e.2).sum := by
  induction l with
  | nil => rfl
  | cons e l ih =>
    obtain ⟨k, b⟩ := e
    by_cases h : a = k
    · subst h
      simp [Nat.add_comm]
    · rw [List.kerase_cons_ne h, List.dlookup_cons_ne _ _ h, List.map_cons, List.map_cons,
        List.sum_cons, List.sum_cons, ← ih, Nat.add_assoc]

theorem sumOver_erase : sumOver f (s.erase a) + valueAt f s a = sumOver f s :=
  sum_kerase s.entries a

theorem sumOver_insert (b : β a) :
    sumOver f (s.insert a b) + valueAt f s a = sumOver f s + f a b := by
  have hinsert : sumOver f (s.insert a b) = f a b + sumOver f (s.erase a) := by
    simp only [sumOver, AList.entries_insert, List.map_cons, List.sum_cons]
    rfl
  rw [hinsert, Nat.add_assoc, sumOver_erase, Nat.add_comm]

theorem valueAt_erase_of_ne {k : α} (h : k ≠ a) : valueAt f (s.erase a) k = valueAt f s k := by
  rw [valueAt, AList.lookup_erase_ne h, valueAt]

theorem valueAt_insert_of_ne {k : α} (h : k ≠ a) (b : β a) :
    valueAt f (s.insert a b) k = valueAt f s k := by
  rw [valueAt, AList.lookup_insert_ne h, valueAt]

theorem sumOver_eq {l : List α} (hl : l.Nodup) (hzero : ∀ e ∈ s.entries, e.1 ∉ l → f e.1 e.2 = 0) :
    sumOver f s = (l.map (valueAt f s)).sum := by
  induction l generalizing s with
  | nil =>
    refine List.sum_eq_zero_iff_forall_eq_nat.mpr fun n hn => ?_
    obtain ⟨e, he, rfl⟩ := List.mem_map.mp hn
    exact hzero e he List.not_mem_nil
  | cons a l ih =>
    obtain ⟨ha, hl⟩ := List.nodup_cons.mp hl
    have hrest : sumOver f (s.erase a) = (l.map (valueAt f (s.erase a))).sum := by
      refine ih hl fun e he hel => hzero e ((List.kerase_sublist a _).subset he) ?_
      rw [List.mem_cons, not_or]
      refine ⟨?_, hel⟩
      have hkey : e.1 ∈ s.erase a := List.mem_keys_of_mem he
      exact (AList.mem_erase.mp hkey).1
    have hsame : l.map (valueAt f (s.erase a)) = l.map (valueAt f s) :=
      List.map_congr_left fun k hk => valueAt_erase_of_ne fun h => ha (h ▸ hk)
    rw [← sumOver_erase (a := a), hrest, hsame, List.map_cons, List.sum_cons, Nat.add_comm]

end Cocaine.Framework
