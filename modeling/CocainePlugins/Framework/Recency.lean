import Mathlib.Data.List.Nodup

/-!
# The most recently used ones

Of a history of uses, newest first, `distinct` keeps the last use of each element and `recent n`
the first `n` of those. One more use can be added to what was kept, without the rest of the
history (`recent_cons`): so a cache of `n` elements that puts each used one in front and drops the
last one keeps exactly the `n` most recently used elements of all its history.
-/

namespace Cocaine.Framework

variable {α : Type} [DecidableEq α]

def distinct : List α → List α
  | [] => []
  | a :: uses => a :: (distinct uses).erase a

def recent (n : Nat) (uses : List α) : List α := (distinct uses).take n

theorem length_recent_le (n : Nat) (uses : List α) : (recent n uses).length ≤ n :=
  List.length_take_le n _

theorem take_erase (a : α) (l : List α) (n : Nat) :
    (l.erase a).take n = ((l.take (n + 1)).erase a).take n := by
  induction l generalizing n with
  | nil => simp
  | cons b l ih =>
    by_cases hb : b = a
    · subst hb
      simp [List.take_take]
    · have hne : ¬ (b == a) = true := by simpa using hb
      rw [List.erase_cons_tail hne, List.take_succ_cons, List.erase_cons_tail hne]
      cases n with
      | zero => rfl
      | succ n => rw [List.take_succ_cons, List.take_succ_cons, ih]

theorem recent_cons (n : Nat) (a : α) (uses : List α) :
    recent n (a :: uses) = (a :: (recent n uses).erase a).take n := by
  cases n with
  | zero => rfl
  | succ n =>
    rw [recent, distinct, List.take_succ_cons, List.take_succ_cons, take_erase, recent]

/-- The use of one that is kept drops none. -/
theorem recent_cons_of_mem {n : Nat} {a : α} {uses : List α} (h : a ∈ recent n uses) :
    recent n (a :: uses) = a :: (recent n uses).erase a := by
  rw [recent_cons]
  refine List.take_of_length_le ?_
  have hpos : 0 < (recent n uses).length := List.length_pos_of_mem h
  have hle := length_recent_le n uses
  rw [List.length_cons, List.length_erase_of_mem h]
  omega

end Cocaine.Framework
