import Mathlib.Data.List.Basic

/-!
# Occurrences of an element

`findNth` gives the position of an occurrence that is counted from the start of a list, or from
its end. What stands before the `k`-th occurrence is `beforeNth`; it is the part of the list that
has `k` occurrences and is followed by one more (`beforeNth_eq_some`), so the occurrences before
an occurrence have the same numbers as in the whole list (`beforeNth_beforeNth`), and different
numbers give different parts (`forall_beforeNth_iff`).
-/

namespace Cocaine.Framework

variable {α : Type} [DecidableEq α]

/-- The position of an occurrence of `c`: they are numbered from zero at the start, and from minus
one at the end. -/
def findNth (c : α) (n : Int) (l : List α) : Option Nat :=
  if 0 ≤ n then (l.idxsOf c)[n.toNat]? else (l.idxsOf c).reverse[(-n).toNat - 1]?

/-- What stands before the `k`-th `c`, from zero on. -/
def beforeNth (c : α) (k : Nat) (l : List α) : Option (List α) := (l.idxsOf c)[k]?.map l.take

variable {c : α} {l q r : List α} {k m : Nat}

theorem getElem?_idxsOf_append (q r : List α) :
    ((q ++ c :: r).idxsOf c)[q.count c]? = some q.length := by
  rw [List.idxsOf_append, List.getElem?_append_right (by simp)]
  simp

theorem beforeNth_eq_some : beforeNth c k l = some q ↔ q.count c = k ∧ ∃ r, l = q ++ c :: r := by
  constructor
  · intro h
    obtain ⟨pos, hpos, rfl⟩ := Option.map_eq_some_iff.mp h
    obtain ⟨hk, hget⟩ := List.getElem?_eq_some_iff.mp hpos
    have hlt : pos < l.length := hget ▸ List.getElem_idxsOf_lt hk
    have hc : l[pos] = c := by
      subst hget
      exact List.getElem_getElem_idxsOf_of_lawful hk
    have hsplit : l = l.take pos ++ c :: l.drop (pos + 1) := by
      rw [← hc, ← List.drop_eq_getElem_cons hlt, List.take_append_drop]
    refine ⟨?_, _, hsplit⟩
    -- The number of an occurrence is the count of what stands before it, and positions differ.
    have hcount := getElem?_idxsOf_append (c := c) (l.take pos) (l.drop (pos + 1))
    rw [← hsplit, List.length_take_of_le (Nat.le_of_lt hlt), ← hpos] at hcount
    exact ((List.getElem?_inj hk List.nodup_idxsOf).mp hcount.symm).symm
  · rintro ⟨rfl, r, rfl⟩
    rw [beforeNth, getElem?_idxsOf_append, Option.map_some, List.take_left]

theorem exists_beforeNth : (∃ q, beforeNth c k l = some q) ↔ k < l.count c := by
  rw [← Option.isSome_iff_exists, beforeNth, Option.isSome_map]
  simp

/-- The occurrences before an occurrence are numbered as they are in the list. -/
theorem beforeNth_beforeNth (h : beforeNth c k l = some q) :
    beforeNth c m q = some r ↔ m < k ∧ beforeNth c m l = some r := by
  obtain ⟨hk, t, rfl⟩ := beforeNth_eq_some.mp h
  have hin : ∀ r, beforeNth c m q = some r → m < k ∧ beforeNth c m (q ++ c :: t) = some r := by
    intro r hr
    refine ⟨hk ▸ exists_beforeNth.mp ⟨r, hr⟩, ?_⟩
    obtain ⟨hm, t', rfl⟩ := beforeNth_eq_some.mp hr
    exact beforeNth_eq_some.mpr ⟨hm, _, List.append_assoc _ _ _⟩
  refine ⟨hin r, fun ⟨hmk, hr⟩ => ?_⟩
  obtain ⟨r', hr'⟩ := exists_beforeNth.mpr (hk.symm ▸ hmk)
  rw [(hin r' hr').2, Option.some.injEq] at hr
  exact hr ▸ hr'

theorem length_beforeNth_lt (hq : beforeNth c k l = some q) (hr : beforeNth c m l = some r)
    (h : k < m) : q.length < r.length := by
  obtain ⟨-, t, rfl⟩ := beforeNth_eq_some.mp ((beforeNth_beforeNth hr).mpr ⟨h, hq⟩)
  rw [List.length_append, List.length_cons]
  omega

/-- The parts before two sets of occurrences are the same if the numbers are. -/
theorem forall_beforeNth_iff {P Q : Nat → Prop} : (∀ q, (∃ k, P k ∧ beforeNth c k l = some q) ↔
      ∃ k, Q k ∧ beforeNth c k l = some q) ↔ ∀ k < l.count c, P k ↔ Q k := by
  -- An occurrence is given back by the occurrences before it.
  have hnumber : ∀ {R : Nat → Prop} {k q}, beforeNth c k l = some q →
      ((∃ k, R k ∧ beforeNth c k l = some q) ↔ R k) := by
    intro R k q hq
    refine ⟨fun ⟨k', hk', hq'⟩ => ?_, fun hk => ⟨k, hk, hq⟩⟩
    rwa [← (beforeNth_eq_some.mp hq).1, (beforeNth_eq_some.mp hq').1]
  constructor
  · intro h k hk
    obtain ⟨q, hq⟩ := exists_beforeNth.mpr hk
    exact (hnumber hq).symm.trans ((h q).trans (hnumber hq))
  · intro h q
    constructor
    · rintro ⟨k, hk, hq⟩
      exact ⟨k, (h k (exists_beforeNth.mp ⟨q, hq⟩)).mp hk, hq⟩
    · rintro ⟨k, hk, hq⟩
      exact ⟨k, (h k (exists_beforeNth.mp ⟨q, hq⟩)).mpr hk, hq⟩

/-! ## From the start and from the end -/

theorem take_findNth (n : Nat) : (findNth c n l).map l.take = beforeNth c n l := by
  rw [findNth, if_pos (Int.natCast_nonneg n), Int.toNat_natCast, beforeNth]

theorem take_findNth_neg (hm : 0 < m) :
    (findNth c (-m) l).map l.take = some q ↔ ∃ k, k + m = l.count c ∧ beforeNth c k l = some q := by
  have hneg : ¬ 0 ≤ -(m : Int) := by omega
  rw [findNth, if_neg hneg, Int.neg_neg, Int.toNat_natCast]
  by_cases hle : m ≤ l.count c
  · have hlt : m - 1 < (l.idxsOf c).length := by
      rw [List.length_idxsOf]
      omega
    rw [List.getElem?_reverse hlt, List.length_idxsOf]
    have hindex : l.count c - 1 - (m - 1) = l.count c - m := by omega
    rw [hindex]
    constructor
    · exact fun h => ⟨l.count c - m, Nat.sub_add_cancel hle, h⟩
    · rintro ⟨k, hk, h⟩
      rw [← hk, Nat.add_sub_cancel]
      exact h
  · have hnone : (l.idxsOf c).reverse[m - 1]? = none := by
      rw [List.getElem?_eq_none_iff, List.length_reverse, List.length_idxsOf]
      omega
    rw [hnone]
    refine iff_of_false (by simp) ?_
    rintro ⟨k, hk, -⟩
    omega

end Cocaine.Framework
