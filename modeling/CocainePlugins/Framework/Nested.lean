import Mathlib.Data.List.Infix
import Mathlib.Data.List.Induction
import Mathlib.Data.List.Perm.Basic
import Mathlib.Logic.Function.Basic

/-!
# Objects in objects

An object has under each key a leaf or another object. `insert` writes a leaf under a path of keys
and makes an object of whatever stands in its way; `find` reads the leaf under a path.

`find_insert` says all that a write does: it is found, and what stood above or below it is not.
So writes whose paths do not lead through each other all stay (`find_insertAll`), in any order
(`insertAll_perm`).
-/

namespace Cocaine.Framework

inductive Nested (κ ν : Type) where
  | leaf (v : ν)
  | object (fields : κ → Option (Nested κ ν))

abbrev Fields (κ ν : Type) := κ → Option (Nested κ ν)

namespace Fields

variable {κ ν : Type}

def empty : Fields κ ν := fun _ => none

/-- The object under a key, which is empty if there is none. -/
def child (o : Fields κ ν) (k : κ) : Fields κ ν :=
  match o k with
  | some (.object f) => f
  | some (.leaf _) | none => empty

section Reading

def find : List κ → Fields κ ν → Option ν
  | [], _ => none
  | [k], o =>
    match o k with
    | some (.leaf v) => some v
    | some (.object _) | none => none
  | k :: l :: ks, o => find (l :: ks) (o.child k)

@[simp] theorem find_empty (q : List κ) : find q (empty : Fields κ ν) = none := by
  induction q with
  | nil => rfl
  | cons k q ih =>
    cases q with
    | nil => rfl
    | cons l q => exact ih

theorem find_congr {o o' : Fields κ ν} {k : κ} (h : o k = o' k) (q : List κ) :
    find (k :: q) o = find (k :: q) o' := by
  cases q with
  | nil => simp only [find, h]
  | cons l q => simp only [find, child, h]

/-- No leaf is below another. -/
theorem find_below {p q : List κ} {o : Fields κ ν} {v w : ν} (hp : find p o = some v)
    (hq : find q o = some w) (h : p <+: q) : p = q := by
  induction p generalizing q o with
  | nil => cases hp
  | cons k p ih =>
    obtain ⟨rest, rfl⟩ := h
    cases p with
    | nil =>
      cases rest with
      | nil => rfl
      | cons l rest =>
        have hchild : o.child k = empty := by
          simp only [find] at hp
          split at hp
          · simp [child, *]
          all_goals cases hp
        rw [List.singleton_append, find, hchild, find_empty] at hq
        cases hq
    | cons l p => exact congrArg (k :: ·) (ih hp hq (List.prefix_append _ _))

end Reading

variable [DecidableEq κ]

def set (o : Fields κ ν) (k : κ) (v : ν) : Fields κ ν := Function.update o k (some (.leaf v))

/-- The operation on the object under a path. -/
def modifyAt (f : Fields κ ν → Fields κ ν) : List κ → Fields κ ν → Fields κ ν
  | [], o => f o
  | k :: ks, o => Function.update o k (some (.object (modifyAt f ks (o.child k))))

def insert : List κ → ν → Fields κ ν → Fields κ ν
  | [], _, o => o
  | [k], v, o => o.set k v
  | k :: l :: ks, v, o => Function.update o k (some (.object (insert (l :: ks) v (o.child k))))

def insertAll (entries : List (List κ × ν)) (o : Fields κ ν) : Fields κ ν :=
  entries.foldl (fun o e => o.insert e.1 e.2) o

/-! ## Objects under their keys -/

variable {o : Fields κ ν} {k l : κ}

@[simp] theorem child_update (f : Fields κ ν) :
    child (Function.update o k (some (.object f))) k = f := by
  simp [child]

theorem child_update_ne (h : l ≠ k) (x : Option (Nested κ ν)) :
    child (Function.update o k x) l = child o l := by
  simp [child, Function.update_of_ne h]

@[simp] theorem child_set (v : ν) : child (o.set k v) k = empty := by
  simp [child, set]

theorem modifyAt_comp (f g : Fields κ ν → Fields κ ν) (ks : List κ) (o : Fields κ ν) :
    modifyAt g ks (modifyAt f ks o) = modifyAt (g ∘ f) ks o := by
  induction ks generalizing o with
  | nil => rfl
  | cons k ks ih => simp only [modifyAt, child_update, ih, Function.update_idem]

theorem modifyAt_set (ks : List κ) (k : κ) (v : ν) (o : Fields κ ν) :
    modifyAt (fun o => o.set k v) ks o = o.insert (ks ++ [k]) v := by
  induction ks generalizing o with
  | nil => rfl
  | cons k' ks ih =>
    rw [modifyAt, ih]
    cases ks with
    | nil | cons l ks => rfl

/-- Several leaves of the object under a path. -/
theorem modifyAt_setAll (ks : List κ) (fields : List (κ × ν)) (hne : fields ≠ []) (o : Fields κ ν) :
    modifyAt (fun o => fields.foldl (fun o f => o.set f.1 f.2) o) ks o =
      o.insertAll (fields.map fun f => (ks ++ [f.1], f.2)) := by
  induction fields using List.reverseRecOn with
  | nil => exact absurd rfl hne
  | append_singleton fields f ih =>
    rw [List.map_append, insertAll, List.foldl_append]
    by_cases hf : fields = []
    · subst hf
      exact modifyAt_set ks f.1 f.2 o
    · have hcomp : (fun o => (fields ++ [f]).foldl (fun o f => o.set f.1 f.2) o) =
          (fun o : Fields κ ν => o.set f.1 f.2) ∘ fun o => fields.foldl (fun o f => o.set f.1 f.2) o := by
        funext o
        simp [List.foldl_append]
      rw [hcomp, ← modifyAt_comp, ih hf, modifyAt_set]
      rfl

/-! ## What a write does -/

/-- What a write puts under the first key of its path. -/
def graft (p : List κ) (v : ν) (child : Fields κ ν) : Nested κ ν :=
  match p with
  | [] => .leaf v
  | l :: ks => .object (insert (l :: ks) v child)

theorem insert_cons (k : κ) (p : List κ) (v : ν) (o : Fields κ ν) :
    o.insert (k :: p) v = Function.update o k (some (graft p v (o.child k))) := by
  cases p with
  | nil | cons l p => rfl

theorem find_insert {p : List κ} (hp : p ≠ []) (v : ν) (q : List κ) (o : Fields κ ν) :
    find q (o.insert p v) =
      if q = p then some v else if q <+: p ∨ p <+: q then none else find q o := by
  induction p generalizing q o with
  | nil => exact absurd rfl hp
  | cons k p ih =>
    cases q with
    | nil => simp [find]
    | cons l q =>
      by_cases hkl : l = k
      · -- Both paths go on under the same key.
        subst hkl
        simp only [List.cons_prefix_cons, true_and, List.cons.injEq]
        cases p with
        | nil =>
          cases q with
          | nil => simp [insert, find, set]
          | cons l' q => simp [insert, find]
        | cons k' p =>
          cases q with
          | nil => simp [insert, find]
          | cons l' q =>
            rw [insert, find, child_update, ih (by simp)]
            rfl
      · have hsame : o.insert (k :: p) v l = o l := by
          rw [insert_cons, Function.update_of_ne hkl]
        rw [find_congr hsame]
        simp [List.cons_prefix_cons, hkl, Ne.symm hkl]

theorem insert_comm {p q : List κ} (hpq : ¬ p <+: q) (hqp : ¬ q <+: p) (v w : ν) (o : Fields κ ν) :
    (o.insert p v).insert q w = (o.insert q w).insert p v := by
  induction p generalizing q o with
  | nil => exact absurd List.nil_prefix hpq
  | cons k p ih =>
    cases q with
    | nil => exact absurd List.nil_prefix hqp
    | cons l q =>
      by_cases hkl : l = k
      · subst hkl
        simp only [List.cons_prefix_cons, true_and] at hpq hqp
        cases p with
        | nil => exact absurd List.nil_prefix hpq
        | cons k' p =>
          cases q with
          | nil => exact absurd List.nil_prefix hqp
          | cons l' q => simp only [insert, child_update, Function.update_idem, ih hpq hqp]
      · rw [insert_cons, insert_cons, insert_cons, insert_cons, child_update_ne hkl,
          child_update_ne (Ne.symm hkl), Function.update_comm (Ne.symm hkl)]

/-! ## Many writes -/

/-- No path leads through another, and what is written under one path is the same. -/
def Separate (entries : List (List κ × ν)) : Prop :=
  ∀ e ∈ entries, ∀ e' ∈ entries, e.1 <+: e'.1 → e = e'

variable {entries entries' : List (List κ × ν)}

/-- What is found is what was written, or what was there before if nothing was written above or
below it. -/
theorem find_insertAll (h : Separate entries) (hne : ∀ e ∈ entries, e.1 ≠ []) (q : List κ) (v : ν)
    (o : Fields κ ν) : find q (o.insertAll entries) = some v ↔ (q, v) ∈ entries ∨
      (∀ e ∈ entries, ¬ (q <+: e.1 ∨ e.1 <+: q)) ∧ find q o = some v := by
  induction entries using List.reverseRecOn with
  | nil => simp [insertAll]
  | append_singleton entries e ih =>
    obtain ⟨p, w⟩ := e
    have hlast : (p, w) ∈ entries ++ [(p, w)] := by simp
    have hstep : o.insertAll (entries ++ [(p, w)]) = (o.insertAll entries).insert p w := by
      rw [insertAll, List.foldl_append]
      rfl
    have hih := ih (fun e he e' he' => h e (List.mem_append_left _ he) e' (List.mem_append_left _ he'))
      fun e he => hne e (List.mem_append_left _ he)
    rw [hstep, find_insert (hne _ hlast)]
    by_cases hqp : q = p
    · subst hqp
      rw [if_pos rfl, Option.some.injEq]
      constructor
      · rintro rfl
        exact .inl hlast
      · rintro (hv | ⟨hun, -⟩)
        · exact (congrArg Prod.snd (h _ hv _ hlast (List.prefix_refl q))).symm
        · exact absurd (.inl (List.prefix_refl q)) (hun _ hlast)
    · rw [if_neg hqp]
      by_cases hrel : q <+: p ∨ p <+: q
      · rw [if_pos hrel]
        refine iff_of_false (by simp) ?_
        rintro (hv | ⟨hun, -⟩)
        · rcases hrel with hrel | hrel
          · exact hqp (congrArg Prod.fst (h _ hv _ hlast hrel))
          · exact hqp (congrArg Prod.fst (h _ hlast _ hv hrel)).symm
        · exact hun _ hlast hrel
      · rw [if_neg hrel, hih]
        have hmem : (q, v) ∈ entries ++ [(p, w)] ↔ (q, v) ∈ entries := by simp [hqp]
        rw [hmem, List.forall_mem_append, List.forall_mem_singleton, and_iff_left hrel]

theorem find_insertAll_of_mem (h : Separate entries) (hne : ∀ e ∈ entries, e.1 ≠ []) {q : List κ}
    {v : ν} (hmem : (q, v) ∈ entries) (o : Fields κ ν) : find q (o.insertAll entries) = some v :=
  (find_insertAll h hne q v o).mpr (.inl hmem)

theorem find_insertAll_empty (h : Separate entries) (hne : ∀ e ∈ entries, e.1 ≠ []) (q : List κ)
    (v : ν) : find q (empty.insertAll entries) = some v ↔ (q, v) ∈ entries := by
  rw [find_insertAll h hne, find_empty]
  simp

/-- The order of the writes does not matter. -/
theorem insertAll_perm (h : Separate entries) (hp : entries.Perm entries') (o : Fields κ ν) :
    o.insertAll entries = o.insertAll entries' := by
  refine hp.foldl_eq' (fun e he e' he' o => ?_) o
  by_cases heq : e = e'
  · rw [heq]
  · exact insert_comm (fun hpre => heq (h e he e' he' hpre))
      (fun hpre => heq (h e' he' e he hpre).symm) e.2 e'.2 o

end Fields
end Cocaine.Framework
