import Mathlib.Data.List.Basic
import Mathlib.Order.Lattice

/-!
# Ordered maps and positions in them

A map is the list of its entries in the order of their keys. A position is an
index in that list, and the size of the map is the position behind its last
entry, at which there is nothing: erasing an entry gives the position of the one
that followed it. `get?` is the map as a function, and says what the operations
do to it.
-/

namespace Cocaine.Framework

structure OrderedMap (κ β : Type) [LT κ] where
  entries : List (κ × β) := []
  sorted : entries.Pairwise (fun a b => a.1 < b.1) := by simp

namespace OrderedMap

variable {κ β : Type} [LinearOrder κ]

section Operations

variable (m : OrderedMap κ β)

def size : Nat := m.entries.length

def item? (pos : Nat) : Option (κ × β) := m.entries[pos]?

/-- The position of a key, or the one behind the last entry. -/
def find (k : κ) : Nat := m.entries.findIdx (fun e => e.1 = k)

/-- What is left without the entry at a position, and the position that follows. -/
def erase (pos : Nat) : OrderedMap κ β × Nat :=
  (⟨m.entries.eraseIdx pos, m.sorted.sublist (List.eraseIdx_sublist ..)⟩, pos)

/-- Puts an entry in its place. -/
def put (k : κ) (v : β) : OrderedMap κ β where
  entries := m.entries.filter (fun e => e.1 < k) ++ (k, v) :: m.entries.filter (fun e => k < e.1)
  sorted := by
    have hlt : ∀ e ∈ m.entries.filter (fun e => e.1 < k), e.1 < k :=
      fun e he => of_decide_eq_true (List.mem_filter.mp he).2
    have hgt : ∀ e ∈ m.entries.filter (fun e => k < e.1), k < e.1 :=
      fun e he => of_decide_eq_true (List.mem_filter.mp he).2
    refine List.pairwise_append.mpr ⟨m.sorted.sublist List.filter_sublist,
      List.pairwise_cons.mpr ⟨hgt, m.sorted.sublist List.filter_sublist⟩, fun a ha b hb => ?_⟩
    rcases List.mem_cons.mp hb with rfl | hb
    · exact hlt a ha
    · exact lt_trans (hlt a ha) (hgt b hb)

def keys : List κ := m.entries.map Prod.fst

def get? (k : κ) : Option β := (m.item? (m.find k)).map Prod.snd

/-- The entry with the least key above `k`. -/
def next (k : κ) : Option (κ × β) := m.entries.find? (fun e => k < e.1)

end Operations

variable {m : OrderedMap κ β} {k : κ} {v : β}

/-- An entry parts the others by their keys. -/
theorem exists_split (h : (k, v) ∈ m.entries) : ∃ l₁ l₂, m.entries = l₁ ++ (k, v) :: l₂ ∧
    (∀ e ∈ l₁, e.1 < k) ∧ ∀ e ∈ l₂, k < e.1 := by
  obtain ⟨l₁, l₂, heq⟩ := List.append_of_mem h
  have hsorted := m.sorted
  rw [heq, List.pairwise_append, List.pairwise_cons] at hsorted
  exact ⟨l₁, l₂, heq, fun e he => hsorted.2.2 e he _ List.mem_cons_self, hsorted.2.1.1⟩

section Split

variable {l₁ l₂ : List (κ × β)} (heq : m.entries = l₁ ++ (k, v) :: l₂)
  (hlt : ∀ e ∈ l₁, e.1 < k)

include heq hlt

theorem find_of_split : m.find k = l₁.length := by
  have hnone : l₁.findIdx (fun e => e.1 = k) = l₁.length :=
    List.findIdx_eq_length_of_false fun e he => decide_eq_false (ne_of_lt (hlt e he))
  rw [find, heq, List.findIdx_append, hnone]
  simp [List.findIdx_cons]

theorem entries_erase : (m.erase (m.find k)).1.entries = l₁ ++ l₂ := by
  show m.entries.eraseIdx (m.find k) = l₁ ++ l₂
  rw [find_of_split heq hlt, heq, List.eraseIdx_append_of_length_le (Nat.le_refl _), Nat.sub_self]
  rfl

end Split

theorem get?_eq_some : m.get? k = some v ↔ (k, v) ∈ m.entries := by
  constructor
  · intro h
    obtain ⟨⟨k', v'⟩, hentry, rfl⟩ := Option.map_eq_some_iff.mp h
    obtain ⟨hlt, hget⟩ := List.getElem?_eq_some_iff.mp hentry
    have hkey : m.entries[m.find k].1 = k := of_decide_eq_true (List.findIdx_getElem (w := hlt))
    rw [hget] at hkey
    exact hkey ▸ hget ▸ List.getElem_mem hlt
  · intro h
    obtain ⟨l₁, l₂, heq, hlt, -⟩ := exists_split h
    rw [get?, item?, find_of_split heq hlt, heq, List.getElem?_append_right (Nat.le_refl _),
      Nat.sub_self]
    rfl

theorem get?_eq_none : m.get? k = none ↔ m.find k = m.size := by
  have hle : m.find k ≤ m.size := List.findIdx_le_length
  rw [get?, Option.map_eq_none_iff, item?, List.getElem?_eq_none_iff]
  exact ⟨fun h => Nat.le_antisymm hle h, fun h => Nat.le_of_eq h.symm⟩

theorem get?_put (k' : κ) : (m.put k v).get? k' = if k' = k then some v else m.get? k' := by
  apply Option.ext
  intro v'
  rw [get?_eq_some, put, List.mem_append, List.mem_cons, List.mem_filter, List.mem_filter]
  rcases lt_trichotomy k' k with hlt | rfl | hgt
  · simp [get?_eq_some, hlt, ne_of_lt hlt, not_lt_of_gt hlt]
  · simp [eq_comm]
  · simp [get?_eq_some, hgt, ne_of_gt hgt, not_lt_of_gt hgt]

theorem sorted_keys : m.keys.Pairwise (· < ·) := List.pairwise_map.mpr m.sorted

theorem mem_keys_put (k' : κ) : k' ∈ (m.put k v).keys ↔ k' = k ∨ k' ∈ m.keys := by
  have hmem : ∀ {m : OrderedMap κ β}, k' ∈ m.keys ↔ ∃ v', m.get? k' = some v' := by
    simp [keys, get?_eq_some]
  rw [hmem, hmem]
  by_cases h : k' = k <;> simp [get?_put, h]

theorem get?_erase (h : (k, v) ∈ m.entries) (k' : κ) :
    (m.erase (m.find k)).1.get? k' = if k' = k then none else m.get? k' := by
  obtain ⟨l₁, l₂, heq, hlt, hgt⟩ := exists_split h
  have hmem : ∀ v', (k', v') ∈ l₁ ++ l₂ ↔ (k', v') ∈ m.entries ∧ k' ≠ k := by
    intro v'
    rw [heq]
    constructor
    · intro hv
      rcases List.mem_append.mp hv with hv | hv
      · exact ⟨List.mem_append_left _ hv, ne_of_lt (hlt _ hv)⟩
      · exact ⟨List.mem_append_right _ (List.mem_cons_of_mem _ hv), ne_of_gt (hgt _ hv)⟩
    · rintro ⟨hv, hne⟩
      simpa [hne] using hv
  apply Option.ext
  intro v'
  rw [get?_eq_some, entries_erase heq hlt, hmem]
  split
  · simp [*]
  · simp [get?_eq_some, *]

/-- Behind an erased key is the next one. -/
theorem item?_erase (h : (k, v) ∈ m.entries) :
    (m.erase (m.find k)).1.item? (m.erase (m.find k)).2 = m.next k := by
  obtain ⟨l₁, l₂, heq, hlt, hgt⟩ := exists_split h
  have hnone : l₁.find? (fun e => k < e.1) = none :=
    List.find?_eq_none.mpr fun e he => by simpa using le_of_lt (hlt e he)
  have hhead : l₂.find? (fun e => k < e.1) = l₂.head? := by
    cases l₂ with
    | nil => rfl
    | cons e l₂ => simp [hgt e List.mem_cons_self]
  have hpos : (m.erase (m.find k)).2 = l₁.length := find_of_split heq hlt
  rw [item?, entries_erase heq hlt, hpos, List.getElem?_append_right (Nat.le_refl _),
    Nat.sub_self, next, heq, List.find?_append, hnone, List.find?_cons_of_neg (by simp), hhead,
    List.head?_eq_getElem?]
  rfl

theorem next_eq_some {e : κ × β} (h : m.next k = some e) : e ∈ m.entries ∧ k < e.1 := by
  unfold next at h
  exact ⟨List.mem_of_find?_eq_some h, by simpa using List.find?_some h⟩

end OrderedMap

end Cocaine.Framework
