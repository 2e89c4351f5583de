import Mathlib.Data.List.Infix
import Mathlib.Data.List.Nodup
import Mathlib.Logic.Function.Basic
import CocainePlugins.Framework.Transition

/-!
# Optimistic updates of a versioned cell

A cell holds a value with the number of its changes, or nothing yet. Any number of
parties each read the cell, compute from what they have read a value to write, if
any, and write it on the condition that the cell is still of the age they have read;
or they give up. The writes that took place follow each other (`After`): each of them
was computed from the value that the one before it had left.
-/

namespace Cocaine.Framework

/-- A version and a value; nothing before the first write. -/
abbrev Cell (ν : Type) := Option (Nat × ν)

namespace Cell

variable {ν : Type} (c : Cell ν)

def value : Option ν := c.map Prod.snd

/-- The version of the next write. -/
def age : Nat :=
  match c with
  | none => 0
  | some (n, _) => n + 1

def put (v : ν) : Cell ν := some (c.age, v)

@[simp] theorem age_put (v : ν) : (c.put v).age = c.age + 1 := rfl

end Cell

/-- How far a party is. -/
inductive Race.Turn (ν : Type) where
  | idle
  | holds (c : Cell ν)
  | done
deriving DecidableEq

structure Race (ι ν : Type) where
  cell : Cell ν
  turn : ι → Race.Turn ν
  /-- The parties whose write took place, the last one first. -/
  applied : List ι := []

namespace Race

inductive Label (ι : Type) where
  | read (i : ι)
  | write (i : ι)
  | quit (i : ι)

variable {ι ν : Type} [DecidableEq ι] (f : ι → Option ν → Option ν)

/-- `f i v` is what the party `i` writes when it has read `v`. -/
def step (s : Race ι ν) : Label ι → Option (Race ι ν)
  | .read i =>
    match s.turn i with
    | .idle => some { s with turn := Function.update s.turn i (.holds s.cell) }
    | _ => none
  | .write i =>
    match s.turn i with
    | .holds c =>
      if c.age = s.cell.age then
        (f i c.value).map fun v =>
          { cell := s.cell.put v
            turn := Function.update s.turn i .done
            applied := i :: s.applied }
      else none
    | _ => none
  | .quit i =>
    match s.turn i with
    | .holds _ | .idle => some { s with turn := Function.update s.turn i .done }
    | .done => none

variable {f} {s : Race ι ν} {i : ι} {c : Cell ν} {v : ν}

theorem step_read (hi : s.turn i = .idle) :
    s.step f (.read i) = some { s with turn := Function.update s.turn i (.holds s.cell) } := by
  simp only [step, hi]

theorem step_write (hi : s.turn i = .holds c) (ha : c.age = s.cell.age) (hv : f i c.value = some v) :
    s.step f (.write i) = some
      { cell := s.cell.put v
        turn := Function.update s.turn i .done
        applied := i :: s.applied } := by
  simp only [step, hi, ha, if_true, hv, Option.map_some]

theorem step_quit (hi : s.turn i ≠ .done) :
    s.step f (.quit i) = some { s with turn := Function.update s.turn i .done } := by
  simp only [step]
  split
  · rfl
  · rfl
  · rename_i hd
    exact absurd hd hi

end Race

/-- The parties around a cell that holds `c₀` at first. -/
def raceSystem {ι ν : Type} [DecidableEq ι] (f : ι → Option ν → Option ν) (c₀ : Cell ν) :
    System (Race ι ν) (Race.Label ι) where
  init s := s = { cell := c₀, turn := fun _ => .idle }
  step := Race.step f

namespace Race

variable {ι ν : Type} {f : ι → Option ν → Option ν} {c₀ : Cell ν}

/-- The cell after the writes of these parties, the last one first. -/
inductive After (f : ι → Option ν → Option ν) (c₀ : Cell ν) : List ι → Cell ν → Prop where
  | nil : After f c₀ [] c₀
  | cons {i : ι} {l : List ι} {c : Cell ν} {v : ν} : After f c₀ l c → f i c.value = some v →
    After f c₀ (i :: l) (c.put v)

namespace After

variable {l l' : List ι} {c c' : Cell ν}

theorem age (h : After f c₀ l c) : c.age = c₀.age + l.length := by
  induction h with
  | nil => rfl
  | cons _ _ ih =>
    rw [Cell.age_put, ih, List.length_cons]
    omega

theorem unique (h : After f c₀ l c) (h' : After f c₀ l c') : c = c' := by
  induction h generalizing c' with
  | nil =>
    cases h'
    rfl
  | cons _ hv ih =>
    cases h' with
    | cons hl hv' =>
      obtain rfl := ih hl
      rw [hv] at hv'
      cases hv'
      rfl

end After

structure Serial (f : ι → Option ν → Option ν) (c₀ : Cell ν) (s : Race ι ν) : Prop where
  after : After f c₀ s.applied s.cell
  /-- What a party has read is what an earlier write had left. -/
  past : ∀ i c, s.turn i = .holds c → ∃ l, l <:+ s.applied ∧ After f c₀ l c
  done : ∀ i ∈ s.applied, s.turn i = .done
  nodup : s.applied.Nodup

section

variable {s : Race ι ν}

/-- What a party has read is still there if the age is the same. -/
theorem Serial.current (h : Serial f c₀ s) {i : ι} {c : Cell ν} (hi : s.turn i = .holds c)
    (ha : c.age = s.cell.age) : c = s.cell := by
  obtain ⟨l, hl, hc⟩ := h.past i c hi
  have hlen : l.length = s.applied.length := by
    have h₁ := hc.age
    have h₂ := h.after.age
    omega
  obtain rfl := hl.eq_of_length hlen
  exact hc.unique h.after

end

variable [DecidableEq ι]

namespace Serial

variable {s t : Race ι ν}

/-- A party whose turn changes, with the cell as it was. -/
theorem turned (h : Serial f c₀ s) {i : ι} (hi : s.turn i ≠ .done) {u : Race.Turn ν}
    (hu : ∀ c, u = .holds c → c = s.cell) :
    Serial f c₀ { s with turn := Function.update s.turn i u } := by
  refine ⟨h.after, ?_, ?_, h.nodup⟩
  · intro j c hj
    by_cases hij : j = i
    · subst hij
      obtain rfl := hu c (by simpa using hj)
      exact ⟨_, List.suffix_refl _, h.after⟩
    · exact h.past j c (by simpa [hij] using hj)
  · intro j hj
    have hd := h.done j hj
    have hij : j ≠ i := by
      rintro rfl
      exact hi hd
    simpa [hij] using hd

theorem step (h : Serial f c₀ s) {a : Label ι} (hs : s.step f a = some t) : Serial f c₀ t := by
  cases a with
  | read i =>
    simp only [Race.step] at hs
    split at hs
    · rename_i hi
      cases hs
      exact h.turned (by simp [hi]) (by simp [eq_comm])
    · cases hs
  | quit i =>
    simp only [Race.step] at hs
    split at hs
    · rename_i hi
      cases hs
      exact h.turned (by simp [hi]) (by simp)
    · rename_i hi
      cases hs
      exact h.turned (by simp [hi]) (by simp)
    · cases hs
  | write i =>
    simp only [Race.step] at hs
    split at hs
    · rename_i c hi
      split at hs
      · rename_i ha
        obtain ⟨v, hv, rfl⟩ := Option.map_eq_some_iff.mp hs
        obtain rfl := h.current hi ha
        refine ⟨h.after.cons hv, ?_, ?_, ?_⟩
        · intro j c hj
          by_cases hij : j = i
          · simp [hij] at hj
          · obtain ⟨l, hl, hc⟩ := h.past j c (by simpa [hij] using hj)
            exact ⟨l, hl.trans (List.suffix_cons _ _), hc⟩
        · intro j hj
          by_cases hij : j = i
          · simp [hij]
          · simpa [hij] using h.done j (by simpa [hij] using hj)
        · refine List.nodup_cons.mpr ⟨fun hm => ?_, h.nodup⟩
          rw [h.done i hm] at hi
          cases hi
      · cases hs
    · cases hs

end Serial

theorem serial {s : Race ι ν} {ok : Race ι ν → Label ι → Prop}
    (h : (raceSystem f c₀).Reachable ok s) : Serial f c₀ s := by
  refine h.induct (P := Serial f c₀) ?_ fun hp _ hs => hp.step hs
  rintro s rfl
  exact ⟨.nil, by simp, by simp, List.nodup_nil⟩

end Race

end Cocaine.Framework
