import Mathlib.Logic.Function.Basic
import Mathlib.Logic.Relation

/-!
# Streams with one writer

Writers hold streams and write messages to them; a message may be the last one
of its stream. A writer passes its stream on, ends it, or gives it up, and a
stream is first taken under a new name. Then no stream has two writers, and
nothing follows a last message (`Exclusive`), whatever the order of the writes
(`Writes.exclusive`). Names come from `new` only (`Writes.named`).
-/

namespace Cocaine.Framework

/-- Who writes to which stream, and what was written, newest first. -/
structure Board (ω κ μ : Type) where
  holds : ω → Option κ
  wire : List (κ × μ)

namespace Board

variable {ω κ μ : Type} (b : Board ω κ μ)

/-- The stream is held or was written to. -/
def named (k : κ) : Prop := (∃ w, b.holds w = some k) ∨ ∃ m, (k, m) ∈ b.wire

def write (k : κ) (m : μ) : Board ω κ μ := { b with wire := (k, m) :: b.wire }

structure Exclusive (last : μ → Bool) (b : Board ω κ μ) : Prop where
  single : ∀ w w' k, b.holds w = some k → b.holds w' = some k → w = w'
  done : ∀ w k m, (k, m) ∈ b.wire → last m = true → b.holds w ≠ some k
  order : b.wire.Pairwise fun p p' => last p'.2 = true → p.1 ≠ p'.1

section

variable {b} {last : μ → Bool}

theorem Exclusive.say (h : Exclusive last b) {w : ω} {k : κ} (hw : b.holds w = some k) {m : μ}
    (hm : last m = false) : Exclusive last (b.write k m) := by
  refine ⟨h.single, fun v k' m' hm' hl => ?_, ?_⟩
  · rcases List.mem_cons.mp hm' with heq | hm'
    · cases heq
      rw [hm] at hl
      cases hl
    · exact h.done v k' m' hm' hl
  · refine List.pairwise_cons.mpr ⟨fun p hp hl he => ?_, h.order⟩
    exact h.done w p.1 p.2 hp hl (he ▸ hw)

theorem named_write {k k' : κ} {m : μ} (h : (b.write k m).named k') : b.named k' ∨ k' = k := by
  rcases h with hw | ⟨m', hm⟩
  · exact .inl (.inl hw)
  · rcases List.mem_cons.mp hm with heq | hm
    · cases heq
      exact .inr rfl
    · exact .inl (.inr ⟨m', hm⟩)

end

variable [DecidableEq ω]

def give (w : ω) (k : Option κ) : Board ω κ μ := { b with holds := Function.update b.holds w k }

/-- The writes under the messages `last` that end a stream. -/
inductive Write (last : μ → Bool) (new : κ → Prop) : Board ω κ μ → Prop where
  | say {w : ω} {k : κ} {m : μ} (hw : b.holds w = some k) (hm : last m = false) :
    Write last new (b.write k m)
  | finish {w : ω} {k : κ} {m : μ} (hw : b.holds w = some k) :
    Write last new ((b.write k m).give w none)
  | quit {w : ω} : Write last new (b.give w none)
  | pass {w w' : ω} {k : κ} (hw : b.holds w = some k) :
    Write last new ((b.give w none).give w' (some k))
  | join {w : ω} {k : κ} (hk : new k) (hn : ¬b.named k) : Write last new (b.give w (some k))

def Writes (last : μ → Bool) (new : κ → Prop) : Board ω κ μ → Board ω κ μ → Prop :=
  Relation.ReflTransGen fun b => Write b last new

variable {b} {b' : Board ω κ μ} {last : μ → Bool} {new : κ → Prop}

theorem holds_give {w v : ω} {k : Option κ} :
    (b.give w k).holds v = if v = w then k else b.holds v :=
  Function.update_apply _ _ _ _

namespace Exclusive

theorem quit (h : Exclusive last b) (w : ω) : Exclusive last (b.give w none) := by
  have hold : ∀ v k, (b.give w none).holds v = some k → b.holds v = some k := by
    intro v k hv
    rw [holds_give] at hv
    split at hv
    · cases hv
    · exact hv
  exact ⟨fun v v' k hv hv' => h.single v v' k (hold v k hv) (hold v' k hv'),
    fun v k m hm hl hv => h.done v k m hm hl (hold v k hv), h.order⟩

theorem take (h : Exclusive last b) (w : ω) {k : κ} (hf : ∀ v, v ≠ w → b.holds v ≠ some k)
    (ho : ∀ m, (k, m) ∈ b.wire → last m = false) : Exclusive last (b.give w (some k)) := by
  refine ⟨fun v v' k' hv hv' => ?_, fun v k' m hm hl hv => ?_, h.order⟩
  · rw [holds_give] at hv hv'
    split at hv <;> split at hv'
    · rename_i h₁ h₂
      rw [h₁, h₂]
    · rename_i h₁ h₂
      cases hv
      exact absurd hv' (hf v' h₂)
    · rename_i h₁ h₂
      cases hv'
      exact absurd hv (hf v h₁)
    · exact h.single v v' k' hv hv'
  · rw [holds_give] at hv
    split at hv
    · cases hv
      rw [ho m hm] at hl
      cases hl
    · exact h.done v k' m hm hl hv

theorem finish (h : Exclusive last b) {w : ω} {k : κ} (hw : b.holds w = some k) (m : μ) :
    Exclusive last ((b.write k m).give w none) := by
  have hq := h.quit w
  refine ⟨hq.single, fun v k' m' hm' hl hv => ?_, ?_⟩
  · rcases List.mem_cons.mp hm' with heq | hm'
    · -- The writer was the only one, and has given the stream up.
      cases heq
      rw [holds_give] at hv
      split at hv
      · cases hv
      · rename_i hne
        exact hne (h.single v w k hv hw)
    · exact hq.done v k' m' hm' hl hv
  · refine List.pairwise_cons.mpr ⟨fun p hp hl he => ?_, h.order⟩
    exact h.done w p.1 p.2 hp hl (he ▸ hw)

theorem pass (h : Exclusive last b) {w : ω} {k : κ} (hw : b.holds w = some k) (w' : ω) :
    Exclusive last ((b.give w none).give w' (some k)) := by
  refine (h.quit w).take w' (fun v _ hv => ?_) fun m hm => ?_
  · rw [holds_give] at hv
    split at hv
    · cases hv
    · rename_i hne
      exact hne (h.single v w k hv hw)
  · by_contra hl
    exact h.done w k m hm (by simpa using hl) hw

end Exclusive

theorem Write.exclusive (h : Exclusive last b) (hw : Write b last new b') : Exclusive last b' := by
  cases hw with
  | say hw hm => exact h.say hw hm
  | finish hw => exact h.finish hw _
  | quit => exact h.quit _
  | pass hw => exact h.pass hw _
  | join _ hn =>
    exact h.take _ (fun v _ hv => hn (.inl ⟨v, hv⟩)) fun m hm => absurd (.inr ⟨m, hm⟩) hn

theorem named_give {w : ω} {o : Option κ} {k : κ} (h : (b.give w o).named k) :
    b.named k ∨ o = some k := by
  rcases h with ⟨v, hv⟩ | hm
  · rw [holds_give] at hv
    split at hv
    · exact .inr hv
    · exact .inl (.inl ⟨v, hv⟩)
  · exact .inl (.inr hm)

theorem Write.named {k : κ} (hw : Write b last new b') (h : b'.named k) : b.named k ∨ new k := by
  cases hw with
  | @say w k' m hw =>
    rcases named_write h with h | rfl
    · exact .inl h
    · exact .inl (.inl ⟨w, hw⟩)
  | @finish w k' m hw =>
    rcases named_give h with h | h
    · rcases named_write h with h | rfl
      · exact .inl h
      · exact .inl (.inl ⟨w, hw⟩)
    · cases h
  | quit =>
    rcases named_give h with h | h
    · exact .inl h
    · cases h
  | @pass w w' k' hw =>
    rcases named_give h with h | h
    · rcases named_give h with h | h
      · exact .inl h
      · cases h
    · cases h
      exact .inl (.inl ⟨w, hw⟩)
  | join hk =>
    rcases named_give h with h | h
    · exact .inl h
    · cases h
      exact .inr hk

theorem Writes.exclusive (h : Exclusive last b) (hw : Writes last new b b') : Exclusive last b' := by
  induction hw with
  | refl => exact h
  | tail _ hw ih => exact hw.exclusive ih

theorem Writes.named {k : κ} (hw : Writes last new b b') (h : b'.named k) : b.named k ∨ new k := by
  induction hw with
  | refl => exact .inl h
  | tail _ hw ih => exact (hw.named h).elim ih .inr

end Board

end Cocaine.Framework
