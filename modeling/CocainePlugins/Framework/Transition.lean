import Mathlib.Logic.Basic

/-!
# Transition systems and their runs

A system gives its initial states and, for each label, at most one next state;
everything the environment decides is in the label. `Path ok s t` is a run from
`s` to `t` whose every step meets `ok` in the state before it, so the runs of
the whole system are those with `ok` always true. `Reachable.induct` is the
invariant rule, `Path.induct` the rule for what a run keeps from its first
state on, and `Path.of_run` and
`exists_reachable` make a run from an evaluated list of labels.
-/

namespace Cocaine.Framework

structure System (σ α : Type) where
  init : σ → Prop
  step : σ → α → Option σ

namespace System

variable {σ α : Type} (S : System σ α)

/-- `t` is reached from `s` by steps that all meet `ok`. -/
inductive Path (ok : σ → α → Prop) (s : σ) : σ → Prop where
  | refl : Path ok s s
  | tail {t u : σ} {a : α} : Path ok s t → ok t a → S.step t a = some u → Path ok s u

/-- `s` is reached from an initial state by steps that all meet `ok`. -/
def Reachable (ok : σ → α → Prop) (s : σ) : Prop := ∃ s₀, S.init s₀ ∧ S.Path ok s₀ s

/-- The condition that every step meets. -/
def Any : σ → α → Prop := fun _ _ => True

variable {S} {ok ok' : σ → α → Prop} {s t u : σ}

theorem Path.trans (h₁ : S.Path ok s t) (h₂ : S.Path ok t u) : S.Path ok s u := by
  induction h₂ with
  | refl => exact h₁
  | tail _ hok hs ih => exact .tail ih hok hs

theorem Path.mono (h : ∀ s a, ok s a → ok' s a) (hp : S.Path ok s t) : S.Path ok' s t := by
  induction hp with
  | refl => exact .refl
  | tail _ hok hs ih => exact .tail ih (h _ _ hok) hs

theorem Path.induct {P : σ → Prop} (hp : S.Path ok s t) (h0 : P s)
    (hs : ∀ {s a t}, P s → ok s a → S.step s a = some t → P t) : P t := by
  induction hp with
  | refl => exact h0
  | tail _ hok hst ih => exact hs ih hok hst

theorem Reachable.tail {a : α} (hr : S.Reachable ok s) (hok : ok s a) (hs : S.step s a = some t) :
    S.Reachable ok t := by
  obtain ⟨s₀, hi, hp⟩ := hr
  exact ⟨s₀, hi, hp.tail hok hs⟩

theorem Reachable.mono (h : ∀ s a, ok s a → ok' s a) (hr : S.Reachable ok s) :
    S.Reachable ok' s := by
  obtain ⟨s₀, hi, hp⟩ := hr
  exact ⟨s₀, hi, hp.mono h⟩

theorem Reachable.any (hr : S.Reachable ok s) : S.Reachable Any s := hr.mono fun _ _ _ => trivial

/-- What holds initially and is kept by every step that meets `ok` holds of
every state such steps reach. -/
theorem Reachable.induct {P : σ → Prop} (hr : S.Reachable ok s) (h0 : ∀ {s}, S.init s → P s)
    (hs : ∀ {s a t}, P s → ok s a → S.step s a = some t → P t) : P s := by
  obtain ⟨s₀, hi, hp⟩ := hr
  exact hp.induct (h0 hi) hs

/-! ## Evaluated runs -/

instance : Decidable (Any s (a : α)) := inferInstanceAs (Decidable True)

variable (S) (ok) [∀ s a, Decidable (ok s a)]

/-- The state after the labels `as`, if each of them is enabled and meets `ok`. -/
def run (s : σ) : List α → Option σ
  | [] => some s
  | a :: as => if ok s a then (S.step s a).bind fun t => run t as else none

variable {S} {ok}

theorem Path.of_run (as : List α) (hr : S.run ok s as = some t) : S.Path ok s t := by
  induction as generalizing s with
  | nil =>
    simp only [run, Option.some.injEq] at hr
    exact hr ▸ .refl
  | cons a as ih =>
    simp only [run] at hr
    split at hr
    · rename_i hc
      obtain ⟨v, hv, hr⟩ := Option.bind_eq_some_iff.mp hr
      exact (Path.refl.tail hc hv).trans (ih hr)
    · cases hr

theorem Reachable.of_run (as : List α) (hi : S.init s) (hr : S.run ok s as = some t) :
    S.Reachable ok t :=
  ⟨s, hi, .of_run as hr⟩

variable (S) (ok) in
/-- A reachable state with a property, by evaluation. -/
theorem exists_reachable {P : σ → Prop} (as : List α) (hi : S.init s)
    (h : ∃ t ∈ S.run ok s as, P t) : ∃ t, S.Reachable ok t ∧ P t := by
  obtain ⟨t, ht, hP⟩ := h
  exact ⟨t, .of_run as hi ht, hP⟩

end System

/-- A step that is only enabled under a condition. -/
theorem of_guard {σ : Type} {p : Prop} [Decidable p] {s t : σ}
    (h : (if p then some s else none) = some t) : p ∧ s = t := by
  split at h
  · exact ⟨‹p›, Option.some.inj h⟩
  · cases h

end Cocaine.Framework
