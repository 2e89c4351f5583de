import CocainePlugins.Logging.Named

/-!
# Cleaning up

The cleanup erases the metafilters without filters, but for that of the core. Such a metafilter
decides nothing itself: the records of its loggers go to the default one. But it stands in front of
the metafilters with shorter names, and these get the records once it is erased. So the cleanup
changes what is logged if the longest one that is left accepts other records than the default one.
-/

namespace Cocaine.Logging

open Framework

namespace Service

variable {φ : Type} {applies : φ → LogRecord → Bool} {s : Service φ} {name key : Str} {ref : Nat}

/-- No stored filter is past its deadline. -/
def Unexpired (s : Service φ) : Prop :=
  ∀ e ∈ s.metafilters.entries, ∀ info ∈ (s.metafilter e.2).filters, info.expired s.now = false

instance : Decidable s.Unexpired :=
  inferInstanceAs (Decidable (∀ e ∈ s.metafilters.entries,
    ∀ info ∈ (s.metafilter e.2).filters, info.expired s.now = false))

/-- The cleanup does not erase the entry. -/
def kept (s : Service φ) (e : Str × Nat) : Bool := !(s.metafilter e.2).empty || e.1 == coreKey

/-- The longest match, once the empty metafilters are erased. -/
def longestKept (s : Service φ) (name : Str) : Option (Str × Nat) :=
  name.inits.reverse.findSome? fun key => ((s.metafilters.lookup key).map (key, ·)).filter s.kept

/-- What the default metafilter decides; one that is made for it accepts nothing. -/
def defaultDecision (applies : φ → LogRecord → Bool) (s : Service φ) (r : LogRecord) : Bool :=
  match s.metafilters.lookup defaultKey with
  | some ref => s.decision applies ref r
  | none => false

/-! ## What the cleanup leaves -/

theorem metafilter_cleanup_eq {m : Metafilter φ} {now : Nat}
    (h : ∀ info ∈ m.filters, info.expired now = false) : m.cleanup now = m := by
  have hall : ∀ info ∈ m.filters, (!info.expired now) = true := fun info hinfo => by
    rw [h info hinfo, Bool.not_false]
  rw [Metafilter.cleanup, List.filter_eq_self.mpr hall]

theorem modify_eq_self {f : Metafilter φ → Metafilter φ} (h : f (s.metafilter ref) = s.metafilter ref) :
    s.modify ref f = s := by
  have hheap : s.heap.modify ref f = s.heap := by
    refine List.ext_getElem? fun i => ?_
    rw [List.getElem?_modify]
    split
    · subst i
      cases hi : s.heap[ref]? with
      | none => rfl
      | some m => simpa [metafilter, hi] using h
    · simp
  rw [modify, hheap]

/-- Cleaning up metafilters whose filters have not expired changes nothing. -/
theorem foldl_cleanup_eq {es : List (Sigma fun _ : Str => Nat)}
    (h : ∀ e ∈ es, ∀ info ∈ (s.metafilter e.2).filters, info.expired s.now = false) :
    es.foldl (fun s e => s.modify e.2 (·.cleanup s.now)) s = s := by
  induction es with
  | nil => rfl
  | cons e es ih =>
    rw [List.forall_mem_cons] at h
    have hself : s.modify e.2 (·.cleanup s.now) = s := modify_eq_self (metafilter_cleanup_eq h.1)
    rw [List.foldl_cons, hself, ih h.2]

theorem cleanup_eq (h : s.Unexpired) : ∃ metafilters : AList fun _ : Str => Nat,
    s.cleanup = { s with metafilters := metafilters } ∧ ∀ key, metafilters.lookup key =
      (s.metafilters.lookup key).filter fun ref => s.kept (key, ref) := by
  refine ⟨_, by rw [cleanup, foldl_cleanup_eq h], fun key => ?_⟩
  rw [lookup_eraseAll]
  cases hlookup : s.metafilters.lookup key with
  | none => simp
  | some ref =>
    have hmem : (⟨key, ref⟩ : Sigma fun _ : Str => Nat) ∈ s.metafilters.entries :=
      AList.mem_lookup_iff.mp hlookup
    -- The entry is among the erased ones exactly if it is not kept.
    have herased : key ∈ (s.metafilters.entries.filter fun e =>
        (s.metafilter e.2).empty && e.1 != coreKey).map Sigma.fst ↔ s.kept (key, ref) = false := by
      rw [List.mem_map]
      constructor
      · rintro ⟨⟨key', ref'⟩, he, rfl⟩
        rw [List.mem_filter] at he
        have hsame : ref = ref' := by
          rw [AList.mem_lookup_iff.mpr he.1, Option.some.injEq] at hlookup
          exact hlookup.symm
        subst hsame
        simpa [kept, bne_iff_ne] using he.2
      · intro hk
        refine ⟨⟨key, ref⟩, List.mem_filter.mpr ⟨hmem, ?_⟩, rfl⟩
        simpa [kept, bne_iff_ne] using hk
    cases hk : s.kept (key, ref) with
    | true => simp [herased, hk, Option.filter]
    | false => simp [herased, hk, Option.filter]

/-! ## The longest match -/

theorem findSome?_filter {α β : Type} {f : α → Option β} {p : β → Bool} {l : List α} {b : β}
    (h : l.findSome? f = some b) (hp : p b = true) :
    (l.findSome? fun a => (f a).filter p) = some b := by
  induction l with
  | nil => cases h
  | cons a l ih =>
    rw [List.findSome?_cons] at h ⊢
    cases ha : f a with
    | none =>
      rw [ha] at h
      exact ih h
    | some b' =>
      rw [ha] at h
      cases h
      simp [Option.filter, hp]

theorem findSome?_filter_none {α β : Type} {f : α → Option β} (p : β → Bool) {l : List α}
    (h : l.findSome? f = none) : (l.findSome? fun a => (f a).filter p) = none := by
  rw [List.findSome?_eq_none_iff] at h ⊢
  intro a ha
  rw [h a ha]
  rfl

/-! ## What is decided -/

theorem empty_of_not_kept (h : s.kept (key, ref) = false) : (s.metafilter ref).empty = true := by
  simp only [kept, Bool.or_eq_false_iff, Bool.not_eq_false'] at h
  exact h.1

theorem decision_of_empty (h : (s.metafilter ref).empty = true) (r : LogRecord) :
    s.decision applies ref r = false := by
  have hnil : (s.metafilter ref).filters = [] := List.isEmpty_iff.mp h
  rw [decision, Metafilter.apply, hnil]
  rfl

theorem direct_default (r : LogRecord) :
    let p := s.getMetafilter defaultKey
    p.1.decision applies p.2 r = s.defaultDecision applies r := by
  unfold defaultDecision getMetafilter
  cases s.metafilters.lookup defaultKey with
  | some ref => rfl
  | none =>
    refine decision_of_empty ?_ r
    simp [metafilter, Metafilter.empty]

/-- What is decided for a match. -/
def decisionAt (applies : φ → LogRecord → Bool) (s : Service φ) (r : LogRecord) :
    Option (Str × Nat) → Bool
  | some (_, ref) =>
    if (s.metafilter ref).empty then s.defaultDecision applies r else s.decision applies ref r
  | none => s.defaultDecision applies r

theorem direct_eq_decisionAt (r : LogRecord) :
    s.direct applies name r = s.decisionAt applies (r.withSource name) (s.longestMatch name) := by
  unfold direct findMetafilter decisionAt
  cases s.longestMatch name with
  | none => exact direct_default _
  | some e =>
    obtain ⟨key, ref⟩ := e
    by_cases he : (s.metafilter ref).empty = true
    · simp only [he, if_true]
      exact direct_default _
    · simp only [he, if_false, Bool.false_eq_true]

theorem longestMatch_cleanup (h : s.Unexpired) : s.cleanup.longestMatch name = s.longestKept name := by
  obtain ⟨metafilters, hcleanup, hlookup⟩ := cleanup_eq h
  rw [hcleanup]
  unfold longestMatch longestKept
  congr 1
  funext key
  simp only [hlookup key]
  cases s.metafilters.lookup key with
  | none => rfl
  | some ref => cases hk : s.kept (key, ref) <;> simp [Option.filter, hk]

theorem decision_cleanup (h : s.Unexpired) (ref : Nat) (r : LogRecord) :
    s.cleanup.decision applies ref r = s.decision applies ref r := by
  obtain ⟨metafilters, hcleanup, -⟩ := cleanup_eq h
  rw [hcleanup]
  rfl

theorem metafilter_cleanup (h : s.Unexpired) (ref : Nat) :
    s.cleanup.metafilter ref = s.metafilter ref := by
  obtain ⟨metafilters, hcleanup, -⟩ := cleanup_eq h
  rw [hcleanup]
  rfl

theorem defaultDecision_cleanup (h : s.Unexpired) (r : LogRecord) :
    s.cleanup.defaultDecision applies r = s.defaultDecision applies r := by
  have hdecision : ∀ ref, s.cleanup.decision applies ref r = s.decision applies ref r :=
    fun ref => decision_cleanup h ref r
  obtain ⟨metafilters, hcleanup, hlookup⟩ := cleanup_eq h
  have hkey : s.cleanup.metafilters.lookup defaultKey =
      (s.metafilters.lookup defaultKey).filter fun ref => s.kept (defaultKey, ref) := by
    rw [hcleanup]
    exact hlookup defaultKey
  unfold defaultDecision
  rw [hkey]
  cases s.metafilters.lookup defaultKey with
  | none => rfl
  | some ref =>
    cases hk : s.kept (defaultKey, ref) with
    | true => simp [Option.filter, hk, hdecision]
    | false =>
      have he : (s.metafilter ref).empty = true := empty_of_not_kept hk
      simp [Option.filter, hk, decision_of_empty he]

/-- If the longest match is empty and is to be erased, the metafilter with filters behind it
accepts the same records as the default one. -/
def SameBehind (applies : φ → LogRecord → Bool) (s : Service φ) (name : Str) : Prop :=
  ∀ key ref key' ref', s.longestMatch name = some (key, ref) → s.kept (key, ref) = false →
    s.longestKept name = some (key', ref') → (s.metafilter ref').empty = false →
    ∀ r : LogRecord, s.decision applies ref' (r.withSource name) =
      s.defaultDecision applies (r.withSource name)

theorem direct_cleanup (h : s.Unexpired) (r : LogRecord) :
    s.cleanup.direct applies name r =
      s.decisionAt applies (r.withSource name) (s.longestKept name) := by
  rw [direct_eq_decisionAt, longestMatch_cleanup h]
  unfold decisionAt
  simp only [metafilter_cleanup h, decision_cleanup h, defaultDecision_cleanup h]

/-- As long as no filter expires, the cleanup changes no decision about the records of a logger
exactly if what is behind an erased metafilter accepts what the default one does. -/
theorem cleanup_invisible_iff (h : s.Unexpired) :
    (∀ r, s.cleanup.direct applies name r = s.direct applies name r) ↔ s.SameBehind applies name := by
  simp only [direct_cleanup h, direct_eq_decisionAt]
  constructor
  · intro hall key ref key' ref' hmatch hk hkept he' r
    have he : (s.metafilter ref).empty = true := empty_of_not_kept hk
    have hr := hall r
    rw [hmatch, hkept] at hr
    simpa [decisionAt, he, he'] using hr
  · intro hsame r
    cases hmatch : s.longestMatch name with
    | none =>
      have hnone : s.longestKept name = none := findSome?_filter_none s.kept hmatch
      rw [hnone]
    | some e =>
      obtain ⟨key, ref⟩ := e
      cases hk : s.kept (key, ref) with
      | true =>
        have hsome : s.longestKept name = some (key, ref) := findSome?_filter hmatch hk
        rw [hsome]
      | false =>
        -- The records went to the default metafilter; now they go to the next match, if there is one.
        simp only [decisionAt, empty_of_not_kept hk, if_true]
        split
        · rename_i key' ref' hkept
          split
          · rfl
          · rename_i he'
            exact hsame key ref key' ref' hmatch hk hkept (Bool.eq_false_iff.mpr he') r
        · rfl

/-- The metafilters of `app` and `app/x`, of which the second has lost its filters, and the default
one with the same filter as the first. -/
def twoApps : Service Filter where
  now := 100
  heap := [{ filters := [⟨.severity 3, 200, 1, .localOnly, defaultKey⟩] },
    { filters := [⟨.severity 3, 200, 2, .localOnly, "app".toList⟩] }, {}]
  metafilters := (((∅ : AList fun _ : Str => Nat).insert defaultKey 0).insert "app".toList 1).insert
    "app/x".toList 2

theorem cleanup_invisible_two_apps : twoApps.Unexpired ∧
    twoApps.longestMatch "app/x/y".toList = some ("app/x".toList, 2) ∧
    twoApps.cleanup.longestMatch "app/x/y".toList = some ("app".toList, 1) ∧
    ∀ r, twoApps.cleanup.direct accepts "app/x/y".toList r =
      twoApps.direct accepts "app/x/y".toList r := by
  have hun : twoApps.Unexpired := by decide +kernel
  refine ⟨hun, by decide +kernel, by decide +kernel, (cleanup_invisible_iff hun).mpr ?_⟩
  intro key ref key' ref' _ _ hkept _ r
  have hbehind : twoApps.longestKept "app/x/y".toList = some ("app".toList, 1) := by decide +kernel
  rw [hbehind] at hkept
  cases hkept
  rfl

/-- The filter of `app/x` is removed. Its records go to the default metafilter, which rejects what
that of `app` accepts, until the cleanup. -/
theorem cleanup_visible : ∃ s, (loggingSystem accepts).Reachable System.Any s ∧
    s.Unexpired ∧ s.direct accepts "app/x".toList ⟨0, [], false⟩ = false ∧
    s.cleanup.direct accepts "app/x".toList ⟨0, [], false⟩ = true :=
  (loggingSystem accepts).exists_reachable System.Any
    [.setFilter "app".toList (.severity 0) 60 8 .localOnly,
      .setFilter "app/x".toList (.severity 0) 60 9 .localOnly,
      .removeFilter 9 (some "app/x".toList)] ⟨100, [(.severity 2, 7)], rfl⟩ (by decide +kernel)

end Service
end Cocaine.Logging
