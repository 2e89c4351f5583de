import CocainePlugins.Framework.Hub
import CocainePlugins.Framework.Transition
import CocainePlugins.Logging.Metafilter

/-!
# What a metafilter decides

`apply` looks at the clock and goes over the filters; if one of them has expired, it cleans
up afterwards, and looks at the clock again. `metafilter_semantics` says for any sequence
of calls what a metafilter holds, what it accepts and what it has counted.

The counters are those of the metrics hub, which are found by the name of the metafilter. So one
that is made again under its name counts on from where the one before it was.
-/

namespace Cocaine.Logging

open Framework

namespace Metafilter

variable {φ : Type} {m : Metafilter φ} {now : Nat} {accepts : φ → Bool}

/-- `apply`, whose `cleanup` looks at the clock later. -/
def applyLater (m : Metafilter φ) (now later : Nat) (accepts : φ → Bool) : Metafilter φ × Bool :=
  let p := scan now accepts m.filters
  (if p.1 then m.cleanup later else m, p.2)

/-! ## The operations -/

theorem applyLater_self : m.applyLater now now accepts = m.apply now accepts := rfl

/-- The loop of `apply` from any point on. -/
theorem foldl_scan (l : List (FilterInfo φ)) (p : Bool × Bool) :
    l.foldl (fun p info =>
      if info.expired now then (true, p.2)
      else if !p.2 && accepts info.filter then (p.1, true)
      else p) p =
    (p.1 || l.any (·.expired now), p.2 || l.any fun info => !info.expired now && accepts info.filter) := by
  induction l generalizing p with
  | nil => simp
  | cons info l ih =>
    rw [List.foldl_cons, ih]
    obtain ⟨expired, accepted⟩ := p
    rw [List.any_cons, List.any_cons]
    cases info.expired now <;> cases expired <;> cases accepted <;> cases accepts info.filter <;> rfl

theorem scan_eq (l : List (FilterInfo φ)) :
    scan now accepts l =
      (l.any (·.expired now), l.any fun info => !info.expired now && accepts info.filter) := by
  rw [scan, foldl_scan]
  simp

theorem filters_cleanup : (m.cleanup now).filters = m.filters.filter fun info => now ≤ info.deadline := by
  refine List.filter_congr fun info _ => ?_
  simp only [FilterInfo.expired, ← decide_not, Nat.not_lt]

theorem accepted_iff {later : Nat} : (m.applyLater now later accepts).2 = true ↔
    ∃ info ∈ m.filters, now ≤ info.deadline ∧ accepts info.filter = true := by
  simp [applyLater, scan_eq, FilterInfo.expired]

/-- A metafilter holds a filter for each of its ids. -/
def Keyed (m : Metafilter φ) : Prop := (m.filters.map FilterInfo.id).Nodup

theorem Keyed.addFilter (h : Keyed m) (info : FilterInfo φ) : Keyed (m.addFilter info) := by
  unfold Metafilter.addFilter
  split
  · exact h
  · rename_i hany
    have hnew : info.id ∉ m.filters.map FilterInfo.id := by
      rintro hmem
      obtain ⟨info', hmem, hid⟩ := List.mem_map.mp hmem
      exact hany (List.any_eq_true.mpr ⟨info', hmem, decide_eq_true hid⟩)
    simpa [Keyed, List.nodup_append] using ⟨h, fun info' hmem heq =>
      hnew (heq ▸ List.mem_map_of_mem hmem)⟩

theorem Keyed.sublist {m' : Metafilter φ} (h : Keyed m) (hs : m'.filters.Sublist m.filters) : Keyed m' :=
  List.Nodup.sublist (hs.map _) h

theorem Keyed.cleanup (h : Keyed m) (now : Nat) : Keyed (m.cleanup now) :=
  h.sublist (by rw [filters_cleanup]; exact List.filter_sublist)

theorem eraseP_id {l : List (FilterInfo φ)} (h : (l.map FilterInfo.id).Nodup) (id : Nat) :
    l.eraseP (·.id = id) = l.filter fun info => info.id ≠ id := by
  induction l with
  | nil => rfl
  | cons info l ih =>
    obtain ⟨hnew, h⟩ := List.nodup_cons.mp h
    by_cases hid : info.id = id
    · have hall : ∀ info' ∈ l, decide (info'.id ≠ id) = true := by
        intro info' hmem
        refine decide_eq_true fun heq => hnew ?_
        rw [hid, ← heq]
        exact List.mem_map_of_mem hmem
      rw [List.eraseP_cons_of_pos (by simpa using hid), List.filter_cons_of_neg (by simpa using hid),
        List.filter_eq_self.mpr hall]
    · rw [List.eraseP_cons_of_neg (by simpa using hid), List.filter_cons_of_pos (by simpa using hid),
        ih h]

/-- Where each id is there at most once, `remove_filter` leaves those with other ids. -/
theorem Keyed.filters_removeFilter (h : Keyed m) (id : Nat) :
    (m.removeFilter id).1.filters = m.filters.filter fun info => info.id ≠ id := by
  have herase := eraseP_id h id
  unfold removeFilter
  split
  · exact herase
  · rename_i hany
    rw [← herase, List.eraseP_of_forall_not]
    simpa [hasFilter] using hany

theorem removed_iff (id : Nat) : (m.removeFilter id).2 = true ↔ ∃ info ∈ m.filters, info.id = id := by
  unfold removeFilter
  split
  · rename_i hany
    simpa [hasFilter] using hany
  · rename_i hany
    simpa [hasFilter] using hany

theorem Keyed.applyLater (h : Keyed m) (later : Nat) : Keyed (m.applyLater now later accepts).1 := by
  unfold Metafilter.applyLater
  dsimp only
  split
  · exact h.cleanup later
  · exact h

theorem Keyed.removeFilter (h : Keyed m) (id : Nat) : Keyed (m.removeFilter id).1 :=
  h.sublist (by rw [h.filters_removeFilter]; exact List.filter_sublist)

end Metafilter

/-! ## The counters -/

/-- The names of the counters of the accepted or of the rejected records. -/
structure Processed where
  count : Str
  overallCount : Str
  countSinceChange : Str

namespace Processed

def counter (name metric : Str) : Str := "logging.".toList ++ (name ++ '.' :: metric)

/-- Both types count in `overall_count`: its format has no place for the type. -/
def make (name type : Str) : Processed where
  count := counter name (type ++ ".count".toList)
  overallCount := counter name "sum.count".toList
  countSinceChange := counter name (type ++ ".count_since_change".toList)

def increment (p : Processed) (hub : Hub) : Hub :=
  ((hub.fetchAdd p.count 1).fetchAdd p.overallCount 1).fetchAdd p.countSinceChange 1

def onChanged (p : Processed) (hub : Hub) : Hub := hub.store p.countSinceChange 0

end Processed

/-- `accepted` or `rejected` of the metafilter of that name. -/
def processed (name : Str) (accepted : Bool) : Processed :=
  .make name (if accepted then "accepted".toList else "rejected".toList)

section Counters

variable {name : Str} {hub : Hub}

theorem Processed.counter_inj {metric metric' : Str} :
    counter name metric = counter name metric' ↔ metric = metric' := by
  unfold counter
  rw [List.append_cancel_left_eq, List.append_cancel_left_eq, List.cons_inj_right]

theorem count_processed_inj {b b' : Bool} :
    (processed name b).count = (processed name b').count ↔ b = b' := by
  simp only [processed, Processed.make, Processed.counter_inj]
  revert b b'
  decide

theorem count_ne_overallCount (b b' : Bool) :
    (processed name b).count ≠ (processed name b').overallCount := by
  simp only [processed, Processed.make, ne_eq, Processed.counter_inj]
  revert b
  decide

theorem count_ne_countSinceChange (b b' : Bool) :
    (processed name b).count ≠ (processed name b').countSinceChange := by
  simp only [processed, Processed.make, ne_eq, Processed.counter_inj]
  revert b b'
  decide

theorem increment_count (b b' : Bool) :
    (processed name b').increment hub (processed name b).count =
      if b' = b then u64 (hub (processed name b).count + 1) else hub (processed name b).count := by
  simp only [Processed.increment, Hub.fetchAdd]
  rw [Hub.store_of_ne (count_ne_countSinceChange b b'),
    Hub.store_of_ne (count_ne_overallCount b b')]
  by_cases hb : b' = b
  · rw [if_pos hb, hb, Hub.store_self]
  · have hcount : (processed name b).count ≠ (processed name b').count := fun h =>
      hb (count_processed_inj.mp h).symm
    rw [if_neg hb, Hub.store_of_ne hcount]

/-- Both, when the filters have changed. -/
def onChanged (name : Str) (hub : Hub) : Hub :=
  (processed name false).onChanged ((processed name true).onChanged hub)

theorem onChanged_count (b : Bool) :
    onChanged name hub (processed name b).count = hub (processed name b).count := by
  simp only [onChanged, Processed.onChanged]
  rw [Hub.store_of_ne (count_ne_countSinceChange b false),
    Hub.store_of_ne (count_ne_countSinceChange b true)]

end Counters

/-! ## Sequences of calls -/

/-- A metafilter in use, with the metrics hub. -/
structure Use where
  metafilter : Metafilter Filter := {}
  hub : Hub
  now : Nat
  applied : Nat := 0

namespace Use

inductive Call where
  | tick (n : Nat)
  | add (info : FilterInfo Filter)
  | remove (id : Nat)
  /-- The clock goes on by `late` until the cleanup looks at it. -/
  | apply (r : LogRecord) (late : Nat)
  | cleanup
  /-- Someone else, who may be a metafilter of the same name, sets a counter of the hub. -/
  | store (counter : Str) (value : Nat)

section Step

variable (P : Platform) (name : Str) (st : Use)

/-- The hub after the filters have changed, if they have. -/
def hubAfter (changed : Bool) : Hub := if changed then onChanged name st.hub else st.hub

def step : Call → Option Use
  | .tick n => some { st with now := st.now + n }
  | .add info => some
      { st with
        metafilter := st.metafilter.addFilter info
        hub := st.hubAfter name !st.metafilter.hasFilter info.id }
  | .remove id => some
      { st with
        metafilter := (st.metafilter.removeFilter id).1
        hub := st.hubAfter name (st.metafilter.hasFilter id) }
  | .apply r late =>
    let p := Metafilter.scan st.now (Filter.accepts P · r) st.metafilter.filters
    let later := st.now + late
    some
      { metafilter := (st.metafilter.applyLater st.now later (Filter.accepts P · r)).1
        hub := (processed name p.2).increment
          (st.hubAfter name (p.1 && st.metafilter.hasExpired later))
        now := later
        applied := st.applied + 1 }
  | .cleanup => some
      { st with
        metafilter := st.metafilter.cleanup st.now
        hub := st.hubAfter name (st.metafilter.hasExpired st.now) }
  | .store counter value => some { st with hub := st.hub.store counter value }

end Step

/-- Nobody else counts what the metafilter counts. -/
def Alone (name : Str) (_ : Use) : Call → Prop
  | .store counter _ => ∀ b, counter ≠ (processed name b).count
  | .tick _ | .add _ | .remove _ | .apply _ _ | .cleanup => True

instance (name : Str) (st : Use) (a : Call) : Decidable (Alone name st a) := by
  unfold Alone
  split <;> infer_instance

end Use

/-- The metafilter has found the counters of its name, with whatever they have at that time. -/
def useSystem (P : Platform) (name : Str) (hub : Hub) : System Use Use.Call where
  init st := ∃ now, st = { hub := hub, now := now }
  step := Use.step P name

namespace Use

variable {P : Platform} {name : Str} {hub : Hub} {st st' : Use}

theorem keyed_step {a : Call} (h : st.metafilter.Keyed) (hs : st.step P name a = some st') :
    st'.metafilter.Keyed := by
  cases a with
  | tick n => cases hs; exact h
  | add info => cases hs; exact h.addFilter info
  | remove id => cases hs; exact h.removeFilter id
  | apply r late => cases hs; exact h.applyLater _
  | cleanup => cases hs; exact h.cleanup st.now
  | store counter value => cases hs; exact h

theorem keyed_of_reachable (hr : (useSystem P name hub).Reachable System.Any st) :
    st.metafilter.Keyed := by
  refine hr.induct ?_ fun h _ hs => keyed_step h hs
  rintro _ ⟨now, rfl⟩
  exact List.nodup_nil

/-- Each counter has gone on by the records of its type, in 64 bits. -/
def Counted (name : Str) (hub : Hub) (st : Use) : Prop :=
  ∃ records : Bool → Nat, records true + records false = st.applied ∧
    ∀ b, u64 (st.hub (processed name b).count) = u64 (hub (processed name b).count + records b) ∧
      (hub (processed name b).count < 2 ^ 64 → st.hub (processed name b).count < 2 ^ 64)

theorem hubAfter_count (changed b : Bool) :
    st.hubAfter name changed (processed name b).count = st.hub (processed name b).count := by
  cases changed with
  | true => exact onChanged_count b
  | false => rfl

/-- A call of `apply` is counted once, by the decision. -/
theorem Counted.increment (h : Counted name hub st) {before : Hub} (accepted : Bool)
    (hbefore : ∀ b, before (processed name b).count = st.hub (processed name b).count)
    (hhub : st'.hub = (processed name accepted).increment before)
    (happlied : st'.applied = st.applied + 1) : Counted name hub st' := by
  obtain ⟨records, hsum, hcount⟩ := h
  refine ⟨fun b => records b + if accepted = b then 1 else 0, ?_, fun b => ?_⟩
  · cases accepted <;> simp <;> omega
  · obtain ⟨hcount, hlt⟩ := hcount b
    rw [hhub, increment_count, hbefore]
    dsimp only [u64] at hcount ⊢
    split
    · omega
    · exact ⟨hcount, hlt⟩

theorem Counted.step {a : Call} (h : Counted name hub st) (hok : Alone name st a)
    (hs : st.step P name a = some st') : Counted name hub st' := by
  cases a with
  | tick n => cases hs; exact h
  | apply r late =>
    cases hs
    exact h.increment _ (fun b => hubAfter_count _ b) rfl rfl
  | store counter value =>
    cases hs
    obtain ⟨records, hsum, hcount⟩ := h
    refine ⟨records, hsum, fun b => ?_⟩
    dsimp only
    rw [Hub.store_of_ne (hok b).symm]
    exact hcount b
  | add info | remove id | cleanup =>
    cases hs
    obtain ⟨records, hsum, hcount⟩ := h
    refine ⟨records, hsum, fun b => ?_⟩
    dsimp only
    rw [hubAfter_count]
    exact hcount b

theorem Counted.of_reachable (hr : (useSystem P name hub).Reachable (Alone name) st) :
    Counted name hub st := by
  refine hr.induct ?_ fun h hok hs => h.step hok hs
  rintro _ ⟨now, rfl⟩
  exact ⟨fun _ => 0, rfl, fun b => ⟨rfl, id⟩⟩

end Use

/-- After any sequence of calls: no two filters have the same id; a record is accepted if
and only if a filter accepts it whose deadline has not passed, so that the others do not
matter; `cleanup` removes the filters that have expired and `remove_filter` the one with
the id. If nobody else stores its counters, each call of `apply` was counted once, from what the
hub had when the metafilter was made. -/
theorem metafilter_semantics {P : Platform} {name : Str} {hub : Hub} {st : Use}
    (hr : (useSystem P name hub).Reachable System.Any st) :
    (st.metafilter.filters.map FilterInfo.id).Nodup ∧
    (∀ r later, (st.metafilter.applyLater st.now later (Filter.accepts P · r)).2 = true ↔
      ∃ info ∈ st.metafilter.filters, st.now ≤ info.deadline ∧ info.filter.apply P r = .accept) ∧
    (∀ accepts accepts' later later',
      (∀ info ∈ st.metafilter.filters, st.now ≤ info.deadline →
        accepts info.filter = accepts' info.filter) →
      (st.metafilter.applyLater st.now later accepts).2 =
        (st.metafilter.applyLater st.now later' accepts').2) ∧
    (st.metafilter.cleanup st.now).filters =
      st.metafilter.filters.filter (fun info => st.now ≤ info.deadline) ∧
    (∀ id, (st.metafilter.removeFilter id).1.filters =
        st.metafilter.filters.filter (fun info => info.id ≠ id) ∧
      ((st.metafilter.removeFilter id).2 = true ↔
        ∃ info ∈ st.metafilter.filters, info.id = id)) ∧
    ((useSystem P name hub).Reachable (Use.Alone name) st →
      let counted (hub : Hub) := hub (processed name true).count + hub (processed name false).count
      u64 (counted st.hub) = u64 (counted hub + st.applied) ∧
      (counted hub = 0 → st.applied < 2 ^ 64 → counted st.hub = st.applied)) := by
  have hkeyed := Use.keyed_of_reachable hr
  refine ⟨hkeyed, fun r later => ?_, fun accepts accepts' later later' h => ?_,
    Metafilter.filters_cleanup, fun id => ?_, fun halone => ?_⟩
  · rw [Metafilter.accepted_iff]
    simp only [Filter.accepts, decide_eq_true_eq]
  · rw [Bool.eq_iff_iff, Metafilter.accepted_iff, Metafilter.accepted_iff]
    refine exists_congr fun info => and_congr_right fun hmem => and_congr_right fun hdeadline => ?_
    rw [h info hmem hdeadline]
  · exact ⟨hkeyed.filters_removeFilter id, Metafilter.removed_iff id⟩
  · obtain ⟨records, hsum, hcount⟩ := Use.Counted.of_reachable halone
    obtain ⟨haccepted, halt⟩ := hcount true
    obtain ⟨hrejected, hrlt⟩ := hcount false
    dsimp only [u64] at haccepted hrejected ⊢
    constructor <;> omega

/-- A filter that is added under the id of another is ignored; the other one expires while
a record is judged. The counters are new. -/
theorem metafilter_semantics_expiry : ∃ st : Use, st.metafilter.filters.length = 1 ∧
    st.now = 10 ∧ (st.metafilter.filters.map FilterInfo.id).Nodup ∧
    (st.metafilter.cleanup st.now).filters =
      st.metafilter.filters.filter (fun info => 10 ≤ info.deadline) ∧
    st.hub "logging.app.accepted.count".toList + st.hub "logging.app.rejected.count".toList = 2 := by
  obtain ⟨st, hr, hlen, hnow, happlied⟩ :=
    (useSystem x86 "app".toList fun _ => 0).exists_reachable (Use.Alone "app".toList)
    (P := fun st => st.metafilter.filters.length = 1 ∧ st.now = 10 ∧ st.applied = 2)
    [.add ⟨.severity 2, 5, 7, .localOnly, []⟩, .add ⟨.empty, 20, 7, .localOnly, []⟩,
      .apply ⟨3, [], false⟩ 0, .add ⟨.empty, 8, 8, .cluster, []⟩, .tick 7, .apply ⟨3, [], false⟩ 3,
      .add ⟨.traced, 20, 9, .cluster, []⟩] ⟨0, rfl⟩ (by decide +kernel)
  obtain ⟨hnodup, -, -, hcleanup, -, hcount⟩ := metafilter_semantics hr.any
  exact ⟨st, hlen, hnow, hnodup, hnow ▸ hcleanup,
    ((hcount hr).2 rfl (by rw [happlied]; decide)).trans happlied⟩

/-- A metafilter judges a record and is erased, but its counters are kept, by a logger that still has
it or by the hub. The one that is made under its name then judges one record and has counted two. -/
theorem metafilter_counts_on : ∃ st₀ st,
    (useSystem x86 "app".toList fun _ => 0).Reachable (Use.Alone "app".toList) st₀ ∧
    (useSystem x86 "app".toList st₀.hub).Reachable (Use.Alone "app".toList) st ∧ st.applied = 1 ∧
    st.hub "logging.app.accepted.count".toList + st.hub "logging.app.rejected.count".toList = 2 := by
  obtain ⟨st₀, hr₀, st, hrun, happlied, hcount⟩ :=
    (useSystem x86 "app".toList fun _ => 0).exists_reachable (Use.Alone "app".toList)
    (P := fun st₀ => ∃ st ∈ (useSystem x86 "app".toList st₀.hub).run (Use.Alone "app".toList)
        { hub := st₀.hub, now := 8 } [.apply ⟨1, [], false⟩ 0],
      st.applied = 1 ∧ st.hub "logging.app.accepted.count".toList +
        st.hub "logging.app.rejected.count".toList = 2)
    [.add ⟨.severity 2, 5, 7, .localOnly, []⟩, .apply ⟨3, [], false⟩ 0] ⟨0, rfl⟩ (by decide +kernel)
  exact ⟨st₀, st, hr₀, ⟨_, ⟨8, rfl⟩, .of_run _ hrun⟩, happlied, hcount⟩

end Cocaine.Logging
