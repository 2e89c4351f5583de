import CocainePlugins.Logging.Cleanup
import CocainePlugins.Logging.Semantics

/-!
# The life of a filter

A filter is set with a time to live and stored with its deadline, the sum of that and of the time,
in 64 bits. Applying a metafilter, the cleanup, and a filter that comes from unicorn compare the
deadline with the clock. So the filter lives as long as it should, unless the sum is too large:
then it has expired when it is set. A filter of the cluster lives from when it has come back.
-/

namespace Cocaine.Logging

open Framework

/-! ## Filters that stay -/

namespace Metafilter

variable {φ : Type} {info : FilterInfo φ} {now : Nat}

/-- The operation leaves the filter where it is. -/
def Keeps (info : FilterInfo φ) (f : Metafilter φ → Metafilter φ) : Prop :=
  ∀ m, info ∈ m.filters → info ∈ (f m).filters

theorem keeps_addFilter (other : FilterInfo φ) : Keeps info (·.addFilter other) := by
  intro m h
  simp only [addFilter]
  split
  · exact h
  · exact List.mem_append_left _ h

theorem keeps_removeFilter {id : Nat} (hid : id ≠ info.id) :
    Keeps info fun m => (m.removeFilter id).1 := by
  intro m h
  simp only [removeFilter]
  split
  · exact (List.mem_eraseP_of_neg (by simpa using hid.symm)).mpr h
  · exact h

theorem keeps_cleanup (hnow : now ≤ info.deadline) : Keeps info (·.cleanup now) := by
  intro m h
  simp only [filters_cleanup]
  exact List.mem_filter.mpr ⟨h, decide_eq_true hnow⟩

theorem keeps_apply (hnow : now ≤ info.deadline) (accepts : φ → Bool) :
    Keeps info fun m => (m.apply now accepts).1 := by
  intro m h
  simp only [apply]
  split
  · exact keeps_cleanup hnow m h
  · exact h

theorem mem_addFilter {m : Metafilter φ} (hnew : ∀ x ∈ m.filters, x.id ≠ info.id) :
    info ∈ (m.addFilter info).filters := by
  have hany : ¬ m.hasFilter info.id = true := by simpa [hasFilter] using hnew
  rw [addFilter, if_neg hany]
  exact List.mem_append_right _ List.mem_cons_self

end Metafilter

namespace Service

variable {φ : Type} {applies : φ → LogRecord → Bool} {s t u : Service φ}
  {info : FilterInfo φ} {ref : Nat}

/-! ## The metafilters that the tree points to -/

def InHeap (s : Service φ) : Prop :=
  ∀ key ref, s.metafilters.lookup key = some ref → ref < s.heap.length

namespace InHeap

theorem modify (h : InHeap s) (ref : Nat) (f : Metafilter φ → Metafilter φ) :
    InHeap (s.modify ref f) := by
  intro key ref' hl
  simp only [Service.modify, List.length_modify]
  exact h key ref' hl

theorem getMetafilter (h : InHeap s) (name : Str) :
    InHeap (s.getMetafilter name).1 ∧
      (s.getMetafilter name).2 < (s.getMetafilter name).1.heap.length := by
  unfold Service.getMetafilter
  cases hname : s.metafilters.lookup name with
  | some ref => exact ⟨h, h name ref hname⟩
  | none =>
    refine ⟨fun key ref hl => ?_, by simp⟩
    rw [List.length_append, List.length_singleton]
    by_cases hkey : key = name
    · rw [hkey, AList.lookup_insert, Option.some.injEq] at hl
      omega
    · rw [AList.lookup_insert_ne hkey] at hl
      exact Nat.lt_succ_of_lt (h key ref hl)

theorem add (h : InHeap s) (info : FilterInfo φ) : InHeap (s.add info) :=
  (h.getMetafilter info.loggerName).1.modify _ _

theorem findMetafilter (h : InHeap s) (name : Str) : InHeap (s.findMetafilter name).1 := by
  rw [findMetafilter_eq]
  exact (h.getMetafilter _).1

theorem cleanup (h : InHeap s) : InHeap s.cleanup := by
  have hfold : InHeap (s.metafilters.entries.foldl (fun s e => s.modify e.2 (·.cleanup s.now)) s) :=
    List.foldlRecOn _ _ h fun s hs e _ => hs.modify e.2 _
  intro key ref hl
  simp only [Service.cleanup, lookup_eraseAll] at hl ⊢
  split at hl
  · cases hl
  · exact hfold key ref hl

theorem removeLocalFilter (h : InHeap s) {id : Nat} {first : Option Str}
    (hs : s.removeLocalFilter id first = some t) : InHeap t := by
  obtain rfl | ⟨ref, rfl⟩ := removeLocalFilter_cases hs
  · exact h
  · exact h.modify _ _

theorem step {a : Label φ} (h : InHeap s) (hs : s.step applies a = some t) : InHeap t := by
  cases a with
  | tick seconds => cases hs; exact h
  | setFilter name filter ttl id disposition =>
    cases hs
    cases disposition with
    | localOnly => exact h.add _
    | cluster => exact h
  | clusterFilter value =>
    cases hs
    obtain heq | ⟨info, heq⟩ := onFilter_cases value
    · rwa [heq]
    · rw [heq]
      exact h.add info
  | removeFilter id first => exact h.removeLocalFilter hs
  | cleanup => cases hs; exact h.cleanup
  | get name => cases hs; exact h.findMetafilter name
  | emit name r => cases hs; exact (h.findMetafilter name).modify _ _
  | log i r =>
    obtain ⟨l, -, rfl⟩ := Option.map_eq_some_iff.mp hs
    exact h.modify _ _
  | core r => cases hs; exact h.modify _ _

theorem init (now : Nat) (config : List (φ × Nat)) : InHeap (Service.init now config) := by
  have hempty : InHeap ({ now } : Service φ) := fun key ref hl => by simp at hl
  have hconfig := List.foldlRecOn (motive := InHeap) config
    (fun s f => s.modify (Service.getMetafilter ({ now } : Service φ) defaultKey).2
      (·.addFilter (defaultFilter f.1 f.2)))
    (hempty.getMetafilter defaultKey).1 fun s hs f _ => hs.modify _ _
  exact (hconfig.getMetafilter coreKey).1.cleanup

theorem of_reachable (hr : (loggingSystem applies).Reachable System.Any s) : InHeap s := by
  refine hr.induct (P := InHeap) ?_ fun h _ hs => h.step hs
  rintro s ⟨now, config, rfl⟩
  exact init now config

end InHeap

/-! ## A filter that is stored -/

/-- The metafilter of its name has the filter. -/
def Stored (info : FilterInfo φ) (s : Service φ) : Prop :=
  ∃ ref, s.metafilters.lookup info.loggerName = some ref ∧ info ∈ (s.metafilter ref).filters

namespace Stored

theorem modify (h : Stored info s) {f : Metafilter φ → Metafilter φ} (hf : Metafilter.Keeps info f)
    (ref : Nat) : Stored info (s.modify ref f) := by
  obtain ⟨ref', hl, hmem⟩ := h
  refine ⟨ref', hl, ?_⟩
  unfold metafilter at hmem ⊢
  cases hm : s.heap[ref']? with
  | none => simp [hm] at hmem
  | some m =>
    rw [hm, Option.getD_some] at hmem
    by_cases href : ref = ref'
    · simpa [Service.modify, List.getElem?_modify, href, hm] using hf m hmem
    · simpa [Service.modify, List.getElem?_modify, href, hm] using hmem

theorem getMetafilter (h : Stored info s) (name : Str) : Stored info (s.getMetafilter name).1 := by
  unfold Service.getMetafilter
  cases hname : s.metafilters.lookup name with
  | some ref => exact h
  | none =>
    obtain ⟨ref, hl, hmem⟩ := h
    have hne : info.loggerName ≠ name := by
      rintro he
      rw [he, hname] at hl
      cases hl
    refine ⟨ref, (AList.lookup_insert_ne hne).trans hl, ?_⟩
    unfold metafilter at hmem ⊢
    cases hm : s.heap[ref]? with
    | none => simp [hm] at hmem
    | some m =>
      rw [hm] at hmem
      rw [List.getElem?_append_left (List.getElem?_eq_some_iff.mp hm).1, hm]
      exact hmem

theorem findMetafilter (h : Stored info s) (name : Str) : Stored info (s.findMetafilter name).1 := by
  rw [findMetafilter_eq]
  exact h.getMetafilter _

theorem add (h : Stored info s) (other : FilterInfo φ) : Stored info (s.add other) :=
  (h.getMetafilter other.loggerName).modify (Metafilter.keeps_addFilter other) _

/-- A metafilter with a filter that has not expired is not erased. -/
theorem cleanup (h : Stored info s) (hnow : s.now ≤ info.deadline) : Stored info s.cleanup := by
  have hfold : Stored info (s.metafilters.entries.foldl (fun s e => s.modify e.2 (·.cleanup s.now)) s) ∧
      (s.metafilters.entries.foldl (fun s e => s.modify e.2 (·.cleanup s.now)) s).now = s.now :=
    List.foldlRecOn (motive := fun t => Stored info t ∧ t.now = s.now) _ _ ⟨h, rfl⟩
      fun t ht e _ => ⟨ht.1.modify (Metafilter.keeps_cleanup (ht.2 ▸ hnow)) e.2, ht.2⟩
  obtain ⟨ref, hl, hmem⟩ := hfold.1
  refine ⟨ref, ?_, hmem⟩
  simp only [Service.cleanup, lookup_eraseAll]
  rw [if_neg]
  · exact hl
  · intro herased
    obtain ⟨⟨key, ref'⟩, he, rfl⟩ := List.mem_map.mp herased
    rw [List.mem_filter, Bool.and_eq_true] at he
    have hsame : ref' = ref := Option.some.inj ((AList.mem_lookup_iff.mpr he.1).symm.trans hl)
    subst hsame
    rw [List.isEmpty_iff.mp he.2.1] at hmem
    cases hmem

theorem removeLocalFilter (h : Stored info s) {id : Nat} (hid : id ≠ info.id) {first : Option Str}
    (hs : s.removeLocalFilter id first = some t) : Stored info t := by
  obtain rfl | ⟨ref, rfl⟩ := removeLocalFilter_cases hs
  · exact h
  · exact h.modify (Metafilter.keeps_removeFilter hid) _

theorem of_add (h : InHeap s)
    (hnew : ∀ ref, s.metafilters.lookup info.loggerName = some ref →
      ∀ x ∈ (s.metafilter ref).filters, x.id ≠ info.id) : Stored info (s.add info) := by
  obtain ⟨-, hlt⟩ := h.getMetafilter info.loggerName
  have hlookup : (s.getMetafilter info.loggerName).1.metafilters.lookup info.loggerName =
      some (s.getMetafilter info.loggerName).2 := by
    unfold Service.getMetafilter
    cases hname : s.metafilters.lookup info.loggerName with
    | some ref => exact hname
    | none => exact AList.lookup_insert _
  have hfresh : ∀ x ∈ ((s.getMetafilter info.loggerName).1.metafilter
      (s.getMetafilter info.loggerName).2).filters, x.id ≠ info.id := by
    unfold Service.getMetafilter
    cases hname : s.metafilters.lookup info.loggerName with
    | some ref => exact hnew ref hname
    | none => simp [metafilter]
  refine ⟨_, hlookup, ?_⟩
  have hget := List.getElem?_eq_getElem hlt
  unfold metafilter at hfresh ⊢
  rw [hget, Option.getD_some] at hfresh
  simpa [Service.add, Service.modify, List.getElem?_modify, hget] using Metafilter.mem_addFilter hfresh

end Stored

/-- The filter is not removed by its id. -/
def Unremoved (id : Nat) (_ : Service φ) : Label φ → Prop
  | .removeFilter id' _ => id' ≠ id
  | .tick _ | .setFilter _ _ _ _ _ | .clusterFilter _ | .cleanup | .get _ | .emit _ _ | .log _ _
  | .core _ => True

instance (id : Nat) (s : Service φ) (a : Label φ) : Decidable (Unremoved id s a) := by
  unfold Unremoved
  split <;> infer_instance

theorem now_getMetafilter (name : Str) : (s.getMetafilter name).1.now = s.now := by
  unfold getMetafilter
  split <;> rfl

theorem now_findMetafilter (name : Str) : (s.findMetafilter name).1.now = s.now := by
  rw [findMetafilter_eq, now_getMetafilter]

theorem now_add : (s.add info).now = s.now := now_getMetafilter info.loggerName

theorem now_setFilter (name : Str) (filter : φ) (ttl id : Nat) (disposition : Disposition) :
    (s.setFilter name filter ttl id disposition).now = s.now := by
  cases disposition with
  | localOnly => exact now_add
  | cluster => rfl

theorem now_onFilter (value : Option (FilterInfo φ)) : (s.onFilter value).now = s.now := by
  obtain heq | ⟨info, heq⟩ := onFilter_cases (s := s) value
  · rw [heq]
  · rw [heq, now_add]

theorem now_cleanup : s.cleanup.now = s.now :=
  List.foldlRecOn (motive := fun t : Service φ => t.now = s.now) _ _ rfl fun _ h _ _ => h

theorem now_step {a : Label φ} (hs : s.step applies a = some t) : s.now ≤ t.now := by
  cases a with
  | tick seconds => cases hs; exact Nat.le_add_right _ _
  | setFilter name filter ttl id disposition => cases hs; exact (now_setFilter ..).ge
  | clusterFilter value => cases hs; exact (now_onFilter value).ge
  | removeFilter id first =>
    obtain rfl | ⟨ref, rfl⟩ := removeLocalFilter_cases hs
    · exact Nat.le_refl _
    · exact Nat.le_refl _
  | cleanup => cases hs; exact now_cleanup.ge
  | get name => cases hs; exact (now_findMetafilter name).ge
  | emit name r => cases hs; exact (now_findMetafilter name).ge
  | log i r =>
    obtain ⟨l, -, rfl⟩ := Option.map_eq_some_iff.mp hs
    exact Nat.le_refl _
  | core r => cases hs; exact Nat.le_refl _

theorem Stored.step {a : Label φ} (h : Stored info s) (hnow : t.now ≤ info.deadline)
    (hok : Unremoved info.id s a) (hs : s.step applies a = some t) : Stored info t := by
  have hbefore : s.now ≤ info.deadline := (now_step hs).trans hnow
  cases a with
  | tick seconds => cases hs; exact h
  | setFilter name filter ttl id disposition =>
    cases hs
    cases disposition with
    | localOnly => exact h.add _
    | cluster => exact h
  | clusterFilter value =>
    cases hs
    obtain heq | ⟨other, heq⟩ := onFilter_cases value
    · rwa [heq]
    · rw [heq]
      exact h.add other
  | removeFilter id first => exact h.removeLocalFilter hok hs
  | cleanup => cases hs; exact h.cleanup hbefore
  | get name => cases hs; exact h.findMetafilter name
  | emit name r =>
    cases hs
    exact (h.findMetafilter name).modify
      (Metafilter.keeps_apply ((now_findMetafilter name).trans_le hbefore) _) _
  | log i r =>
    obtain ⟨l, -, rfl⟩ := Option.map_eq_some_iff.mp hs
    exact h.modify (Metafilter.keeps_apply hbefore _) _
  | core r => cases hs; exact h.modify (Metafilter.keeps_apply hbefore _) _

/-- A stored filter stays as long as the clock has not passed its deadline. -/
theorem Stored.path (h : Stored info s)
    (hp : (loggingSystem applies).Path (Unremoved info.id) s u) (hnow : u.now ≤ info.deadline) :
    Stored info u := by
  refine hp.induct (P := fun u => u.now ≤ info.deadline → Stored info u) (fun _ => h) ?_ hnow
  intro s a t ih hok hs hnow
  exact (ih ((now_step hs).trans hnow)).step hnow hok hs

/-! ## The time to live -/

/-- The filter is in the metafilter of its name and has not expired, so that a record is accepted
if the filter accepts it. -/
def TakesPart (applies : φ → LogRecord → Bool) (info : FilterInfo φ) (s : Service φ) : Prop :=
  ∃ ref, s.metafilters.lookup info.loggerName = some ref ∧ info ∈ (s.metafilter ref).filters ∧
    info.expired s.now = false ∧
    ∀ r, applies info.filter r = true → s.decision applies ref r = true

theorem Stored.takesPart (h : Stored info s) (hnow : s.now ≤ info.deadline) :
    TakesPart applies info s := by
  obtain ⟨ref, hl, hmem⟩ := h
  refine ⟨ref, hl, hmem, decide_eq_false (Nat.not_lt.mpr hnow), fun r hr => ?_⟩
  exact Metafilter.accepted_iff.mpr ⟨info, hmem, hnow, hr⟩

def NewId (s : Service φ) (name : Str) (id : Nat) : Prop :=
  ∀ ref, s.metafilters.lookup name = some ref → ∀ x ∈ (s.metafilter ref).filters, x.id ≠ id

/-- A deadline that wraps around has passed already. -/
theorem expired_of_wrap {t ttl : Nat} (httl : ttl < 2 ^ 64) (ht : t < 2 ^ 64)
    (hwrap : 2 ^ 64 ≤ t + ttl) : (t + ttl) % 2 ^ 64 < t := by
  omega

/-- From the state with the filter on, whoever has added it. -/
theorem takesPart_iff (info : FilterInfo φ) {t ttl : Nat} (ht : t < 2 ^ 64) (httl : ttl < 2 ^ 64)
    (hdeadline : info.deadline = (t + ttl) % 2 ^ 64) (hstart : t ≤ s.now) (hend : s.now ≤ t + ttl)
    (hstored : t + ttl < 2 ^ 64 → Stored info s) :
    (∀ u, (loggingSystem applies).Path (Unremoved info.id) s u → u.now ≤ t + ttl →
      TakesPart applies info u) ↔ t + ttl < 2 ^ 64 := by
  constructor
  · intro h
    by_contra hwrap
    obtain ⟨-, -, -, hexp, -⟩ := h s .refl hend
    have hlt := expired_of_wrap httl ht (Nat.not_lt.mp hwrap)
    rw [FilterInfo.expired, hdeadline, decide_eq_false_iff_not] at hexp
    omega
  · intro hlt u hp hnow
    have hu : u.now ≤ info.deadline := by rwa [hdeadline, Nat.mod_eq_of_lt hlt]
    exact ((hstored hlt).path hp hu).takesPart hu

/-- A filter takes part from when it is set until the end of its time to live exactly if it is set
here alone and its deadline is a number of 64 bits. A filter of the cluster takes part from when it
is read from unicorn on, exactly if its deadline is such a number; if it is read too late, nothing
happens. -/
theorem filter_lives_iff (name : Str) (filter : φ) (t ttl id : Nat) (ht : t < 2 ^ 64)
    (httl : ttl < 2 ^ 64) :
    (∀ disposition s, (loggingSystem applies).Reachable System.Any s → s.now = t →
      s.NewId name id →
      ((∀ u, (loggingSystem applies).Path (Unremoved id)
          (s.setFilter name filter ttl id disposition) u → u.now ≤ t + ttl →
        TakesPart applies ⟨filter, (t + ttl) % 2 ^ 64, id, disposition, name⟩ u) ↔
      disposition = .localOnly ∧ t + ttl < 2 ^ 64)) ∧
    ∀ s, (loggingSystem applies).Reachable System.Any s → t ≤ s.now → s.NewId name id →
      let info : FilterInfo φ := ⟨filter, (t + ttl) % 2 ^ 64, id, .cluster, name⟩
      (s.now ≤ t + ttl →
        ((∀ u, (loggingSystem applies).Path (Unremoved id) (s.onFilter (some info)) u →
            u.now ≤ t + ttl → TakesPart applies info u) ↔ t + ttl < 2 ^ 64)) ∧
      (t + ttl < s.now → s.onFilter (some info) = s) := by
  constructor
  · rintro disposition s hr rfl hnew
    have hnow : (s.setFilter name filter ttl id disposition).now = s.now := now_setFilter ..
    cases disposition with
    | localOnly =>
      rw [eq_self, true_and]
      exact takesPart_iff ⟨filter, (s.now + ttl) % 2 ^ 64, id, .localOnly, name⟩ ht httl rfl
        hnow.ge (hnow.le.trans (Nat.le_add_right _ _)) fun _ => .of_add (.of_reachable hr) hnew
    | cluster =>
      refine ⟨fun h => ?_, fun h => by cases h.1⟩
      -- Right after the call the metafilter is the one before, which has no filter of that id.
      obtain ⟨ref, hl, hmem, -, -⟩ := h _ .refl (hnow.le.trans (Nat.le_add_right _ _))
      exact absurd rfl (hnew ref hl _ hmem)
  · intro s hr hstart hnew info
    have hnow : (s.onFilter (some info)).now = s.now := now_onFilter _
    refine ⟨fun hend => ?_, fun hlate => if_pos (decide_eq_true ?_)⟩
    · refine takesPart_iff info ht httl rfl (hnow.ge.trans' hstart) (hnow.le.trans hend) fun hlt => ?_
      have hdeadline : info.deadline = t + ttl := Nat.mod_eq_of_lt hlt
      have hexp : ¬ info.expired s.now = true := by
        rw [FilterInfo.expired, decide_eq_true_eq, hdeadline]
        exact Nat.not_lt.mpr hend
      rw [onFilter, if_neg hexp]
      exact .of_add (.of_reachable hr) hnew
    · exact (Nat.mod_le _ _).trans_lt hlate

/-- A filter is set for a minute; after half of it the metafilters are cleaned up. -/
theorem filter_lives_minute : ∃ s u, (loggingSystem accepts).Reachable System.Any s ∧
    (loggingSystem accepts).Path (Unremoved 8)
      (s.setFilter "app".toList (.severity 0) 60 8 .localOnly) u ∧
    u.now = s.now + 30 ∧
    TakesPart accepts ⟨.severity 0, s.now + 60, 8, .localOnly, "app".toList⟩ u := by
  obtain ⟨s, hr, hstart, hnone, u, hrun, hnow⟩ :=
    (loggingSystem accepts).exists_reachable System.Any
      (P := fun s => s.now = 100 ∧ s.metafilters.lookup "app".toList = none ∧
        ∃ u ∈ (loggingSystem accepts).run (Unremoved 8)
          (s.setFilter "app".toList (.severity 0) 60 8 .localOnly) [.tick 30, .cleanup], u.now = 130)
      [] ⟨100, [(.severity 2, 7)], rfl⟩ (by decide +kernel)
  have hnew : s.NewId "app".toList 8 := by
    intro ref hl
    rw [hnone] at hl
    cases hl
  have hlives := ((filter_lives_iff "app".toList (.severity 0) 100 60 8 (by decide) (by decide)).1
    .localOnly s hr hstart hnew).mpr ⟨rfl, by decide⟩
  have hp := System.Path.of_run _ hrun
  refine ⟨s, u, hr, hp, by rw [hstart, hnow], ?_⟩
  rw [hstart]
  exact hlives u hp (by omega)

/-- With the largest time to live the filter has expired at once, here and in the cluster. With a
minute, that of the cluster is not used until it has come back. -/
theorem filter_dies_early : ∃ s, (loggingSystem accepts).Reachable System.Any s ∧
    (s.setFilter "app".toList (.severity 0) 60 8 .localOnly).direct accepts "app".toList
      ⟨0, [], false⟩ = true ∧
    (s.setFilter "app".toList (.severity 0) (2 ^ 64 - 1) 8 .localOnly).direct accepts "app".toList
      ⟨0, [], false⟩ = false ∧
    (let t := s.setFilter "app".toList (.severity 0) 60 8 .cluster
     t.direct accepts "app".toList ⟨0, [], false⟩ = false ∧
      (t.onFilter t.created.head?).direct accepts "app".toList ⟨0, [], false⟩ = true) ∧
    (let t := s.setFilter "app".toList (.severity 0) (2 ^ 64 - 1) 8 .cluster
     (t.onFilter t.created.head?).direct accepts "app".toList ⟨0, [], false⟩ = false) :=
  (loggingSystem accepts).exists_reachable System.Any [] ⟨100, [(.severity 2, 7)], rfl⟩
    (by decide +kernel)

end Service
end Cocaine.Logging
