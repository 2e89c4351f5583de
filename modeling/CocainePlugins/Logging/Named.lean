import Mathlib.Data.List.AList
import Mathlib.Data.List.Infix
import CocainePlugins.Framework.Transition
import CocainePlugins.Logging.Metafilter

/-!
# Named loggers

The logging service keeps its metafilters by the names of loggers, in a tree that finds the
longest name that another one begins with. A record that is emitted goes to the metafilter found
for its logger at that time, or to the default one when that has no filters. A named logger has
looked once, when it was got.

So a named logger goes on with a metafilter that its name does not lead to any more: after a filter
was set for it, or when its metafilter ran out of filters and was erased.
-/

namespace Cocaine.Logging

open Framework

def defaultKey : Str := "default".toList

def coreKey : Str := "core".toList

structure Service (φ : Type) where
  /-- The time, in seconds. -/
  now : Nat
  /-- The metafilters that were ever made; the tree, the loggers and the filter of the core point
  to them. -/
  heap : List (Metafilter φ) := []
  metafilters : AList (fun _ : Str => Nat) := ∅
  /-- The named loggers, with their metafilter. -/
  loggers : List (Str × Nat) := []
  /-- The filters that were given to unicorn to create. -/
  created : List (FilterInfo φ) := []

namespace Service

variable {φ : Type}

section Operations

variable (s : Service φ)

def metafilter (ref : Nat) : Metafilter φ := s.heap[ref]?.getD {}

def modify (ref : Nat) (f : Metafilter φ → Metafilter φ) : Service φ :=
  { s with heap := s.heap.modify ref f }

/-- A stored metafilter, or a new one. -/
def getMetafilter (name : Str) : Service φ × Nat :=
  match s.metafilters.lookup name with
  | some ref => (s, ref)
  | none =>
    ({ s with heap := s.heap ++ [{}], metafilters := s.metafilters.insert name s.heap.length },
      s.heap.length)

/-- The entry with the longest name that `name` begins with. -/
def longestMatch (name : Str) : Option (Str × Nat) :=
  name.inits.reverse.findSome? fun key => (s.metafilters.lookup key).map (key, ·)

def findMetafilter (name : Str) : Service φ × Nat :=
  match s.longestMatch name with
  | some (_, ref) => if (s.metafilter ref).empty then s.getMetafilter defaultKey else (s, ref)
  | none => s.getMetafilter defaultKey

/-- A filter is added to the metafilter that it names. -/
def add (info : FilterInfo φ) : Service φ :=
  let p := s.getMetafilter info.loggerName
  p.1.modify p.2 (·.addFilter info)

/-- A filter of the cluster is only created in unicorn. Each service, this one too, adds it when it
has read it from there. -/
def setFilter (name : Str) (filter : φ) (ttl id : Nat) (disposition : Disposition) : Service φ :=
  let info : FilterInfo φ := ⟨filter, (s.now + ttl) % 2 ^ 64, id, disposition, name⟩
  match disposition with
  | .localOnly => s.add info
  | .cluster => { s with created := s.created ++ [info] }

/-- `on_filter` with what was read from unicorn. If it has expired, or is not a filter at all, it is
removed from there. -/
def onFilter : Option (FilterInfo φ) → Service φ
  | some info => if info.expired s.now then s else s.add info
  | none => s

/-- `remove_local_filter`, which finds the filter in this metafilter first, or in none. -/
def removeLocalFilter (id : Nat) : Option Str → Option (Service φ)
  | none =>
    if s.metafilters.entries.all fun e => !((s.metafilter e.2).removeFilter id).2 then some s
    else none
  | some name =>
    match s.metafilters.lookup name with
    | none => none
    | some ref =>
      if ((s.metafilter ref).removeFilter id).2 then some (s.modify ref fun m => (m.removeFilter id).1)
      else none

/-- The stored metafilters are cleaned up, and those erased that are empty then, but for that of
the core. -/
def cleanup : Service φ :=
  let s := s.metafilters.entries.foldl (fun s e => s.modify e.2 (·.cleanup s.now)) s
  let empty := s.metafilters.entries.filter fun e => (s.metafilter e.2).empty && e.1 != coreKey
  { s with metafilters := empty.foldl (fun m e => m.erase e.1) s.metafilters }

def get (name : Str) : Service φ :=
  let p := s.findMetafilter name
  { p.1 with loggers := p.1.loggers ++ [(name, p.2)] }

end Operations

section Filter

variable (applies : φ → LogRecord → Bool) (s : Service φ)

def decision (ref : Nat) (r : LogRecord) : Bool :=
  ((s.metafilter ref).apply s.now (applies · r)).2

/-- The metafilter is applied, which may remove filters from it. -/
def applied (ref : Nat) (r : LogRecord) : Service φ :=
  s.modify ref fun m => (m.apply s.now (applies · r)).1

/-- The decision of `emit`. -/
def direct (name : Str) (r : LogRecord) : Bool :=
  let p := s.findMetafilter name
  p.1.decision applies p.2 (r.withSource name)

/-- The decision of a named logger. -/
def named (i : Nat) (r : LogRecord) : Option Bool :=
  s.loggers[i]?.map fun l => s.decision applies l.2 (r.withSource l.1)

/-- The metafilter that the filter of the core uses; the constructor has made the default one and
that of the core first. -/
def coreFilter : Nat := if (s.metafilter 1).empty then 0 else 1

inductive Label (φ : Type) where
  | tick (seconds : Nat)
  | setFilter (name : Str) (filter : φ) (ttl id : Nat) (disposition : Disposition)
  /-- The value of a cluster filter, set here or elsewhere, is read from unicorn. -/
  | clusterFilter (value : Option (FilterInfo φ))
  | removeFilter (id : Nat) (first : Option Str)
  | cleanup
  | get (name : Str)
  | emit (name : Str) (r : LogRecord)
  | log (i : Nat) (r : LogRecord)
  /-- The core logs something. -/
  | core (r : LogRecord)

def step : Label φ → Option (Service φ)
  | .tick seconds => some { s with now := s.now + seconds }
  | .setFilter name filter ttl id disposition => some (s.setFilter name filter ttl id disposition)
  | .clusterFilter value => some (s.onFilter value)
  | .removeFilter id first => s.removeLocalFilter id first
  | .cleanup => some s.cleanup
  | .get name => some (s.get name)
  | .emit name r =>
    let p := s.findMetafilter name
    some (p.1.applied applies p.2 (r.withSource name))
  | .log i r => s.loggers[i]?.map fun l => s.applied applies l.2 (r.withSource l.1)
  | .core r => some (s.applied applies s.coreFilter r)

end Filter

/-- The default filters never expire. -/
def defaultFilter (filter : φ) (id : Nat) : FilterInfo φ :=
  ⟨filter, 2 ^ 63 - 1, id, .localOnly, defaultKey⟩

/-- What the constructor makes of the configured default filters. -/
def init (now : Nat) (config : List (φ × Nat)) : Service φ :=
  let p := getMetafilter { now } defaultKey
  let s := config.foldl (fun s f => s.modify p.2 (·.addFilter (defaultFilter f.1 f.2))) p.1
  (s.getMetafilter coreKey).1.cleanup

end Service

def loggingSystem {φ : Type} (applies : φ → LogRecord → Bool) :
    System (Service φ) (Service.Label φ) where
  init s := ∃ now config, s = Service.init now config
  step s a := s.step applies a

namespace Service

variable {φ : Type} {applies : φ → LogRecord → Bool} {s t : Service φ} {name key : Str} {ref : Nat}

/-! ## Where a name leads to -/

theorem lookup_of_longestMatch (h : s.longestMatch name = some (key, ref)) :
    s.metafilters.lookup key = some ref := by
  obtain ⟨key', -, h⟩ := List.exists_of_findSome?_eq_some h
  obtain ⟨ref', hlookup, h⟩ := Option.map_eq_some_iff.mp h
  cases h
  exact hlookup

/-- The name of the metafilter that `find_metafilter` finds. -/
def route (s : Service φ) (name : Str) : Str :=
  match s.longestMatch name with
  | some (key, ref) => if (s.metafilter ref).empty then defaultKey else key
  | none => defaultKey

theorem getMetafilter_of_lookup (h : s.metafilters.lookup key = some ref) :
    s.getMetafilter key = (s, ref) := by
  simp [getMetafilter, h]

theorem findMetafilter_eq : s.findMetafilter name = s.getMetafilter (s.route name) := by
  simp only [findMetafilter, route]
  split
  · rename_i key ref hmatch
    split
    · rfl
    · rw [getMetafilter_of_lookup (lookup_of_longestMatch hmatch)]
  · rfl

/-- A name that leads to a metafilter: the decision is that of this metafilter. -/
theorem direct_eq (h : s.metafilters.lookup (s.route name) = some ref) (r : LogRecord) :
    s.direct applies name r = s.decision applies ref (r.withSource name) := by
  rw [direct, findMetafilter_eq, getMetafilter_of_lookup h]

/-- There is a metafilter of that name, and it has a filter. -/
def holds (s : Service φ) (key : Str) : Bool :=
  (s.metafilters.lookup key).any fun ref => !(s.metafilter ref).empty

theorem exists_lookup_of_holds (h : s.holds key = true) :
    ∃ ref, s.metafilters.lookup key = some ref := by
  cases hlookup : s.metafilters.lookup key with
  | some ref => exact ⟨ref, rfl⟩
  | none => simp [holds, hlookup] at h

/-! ## What a step does to the tree and the loggers -/

theorem onFilter_cases (value : Option (FilterInfo φ)) :
    s.onFilter value = s ∨ ∃ info, s.onFilter value = s.add info := by
  cases value with
  | none => exact .inl rfl
  | some info =>
    by_cases hexp : info.expired s.now = true
    · exact .inl (if_pos hexp)
    · exact .inr ⟨info, if_neg hexp⟩

/-- The filter is in no metafilter, or is removed from one. -/
theorem removeLocalFilter_cases {id : Nat} {first : Option Str}
    (h : s.removeLocalFilter id first = some t) :
    t = s ∨ ∃ ref, t = s.modify ref fun m => (m.removeFilter id).1 := by
  cases first with
  | none =>
    obtain ⟨-, rfl⟩ := of_guard h
    exact .inl rfl
  | some name =>
    simp only [removeLocalFilter] at h
    split at h
    · cases h
    · rename_i ref _
      obtain ⟨-, rfl⟩ := of_guard h
      exact .inr ⟨ref, rfl⟩

theorem lookup_eraseAll (es : List (Sigma fun _ : Str => Nat)) (m : AList fun _ : Str => Nat) :
    (es.foldl (fun m e => m.erase e.1) m).lookup key =
      if key ∈ es.map Sigma.fst then none else m.lookup key := by
  induction es generalizing m with
  | nil => simp
  | cons e es ih =>
    rw [List.foldl_cons, ih]
    by_cases hkey : key = e.1
    · subst hkey
      simp [AList.lookup_erase]
    · rw [AList.lookup_erase_ne hkey, List.map_cons]
      exact if_congr (by rw [List.mem_cons, or_iff_right hkey]) rfl rfl

/-- A stored metafilter stays where it is, or is erased, and the loggers stay. -/
structure Evolves (s t : Service φ) : Prop where
  stored {key : Str} {ref : Nat} : s.metafilters.lookup key = some ref →
    t.metafilters.lookup key = some ref ∨ t.metafilters.lookup key = none
  loggers : s.loggers <+: t.loggers

namespace Evolves

theorem of_eq (hm : t.metafilters = s.metafilters) (hl : t.loggers = s.loggers) : Evolves s t :=
  ⟨fun h => .inl (by rw [hm, h]), by rw [hl]⟩

theorem getMetafilter (name : Str) : Evolves s (s.getMetafilter name).1 := by
  simp only [Service.getMetafilter]
  split
  · exact .of_eq rfl rfl
  · rename_i hnone
    refine ⟨fun {key ref} h => .inl ?_, List.prefix_rfl⟩
    have hne : key ≠ name := by
      rintro rfl
      cases h.symm.trans hnone
    exact (AList.lookup_insert_ne hne).trans h

/-- The metafilters themselves do not matter, and a logger may be added. -/
theorem congr {u : Service φ} (h : Evolves s t) (hm : u.metafilters = t.metafilters)
    (hl : t.loggers <+: u.loggers) : Evolves s u := by
  refine ⟨fun hs => ?_, h.loggers.trans hl⟩
  rw [hm]
  exact h.stored hs

theorem add (info : FilterInfo φ) : Evolves s (s.add info) :=
  (getMetafilter info.loggerName).congr rfl List.prefix_rfl

theorem setFilter (name : Str) (filter : φ) (ttl id : Nat) (disposition : Disposition) :
    Evolves s (s.setFilter name filter ttl id disposition) := by
  cases disposition with
  | localOnly => exact add _
  | cluster => exact .of_eq rfl rfl

theorem onFilter (value : Option (FilterInfo φ)) : Evolves s (s.onFilter value) := by
  obtain heq | ⟨info, heq⟩ := onFilter_cases (s := s) value
  · rw [heq]
    exact .of_eq rfl rfl
  · rw [heq]
    exact add info

theorem removeLocalFilter {id : Nat} {first : Option Str}
    (h : s.removeLocalFilter id first = some t) : Evolves s t := by
  obtain rfl | ⟨ref, rfl⟩ := removeLocalFilter_cases h
  · exact .of_eq rfl rfl
  · exact .of_eq rfl rfl

theorem foldl_modify (es : List (Sigma fun _ : Str => Nat)) :
    (es.foldl (fun s e => s.modify e.2 (·.cleanup s.now)) s).metafilters = s.metafilters ∧
      (es.foldl (fun s e => s.modify e.2 (·.cleanup s.now)) s).loggers = s.loggers := by
  induction es generalizing s with
  | nil => exact ⟨rfl, rfl⟩
  | cons e es ih => exact ih

theorem cleanup : Evolves s s.cleanup := by
  obtain ⟨hm, hl⟩ := foldl_modify (s := s) s.metafilters.entries
  refine ⟨fun h => ?_, ?_⟩
  · simp only [Service.cleanup, lookup_eraseAll, hm]
    split
    · exact .inr rfl
    · exact .inl h
  · simp only [Service.cleanup, hl]
    exact List.prefix_rfl

theorem findMetafilter (name : Str) : Evolves s (s.findMetafilter name).1 := by
  rw [findMetafilter_eq]
  exact getMetafilter _

theorem step {a : Label φ} (h : s.step applies a = some t) : Evolves s t := by
  cases a with
  | tick seconds =>
    cases h
    exact .of_eq rfl rfl
  | setFilter name filter ttl id disposition =>
    cases h
    exact setFilter ..
  | clusterFilter value =>
    cases h
    exact onFilter value
  | removeFilter id first => exact removeLocalFilter h
  | cleanup =>
    cases h
    exact cleanup
  | get name =>
    cases h
    exact (findMetafilter name).congr rfl (List.prefix_append _ _)
  | emit name r =>
    cases h
    exact (findMetafilter name).congr rfl List.prefix_rfl
  | log i r =>
    obtain ⟨l, -, rfl⟩ := Option.map_eq_some_iff.mp h
    exact .of_eq rfl rfl
  | core r =>
    cases h
    exact .of_eq rfl rfl

end Evolves

/-! ## The loggers of a name -/

/-- The name leads to where it did before, and there is a filter. -/
def Settled (applies : φ → LogRecord → Bool) (name : Str) (s : Service φ) (a : Label φ) : Prop :=
  ∀ t ∈ s.step applies a, t.route name = s.route name ∧ t.holds (s.route name) = true

instance (name : Str) (s : Service φ) (a : Label φ) : Decidable (Settled applies name s a) :=
  inferInstanceAs (Decidable (∀ t ∈ s.step applies a, _))

/-- The logger has the metafilter that its name leads to. -/
structure Bound (s : Service φ) (name : Str) (i ref : Nat) : Prop where
  stored : s.metafilters.lookup (s.route name) = some ref
  logger : s.loggers[i]? = some (name, ref)

variable {i : Nat}

theorem Bound.get (h : s.holds (s.route name) = true) :
    ∃ ref, Bound (s.get name) name s.loggers.length ref := by
  obtain ⟨ref, hlookup⟩ := exists_lookup_of_holds h
  refine ⟨ref, ?_⟩
  have hget : s.get name = { s with loggers := s.loggers ++ [(name, ref)] } := by
    rw [Service.get, findMetafilter_eq, getMetafilter_of_lookup hlookup]
  rw [hget]
  exact ⟨hlookup, by simp⟩

theorem Bound.step (h : Bound s name i ref) {a : Label φ} (hok : Settled applies name s a)
    (hs : s.step applies a = some t) : Bound t name i ref := by
  obtain ⟨hroute, hholds⟩ := hok t hs
  have he := Evolves.step hs
  refine ⟨?_, ?_⟩
  · rw [hroute]
    obtain hkept | hnone := he.stored h.stored
    · exact hkept
    · obtain ⟨ref', hsome⟩ := exists_lookup_of_holds hholds
      cases hnone.symm.trans hsome
  · obtain ⟨l, hl⟩ := he.loggers
    rw [← hl, List.getElem?_append_left (List.getElem?_eq_some_iff.mp h.logger).1]
    exact h.logger

theorem Bound.named_eq (h : Bound s name i ref) (r : LogRecord) :
    s.named applies i r = some (s.direct applies name r) := by
  rw [direct_eq h.stored, named, h.logger]
  rfl

/-- As long as the name leads to the same metafilter and that has a filter, the logger decides as
`emit` does. -/
theorem named_like_emit {s₀ s₁ : Service φ} (hheld : s₀.holds (s₀.route name) = true)
    (hget : s₀.step applies (.get name) = some s₁)
    (hp : (loggingSystem applies).Path (Settled applies name) s₁ s) (r : LogRecord) :
    s.named applies s₀.loggers.length r = some (s.direct applies name r) := by
  cases hget
  obtain ⟨ref, hbound⟩ := Bound.get hheld
  have hs : Bound s name s₀.loggers.length ref :=
    hp.induct (P := fun s => Bound s name s₀.loggers.length ref) hbound
      fun h hok hs => h.step hok hs
  exact hs.named_eq r

/-- What the filters accept on a machine whose characters are signed. -/
def accepts : Filter → LogRecord → Bool := Filter.accepts x86

/-- A logger whose name leads to a metafilter with two filters. A filter is set for another name,
one of the two expires, and the metafilters are cleaned up. -/
theorem named_like_emit_expiry :
    ∃ s₀ s₁ s, (loggingSystem accepts).Reachable System.Any s₀ ∧
      s₀.step accepts (.get "app/x".toList) = some s₁ ∧
      (loggingSystem accepts).Path (Settled accepts "app/x".toList) s₁ s ∧
      s.direct accepts "app/x".toList ⟨0, [], false⟩ = false ∧
      s.named accepts s₀.loggers.length ⟨0, [], false⟩ = some false := by
  obtain ⟨s₀, hr, hheld, s₁, hget, s, hrun, hdirect⟩ :=
    (loggingSystem accepts).exists_reachable System.Any
      (P := fun s₀ => s₀.holds (s₀.route "app/x".toList) = true ∧
        ∃ s₁ ∈ s₀.step accepts (.get "app/x".toList),
          ∃ s ∈ (loggingSystem accepts).run (Settled accepts "app/x".toList) s₁
            [.setFilter "other".toList (.severity 0) 60 10 .localOnly, .tick 5,
              .emit "app".toList ⟨0, [], false⟩, .cleanup],
          s.direct accepts "app/x".toList ⟨0, [], false⟩ = false)
      [.setFilter "app".toList (.severity 0) 2 8 .localOnly,
        .setFilter "app".toList (.severity 3) 60 9 .localOnly]
      ⟨100, [(.severity 2, 7)], rfl⟩ (by decide +kernel)
  have hp := System.Path.of_run _ hrun
  refine ⟨s₀, s₁, s, hr, hget, hp, hdirect, ?_⟩
  rw [named_like_emit hheld hget hp, hdirect]

/-- A logger is got, then a filter is set for its name; or its metafilter is erased, because the
filter has expired. -/
theorem named_unlike_emit :
    (∃ s, (loggingSystem accepts).Reachable System.Any s ∧
      s.loggers = [("app".toList, 0)] ∧ s.named accepts 0 ⟨0, [], false⟩ = some false ∧
      s.direct accepts "app".toList ⟨0, [], false⟩ = true) ∧
    ∃ s, (loggingSystem accepts).Reachable System.Any s ∧
      s.loggers = [("app".toList, 2)] ∧ s.named accepts 0 ⟨2, [], false⟩ = some false ∧
      s.direct accepts "app".toList ⟨2, [], false⟩ = true := by
  constructor
  · exact (loggingSystem accepts).exists_reachable System.Any
      [.get "app".toList, .setFilter "app".toList (.severity 0) 60 8 .localOnly]
      ⟨100, [(.severity 2, 7)], rfl⟩ (by decide +kernel)
  · exact (loggingSystem accepts).exists_reachable System.Any
      [.setFilter "app".toList (.severity 0) 60 8 .localOnly, .get "app".toList, .tick 61, .cleanup]
      ⟨100, [(.severity 2, 7)], rfl⟩ (by decide +kernel)

end Service

end Cocaine.Logging
