import CocainePlugins.Framework.Dynamic
import CocainePlugins.Framework.Lines
import CocainePlugins.Framework.Nested

/-!
# The outputs of the metrics service

The plain output has the values of a metric under the name of the metric, or under the name and
the name of the value. The JSON output has them in objects, one for each part of the name; a
visitor that comes to something else on its way puts an object in its place.

Both write the same entries (`plain_visit_eq`, `dendroid_visit_eq`), so the outputs agree, in
every order, exactly if no entry is above another and entries with one key have one value.
-/

namespace Cocaine.Metrics

open Framework

/-! ## Metrics -/

/-- What a meter shows; the rates are the bits of doubles. -/
structure Rates where
  count : Nat
  m01rate : UInt64
  m05rate : UInt64
  m15rate : UInt64
deriving DecidableEq

/-- A snapshot of a timer, in nanoseconds. -/
structure Snapshot where
  median : UInt64
  p75 : UInt64
  p90 : UInt64
  p95 : UInt64
  p98 : UInt64
  p99 : UInt64
  mean : UInt64
  stddev : UInt64
deriving DecidableEq

inductive Reading where
  | gauge (value : Scalar)
  | counter (value : Scalar)
  | meter (rates : Rates)
  | timer (rates : Rates) (snapshot : Snapshot)
deriving DecidableEq

structure Metric where
  name : Str
  reading : Reading
deriving DecidableEq

def Rates.fields (r : Rates) : List (Str × Scalar) :=
  [("count".toList, .uint r.count), ("m01rate".toList, .double r.m01rate),
    ("m05rate".toList, .double r.m05rate), ("m15rate".toList, .double r.m15rate)]

/-- In milliseconds; `perMega` is the division of a double by `1e6`. -/
def Snapshot.fields (perMega : UInt64 → UInt64) (s : Snapshot) : List (Str × Scalar) :=
  [("p50".toList, .double (perMega s.median)), ("p75".toList, .double (perMega s.p75)),
    ("p90".toList, .double (perMega s.p90)), ("p95".toList, .double (perMega s.p95)),
    ("p98".toList, .double (perMega s.p98)), ("p99".toList, .double (perMega s.p99)),
    ("mean".toList, .double (perMega s.mean)), ("stddev".toList, .double (perMega s.stddev))]

/-! ## The visitors -/

section Visitors

variable (perMega : UInt64 → UInt64)

abbrev Output := Fields Str Scalar

def subkey (name field : Str) : Str := name ++ '.' :: field

def plainVisit (out : Output) (m : Metric) : Output :=
  match m.reading with
  | .gauge value | .counter value => out.set m.name value
  | .meter rates => rates.fields.foldl (fun out f => out.set (subkey m.name f.1) f.2) out
  | .timer rates snapshot =>
    (rates.fields ++ snapshot.fields perMega).foldl (fun out f => out.set (subkey m.name f.1) f.2) out

def dendroidVisit (out : Output) (m : Metric) : Output :=
  let parts := tokens (· == '.') false m.name
  match m.reading with
  | .gauge value | .counter value =>
    out.modifyAt (fun out => out.set (parts.getLastD []) value) parts.dropLast
  | .meter rates =>
    out.modifyAt (fun out => rates.fields.foldl (fun out f => out.set f.1 f.2) out) parts
  | .timer rates snapshot =>
    out.modifyAt (fun out =>
      (rates.fields ++ snapshot.fields perMega).foldl (fun out f => out.set f.1 f.2) out) parts

def constructPlain (metrics : List Metric) : Output := metrics.foldl (plainVisit perMega) Fields.empty

def constructDendroid (metrics : List Metric) : Output :=
  metrics.foldl (dendroidVisit perMega) Fields.empty

/-! ## Entries -/

/-- The keys and the values of a metric. -/
def Metric.entries (m : Metric) : List (Str × Scalar) :=
  match m.reading with
  | .gauge value | .counter value => [(m.name, value)]
  | .meter rates => rates.fields.map fun f => (subkey m.name f.1, f.2)
  | .timer rates snapshot =>
    (rates.fields ++ snapshot.fields perMega).map fun f => (subkey m.name f.1, f.2)

def parts (key : Str) : List Str := key.splitOn '.'

def plainEntry (e : Str × Scalar) : List Str × Scalar := ([e.1], e.2)

def treeEntry (e : Str × Scalar) : List Str × Scalar := (parts e.1, e.2)

/-- The name has no empty parts. -/
def Metric.Named (m : Metric) : Prop := ∀ part ∈ parts m.name, part ≠ []

end Visitors

section Entries

variable {perMega : UInt64 → UInt64} {m : Metric}

theorem parts_ne_nil (key : Str) : parts key ≠ [] := List.splitOnP_ne_nil _ key

theorem parts_inj {key key' : Str} (h : parts key = parts key') : key = key' := by
  have hjoin := congrArg (List.intercalate ['.']) h
  rwa [parts, parts, List.intercalate_splitOn, List.intercalate_splitOn] at hjoin

theorem parts_subkey {name field : Str} (h : '.' ∉ field) :
    parts (subkey name field) = parts name ++ [field] := by
  have hsplit : parts (subkey name field) = parts name ++ parts field :=
    List.splitOnP_append_cons name field (beq_self_eq_true '.')
  rw [hsplit, parts, parts, splitOn_of_not_mem h]

theorem dot_notMem_fields (perMega : UInt64 → UInt64) (rates : Rates) (snapshot : Snapshot) :
    ∀ f ∈ rates.fields ++ snapshot.fields perMega, '.' ∉ f.1 := by
  simp only [Rates.fields, Snapshot.fields, List.cons_append, List.nil_append, List.forall_mem_cons]
  decide

theorem plain_visit_eq (out : Output) (m : Metric) :
    plainVisit perMega out m = out.insertAll ((m.entries perMega).map plainEntry) := by
  have hfold : ∀ fields : List (Str × Scalar),
      fields.foldl (fun out f => out.set (subkey m.name f.1) f.2) out =
        out.insertAll ((fields.map fun f => (subkey m.name f.1, f.2)).map plainEntry) := by
    intro fields
    rw [Fields.insertAll, List.foldl_map, List.foldl_map]
    rfl
  unfold plainVisit Metric.entries
  cases m.reading with
  | gauge value | counter value => rfl
  | meter rates | timer rates snapshot => exact hfold _

theorem dendroid_visit_eq (out : Output) (hm : m.Named) :
    dendroidVisit perMega out m = out.insertAll ((m.entries perMega).map treeEntry) := by
  have htokens : tokens (· == '.') false m.name = parts m.name :=
    tokens_eq_splitOn fun part hpart => hm part (List.mem_of_mem_tail hpart)
  have hfold : ∀ fields : List (Str × Scalar), fields ≠ [] → (∀ f ∈ fields, '.' ∉ f.1) →
      out.modifyAt (fun out => fields.foldl (fun out f => out.set f.1 f.2) out) (parts m.name) =
        out.insertAll ((fields.map fun f => (subkey m.name f.1, f.2)).map treeEntry) := by
    intro fields hne hdot
    rw [Fields.modifyAt_setAll _ _ hne, List.map_map]
    congr 1
    refine List.map_congr_left fun f hf => ?_
    rw [Function.comp, treeEntry, parts_subkey (hdot f hf)]
  unfold dendroidVisit Metric.entries
  rw [htokens]
  cases m.reading with
  | gauge value | counter value =>
    have hlast : (parts m.name).dropLast ++ [(parts m.name).getLastD []] = parts m.name := by
      rw [List.getLastD_eq_getLast?, List.getLast?_eq_some_getLast (parts_ne_nil m.name)]
      exact List.dropLast_append_getLast (parts_ne_nil m.name)
    simp only [Fields.modifyAt_set, hlast]
    rfl
  | meter rates =>
    exact hfold _ (by simp [Rates.fields])
      fun f hf => dot_notMem_fields perMega rates ⟨0, 0, 0, 0, 0, 0, 0, 0⟩ f
        (List.mem_append_left _ hf)
  | timer rates snapshot =>
    exact hfold _ (by simp [Rates.fields]) (dot_notMem_fields perMega rates snapshot)

end Entries

/-! ## The whole outputs -/

section Outputs

variable {perMega : UInt64 → UInt64} {metrics metrics' : List Metric}

def entriesOf (perMega : UInt64 → UInt64) (metrics : List Metric) : List (Str × Scalar) :=
  metrics.flatMap (Metric.entries perMega)

theorem foldl_visit_eq {visit : Output → Metric → Output} {f : Str × Scalar → List Str × Scalar}
    (h : ∀ m ∈ metrics, ∀ out, visit out m = out.insertAll ((m.entries perMega).map f))
    (out : Output) : metrics.foldl visit out = out.insertAll ((entriesOf perMega metrics).map f) := by
  induction metrics generalizing out with
  | nil => rfl
  | cons m metrics ih =>
    rw [List.forall_mem_cons] at h
    rw [List.foldl_cons, h.1, ih h.2, entriesOf, entriesOf, List.flatMap_cons, List.map_append,
      Fields.insertAll, Fields.insertAll, Fields.insertAll, List.foldl_append]

theorem constructPlain_eq (metrics : List Metric) :
    constructPlain perMega metrics =
      Fields.empty.insertAll ((entriesOf perMega metrics).map plainEntry) :=
  foldl_visit_eq (fun m _ out => plain_visit_eq out m) _

theorem constructDendroid_eq (h : ∀ m ∈ metrics, m.Named) : constructDendroid perMega metrics =
    Fields.empty.insertAll ((entriesOf perMega metrics).map treeEntry) :=
  foldl_visit_eq (fun m hm out => dendroid_visit_eq out (h m hm)) _

/-- No key leads through another, and what is under one key is the same. -/
def Separate (entries : List (Str × Scalar)) : Prop :=
  ∀ e ∈ entries, ∀ e' ∈ entries, parts e.1 <+: parts e'.1 → e = e'

namespace Separate

variable {entries : List (Str × Scalar)}

theorem tree (h : Separate entries) : Fields.Separate (entries.map treeEntry) := by
  rintro _ hx _ hx' hpre
  obtain ⟨e, he, rfl⟩ := List.mem_map.mp hx
  obtain ⟨e', he', rfl⟩ := List.mem_map.mp hx'
  rw [h e he e' he' hpre]

theorem plain (h : Separate entries) : Fields.Separate (entries.map plainEntry) := by
  rintro _ hx _ hx' hpre
  obtain ⟨e, he, rfl⟩ := List.mem_map.mp hx
  obtain ⟨e', he', rfl⟩ := List.mem_map.mp hx'
  have hkey : e.1 = e'.1 := (List.cons_prefix_cons.mp hpre).1
  rw [h e he e' he' (hkey ▸ List.prefix_refl _)]

end Separate

theorem plainEntry_ne_nil (entries : List (Str × Scalar)) :
    ∀ e ∈ entries.map plainEntry, e.1 ≠ [] := by
  rintro _ hx
  obtain ⟨e, -, rfl⟩ := List.mem_map.mp hx
  exact List.cons_ne_nil _ _

theorem treeEntry_ne_nil (entries : List (Str × Scalar)) :
    ∀ e ∈ entries.map treeEntry, e.1 ≠ [] := by
  rintro _ hx
  obtain ⟨e, -, rfl⟩ := List.mem_map.mp hx
  exact parts_ne_nil e.1

/-- The pairs of the plain output are in the tree, and there are no other leaves. -/
structure Agrees (plain tree : Output) : Prop where
  found : ∀ key value, plain.find [key] = some value → tree.find (parts key) = some value
  only : ∀ path value, tree.find path = some value →
    ∃ key, parts key = path ∧ plain.find [key] = some value

theorem agrees_of_separate (h : ∀ m ∈ metrics, m.Named) (hs : Separate (entriesOf perMega metrics)) :
    Agrees (constructPlain perMega metrics) (constructDendroid perMega metrics) := by
  have hplain : ∀ key value, (constructPlain perMega metrics).find [key] = some value ↔
      (key, value) ∈ entriesOf perMega metrics := by
    intro key value
    rw [constructPlain_eq, Fields.find_insertAll_empty hs.plain (plainEntry_ne_nil _), List.mem_map]
    constructor
    · rintro ⟨e, he, heq⟩
      cases heq
      exact he
    · exact fun he => ⟨_, he, rfl⟩
  have htree : ∀ path value, (constructDendroid perMega metrics).find path = some value ↔
      ∃ e ∈ entriesOf perMega metrics, treeEntry e = (path, value) := by
    intro path value
    rw [constructDendroid_eq h, Fields.find_insertAll_empty hs.tree (treeEntry_ne_nil _), List.mem_map]
  constructor
  · intro key value hp
    exact (htree _ _).mpr ⟨_, (hplain key value).mp hp, rfl⟩
  · intro path value ht
    obtain ⟨e, he, heq⟩ := (htree path value).mp ht
    cases heq
    exact ⟨e.1, rfl, (hplain e.1 e.2).mpr he⟩

theorem separate_entries (m : Metric) : Fields.Separate ((m.entries perMega).map plainEntry) := by
  have hfields : ∀ fields : List (Str × Scalar), (fields.map Prod.fst).Nodup →
      Fields.Separate ((fields.map fun f => (subkey m.name f.1, f.2)).map plainEntry) := by
    intro fields hnodup _ hx _ hx' hpre
    rw [List.map_map] at hx hx'
    obtain ⟨f, hf, rfl⟩ := List.mem_map.mp hx
    obtain ⟨f', hf', rfl⟩ := List.mem_map.mp hx'
    have hkey : subkey m.name f.1 = subkey m.name f'.1 := (List.cons_prefix_cons.mp hpre).1
    have hname : f.1 = f'.1 := List.cons.inj (List.append_cancel_left hkey) |>.2
    rw [List.inj_on_of_nodup_map hnodup hf hf' hname]
  unfold Metric.entries
  cases m.reading with
  | gauge value | counter value =>
    intro e he e' he' _
    rw [List.mem_singleton.mp he, List.mem_singleton.mp he']
  | meter rates => exact hfields _ (by simp only [Rates.fields, List.map_cons, List.map_nil]; decide)
  | timer rates snapshot =>
    exact hfields _ (by
      simp only [Rates.fields, Snapshot.fields, List.cons_append, List.nil_append, List.map_cons,
        List.map_nil]
      decide)

/-- Some order of the metrics has an entry last. -/
theorem exists_order_last {e : Str × Scalar} (he : e ∈ entriesOf perMega metrics) :
    ∃ l, l.Perm metrics ∧ (constructPlain perMega l).find [e.1] = some e.2 := by
  obtain ⟨m, hm, hem⟩ := List.mem_flatMap.mp he
  refine ⟨metrics.erase m ++ [m], ?_, ?_⟩
  · exact (List.perm_append_comm).trans (List.perm_cons_erase hm).symm
  · rw [constructPlain, List.foldl_append, List.foldl_cons, List.foldl_nil, plain_visit_eq]
    exact Fields.find_insertAll_of_mem (separate_entries m) (plainEntry_ne_nil _)
      (List.mem_map_of_mem hem) _

/-- In every order the outputs agree and are the same, exactly if the keys are separate. -/
theorem outputs_agree_iff (h : ∀ m ∈ metrics, m.Named) :
    (∀ l, l.Perm metrics →
      Agrees (constructPlain perMega l) (constructDendroid perMega l) ∧
      constructPlain perMega l = constructPlain perMega metrics ∧
      constructDendroid perMega l = constructDendroid perMega metrics) ↔
    Separate (entriesOf perMega metrics) := by
  constructor
  · intro hall e he e' he' hpre
    have hagree := (hall metrics (List.Perm.refl metrics)).1
    -- Each entry is the last one in some order, so it is in the output of every order.
    have hfound : ∀ e ∈ entriesOf perMega metrics,
        (constructDendroid perMega metrics).find (parts e.1) = some e.2 := by
      intro e he
      obtain ⟨l, hl, hlast⟩ := exists_order_last he
      rw [(hall l hl).2.1] at hlast
      exact hagree.found e.1 e.2 hlast
    have hparts := Fields.find_below (hfound e he) (hfound e' he') hpre
    have hvalue := hfound e he
    rw [hparts, hfound e' he'] at hvalue
    exact Prod.ext (parts_inj hparts) (Option.some.inj hvalue).symm
  · intro hs l hl
    have hperm : (entriesOf perMega l).Perm (entriesOf perMega metrics) := hl.flatMap_right _
    have hnamed : ∀ m ∈ l, m.Named := fun m hm => h m (hl.mem_iff.mp hm)
    have hsl : Separate (entriesOf perMega l) :=
      fun e he e' he' => hs e (hperm.mem_iff.mp he) e' (hperm.mem_iff.mp he')
    refine ⟨agrees_of_separate hnamed hsl, ?_, ?_⟩
    · rw [constructPlain_eq, constructPlain_eq]
      exact Fields.insertAll_perm hsl.plain (hperm.map _) _
    · rw [constructDendroid_eq hnamed, constructDendroid_eq h]
      exact Fields.insertAll_perm hsl.tree (hperm.map _) _

/-- Two gauges and a meter. -/
theorem outputs_agree_three :
    let metrics : List Metric := [⟨"node.uptime".toList, .gauge (.uint 5)⟩,
      ⟨"node.pool".toList, .meter ⟨3, 1, 2, 4⟩⟩, ⟨"node.pools".toList, .counter (.int 2)⟩]
    ∀ l, l.Perm metrics → Agrees (constructPlain id l) (constructDendroid id l) ∧
      constructPlain id l = constructPlain id metrics ∧
      constructDendroid id l = constructDendroid id metrics := by
  intro metrics
  exact (outputs_agree_iff (by unfold Metric.Named; decide +kernel)).mpr
    (by unfold Separate; decide +kernel)

/-- A gauge whose name goes on from that of another takes its place in the tree, and a gauge with
the name of a meter's value has it last or not. -/
theorem outputs_differ :
    let a : Metric := ⟨"a".toList, .gauge (.uint 1)⟩
    let ab : Metric := ⟨"a.b".toList, .gauge (.uint 2)⟩
    let meter : Metric := ⟨"a".toList, .meter ⟨3, 1, 2, 4⟩⟩
    let count : Metric := ⟨"a.count".toList, .gauge (.uint 5)⟩
    a.name ≠ ab.name ∧ meter.name ≠ count.name ∧
    (constructPlain id [a, ab]).find ["a".toList] = some (.uint 1) ∧
    (constructDendroid id [a, ab]).find (parts "a".toList) = none ∧
    (constructPlain id [meter, count]).find ["a.count".toList] = some (.uint 5) ∧
    (constructPlain id [count, meter]).find ["a.count".toList] = some (.uint 3) := by
  decide +kernel

end Outputs
end Cocaine.Metrics
