import CocainePlugins.Framework.Assoc
import CocainePlugins.Node.Metrics.Retriever

/-!
# What a response does to one counter

A counter of the aggregate kind has a value in the hub and a delta in the record of its worker.
`tally` is what a reported value does to both, and `read_fillMetrics` says that filling a record
tallies the worker's reports, whatever else the response holds. `assign_eq` says what the table
adds to the application's counter. Nothing else touches these counters: their names end in a
component of their own (`counterName_inj`).
-/

namespace Cocaine.Node.Metrics

open Framework

/-! ## Names -/

theorem counterName_inj {p q a b : Str} (ha : '.' ∉ a) (hb : '.' ∉ b)
    (h : counterName p a = counterName q b) : p = q ∧ a = b := by
  have hbefore := congrArg (beforeLast '.') h
  have hafter := congrArg (afterLast '.') h
  simp only [counterName, beforeLast_append ha, beforeLast_append hb, afterLast_append ha,
    afterLast_append hb, Option.some.injEq] at hbefore hafter
  exact ⟨hbefore, hafter⟩

theorem afterLast_counterName {p a : Str} (ha : '.' ∉ a) :
    afterLast '.' (counterName p a) = some a :=
  afterLast_append ha

theorem workerPrefix_inj {app id id' : Str} (h : workerPrefix app id = workerPrefix app id') :
    id = id' :=
  List.append_cancel_left h

theorem workerPrefix_ne_appPrefix (app id : Str) : workerPrefix app id ≠ appPrefix app := by
  intro h
  have hlen := congrArg List.length h
  simp only [workerPrefix, appPrefix, List.length_append] at hlen
  have hdot : ".isolate.".toList.length = ".isolate".toList.length + 1 := by decide
  omega

/-- A counter that every record has. -/
def IsCounter (c : Str) : Prop := c ∈ counterDesc.map Prod.fst

theorem IsCounter.of_lookup {c : Str} {a : Aggregation} (h : counterDesc.lookup c = some a) :
    IsCounter c := by
  obtain ⟨l₁, l₂, heq, -⟩ := List.lookup_eq_some_iff.mp h
  rw [IsCounter, heq]
  simp

theorem IsCounter.not_dot {c : Str} (h : IsCounter c) : '.' ∉ c := by
  have hall : ∀ c ∈ counterDesc.map Prod.fst, '.' ∉ c := by decide
  exact hall c h

theorem IsCounter.ne_nil {c : Str} (h : IsCounter c) : c ≠ [] := by
  have hall : ∀ c ∈ counterDesc.map Prod.fst, c ≠ [] := by decide
  exact hall c h

/-- The last components of the other names in the hub. -/
def otherComponents : List Str :=
  ["rx_bytes", "tx_bytes", "recieved", "responses", "errors", "size", "requests",
    "requested"].map String.toList

theorem counterName_ne_of_component {p c name component : Str} (hc : IsCounter c)
    (hcomp : component ∈ otherComponents) (hname : afterLast '.' name = some component) :
    counterName p c ≠ name := by
  rintro rfl
  rw [afterLast_counterName hc.not_dot, Option.some.injEq] at hname
  have hall : ∀ c ∈ counterDesc.map Prod.fst, c ∉ otherComponents := by decide
  exact hall c hc (hname ▸ hcomp)

/-! ## Records -/

namespace WorkerMetrics

variable {pfx : Str} {w : WorkerMetrics pfx} {c : Str}

theorem names_counters (w : WorkerMetrics pfx) :
    w.counters.map Prod.fst = counterDesc.map Prod.fst := by
  rw [← w.shape, List.map_map]
  rfl

theorem nodup_counters (w : WorkerMetrics pfx) : (w.counters.map Prod.fst).Nodup := by
  rw [names_counters]
  decide

theorem isCounter_of_lookup {record : Counter} (h : w.counters.lookup c = some record) :
    IsCounter c := by
  obtain ⟨l₁, l₂, heq, -⟩ := List.lookup_eq_some_iff.mp h
  rw [IsCounter, ← w.names_counters, heq]
  simp

theorem lookup_aggregation (w : WorkerMetrics pfx) (c : Str) :
    (w.counters.lookup c).map Counter.aggregation = counterDesc.lookup c := by
  rw [← w.shape]
  exact (lookup_map_values (fun _ => Counter.aggregation) w.counters c).symm

/-- The record of a counter, from its kind and its delta. -/
theorem lookup_counter {a : Aggregation} (hc : counterDesc.lookup c = some a) :
    w.counters.lookup c = some { aggregation := a, delta := w.delta c } := by
  have haggregation := w.lookup_aggregation c
  rw [hc, Option.map_eq_some_iff] at haggregation
  obtain ⟨record, hrecord, rfl⟩ := haggregation
  rw [delta, hrecord]
  rfl

theorem delta_setDelta {a : Aggregation} (hc : counterDesc.lookup c = some a) (name : Str) (d : Nat) :
    (w.setDelta name d).delta c = if c = name then d else w.delta c := by
  have hlookup := lookup_map_values
    (fun k (record : Counter) => if k = name then { record with delta := d } else record) w.counters c
  rw [lookup_counter hc] at hlookup
  rw [delta, setDelta, hlookup]
  by_cases h : c = name <;> simp [h]

end WorkerMetrics

/-- At most one counter of the record is stored. -/
def Stores (pfx name : Str) (hub hub' : Hub) : Prop :=
  hub' = hub ∨ IsCounter name ∧ ∃ value, hub' = hub.store (counterName pfx name) value

theorem Stores.frame {pfx q c name : Str} {hub hub' : Hub} (h : Stores pfx name hub hub') (hc : IsCounter c)
    (hne : q ≠ pfx ∨ c ≠ name) : hub' (counterName q c) = hub (counterName q c) := by
  obtain rfl | ⟨hname, value, rfl⟩ := h
  · rfl
  · refine Hub.store_of_ne fun heq => ?_
    obtain ⟨hq, hcn⟩ := counterName_inj hc.not_dot hname.not_dot heq
    exact hne.elim (fun h => h hq) fun h => h hcn

/-! ## Filling a record -/

/-- What a response reports of a counter, for one worker. -/
def reports (c : Str) (metrics : List (Str × Dyn)) : List Nat :=
  metrics.filterMap fun metric =>
    if (decayMetricName metric.1).1 = c then asUint metric.2 else none

/-- What a report does to the value and the delta of a counter of the aggregate kind. -/
def tally (counter : Nat × Nat) (incoming : Nat) : Nat × Nat :=
  (incoming, if counter.1 ≤ incoming then incoming - counter.1 else counter.2)

def read {pfx : Str} (c : Str) (held : Held pfx) : Nat × Nat :=
  (held.1 (counterName pfx c), held.2.delta c)

section Fill

variable {keeps : Bool} {pfx c : Str} (held : Held pfx)

theorem read_storeUint (hc : counterDesc.lookup c = some .aggregate) (name : Str) (incoming : Nat) :
    read c (storeUint name incoming held).1 =
      if name = c then tally (read c held) incoming else read c held := by
  obtain ⟨hub, w⟩ := held
  by_cases hname : name = c
  · subst hname
    have hread : read name (hub, w) = (hub (counterName pfx name), w.delta name) := rfl
    rw [if_pos rfl, hread]
    simp only [storeUint, WorkerMetrics.lookup_counter hc, read, tally, Hub.store_self, true_and]
    by_cases hle : hub (counterName pfx name) ≤ incoming
    · rw [if_pos hle, if_pos hle, WorkerMetrics.delta_setDelta hc, if_pos rfl]
    · rw [if_neg hle, if_neg hle]
  · have hne : counterName pfx c ≠ counterName pfx name := by
      intro h
      exact hname (List.cons.inj (List.append_cancel_left h)).2.symm
    rw [if_neg hname]
    simp only [storeUint]
    split
    · rfl
    · simp only [read, Hub.store_of_ne hne]
      split
      · rw [WorkerMetrics.delta_setDelta hc, if_neg (Ne.symm hname)]
      · rfl

theorem stores_storeUint (name : Str) (incoming : Nat) :
    Stores pfx name held.1 (storeUint name incoming held).1.1 := by
  obtain ⟨hub, w⟩ := held
  simp only [storeUint]
  split
  · exact .inl rfl
  · rename_i record hrecord
    exact .inr ⟨WorkerMetrics.isCounter_of_lookup hrecord, _, rfl⟩

theorem afterLast_netName {direction : Str} (hdot : '.' ∉ direction) (name : Str) :
    afterLast '.' (counterName pfx (netName name direction)) = some direction := by
  have hname (net : Str) : counterName pfx (net ++ name ++ '.' :: direction) =
      (pfx ++ '.' :: (net ++ name)) ++ '.' :: direction := by
    simp [counterName]
  calc afterLast '.' (counterName pfx (netName name direction))
      = afterLast '.' ((pfx ++ '.' :: ("net.".toList ++ name)) ++ '.' :: direction) :=
        congrArg (afterLast '.') (hname "net.".toList)
    _ = some direction := afterLast_append hdot

/-- A network leaves the counters of all records as they are. -/
theorem parseNetworkRecord_frame {q : Str} (keeps : Bool) (hc : IsCounter c) (name : Str)
    (net : List (Str × Dyn)) :
    (parseNetworkRecord keeps name net held).1.1 (counterName q c) = held.1 (counterName q c) ∧
    (parseNetworkRecord keeps name net held).1.2.delta c = held.2.delta c := by
  have hrx : counterName q c ≠ rxName pfx name :=
    counterName_ne_of_component hc (by decide) (afterLast_netName (by decide) name)
  have htx : counterName q c ≠ txName pfx name :=
    counterName_ne_of_component hc (by decide) (afterLast_netName (by decide) name)
  obtain ⟨hub, w⟩ := held
  have hknown : ∀ known : Held pfx,
      known = (if w.network.contains name then (hub, w)
        else ((hub.counter keeps (rxName pfx name)).counter keeps (txName pfx name),
          { w with network := name :: w.network })) →
      known.1 (counterName q c) = hub (counterName q c) ∧ known.2.delta c = w.delta c := by
    rintro known rfl
    split
    · exact ⟨rfl, rfl⟩
    · exact ⟨(Hub.counter_of_ne htx).trans (Hub.counter_of_ne hrx), rfl⟩
  unfold parseNetworkRecord
  split
  · obtain ⟨hhub, hdelta⟩ := hknown _ rfl
    dsimp only
    split
    · exact ⟨hhub, hdelta⟩
    · split
      · exact ⟨(Hub.store_of_ne hrx).trans hhub, hdelta⟩
      · exact ⟨(Hub.store_of_ne htx).trans ((Hub.store_of_ne hrx).trans hhub), hdelta⟩
  · exact ⟨rfl, rfl⟩

theorem parseNetworks_frame {q : Str} (keeps : Bool) (hc : IsCounter c) (nets : List (Str × Dyn)) (updated : Nat) :
    (parseNetworks keeps nets held updated).1.1 (counterName q c) = held.1 (counterName q c) ∧
    (parseNetworks keeps nets held updated).1.2.delta c = held.2.delta c := by
  fun_induction parseNetworks keeps nets held updated with
  | case1 => exact ⟨rfl, rfl⟩
  | case2 name net rest held updated held' n heq ih =>
    have hframe := parseNetworkRecord_frame (q := q) held keeps hc name net
    rw [heq] at hframe
    exact ⟨ih.1.trans hframe.1, ih.2.trans hframe.2⟩
  | case3 name net rest held updated held' heq =>
    have hframe := parseNetworkRecord_frame (q := q) held keeps hc name net
    rwa [heq] at hframe
  | case4 => exact ⟨rfl, rfl⟩

theorem processValue_frame {q : Str} (hc : IsCounter c) (hq : q ≠ pfx) (name : Str) (value : Dyn) :
    (processValue keeps name value held).1.1 (counterName q c) = held.1 (counterName q c) := by
  unfold processValue
  split
  · exact (stores_storeUint held ..).frame hc (.inl hq)
  · unfold storeDouble
    split <;> rfl
  · exact (parseNetworks_frame held keeps hc ..).1
  · rfl

theorem read_processValue (hc : counterDesc.lookup c = some .aggregate) (name : Str) (value : Dyn) :
    read c (processValue keeps name value held).1 =
      (if name = c then asUint value else none).toList.foldl tally (read c held) := by
  have hother : ∀ other : Held pfx, read c other = read c held → asUint value = none →
      read c other = (if name = c then asUint value else none).toList.foldl tally (read c held) := by
    intro other hread hnone
    rw [hread, hnone, ite_self]
    rfl
  cases value with
  | scalar s =>
    cases s with
    | uint n =>
      rw [processValue, read_storeUint held hc]
      split <;> rfl
    | double bits =>
      refine hother _ ?_ rfl
      simp only [processValue, storeDouble]
      split <;> rfl
    | null | bool _ | int _ | string _ => exact hother _ rfl rfl
  | array items => exact hother _ rfl rfl
  | object nets =>
    obtain ⟨hhub, hdelta⟩ := parseNetworks_frame (q := pfx) held keeps (.of_lookup hc) nets 0
    exact hother _ (Prod.ext hhub hdelta) rfl

theorem read_fillMetric (hc : counterDesc.lookup c = some .aggregate) (done : Held pfx × Nat)
    (metric : Str × Dyn) : read c (fillMetric keeps done metric).1 =
      (reports c [metric]).foldl tally (read c done.1) := by
  have hreports : reports c [metric] =
      (if (decayMetricName metric.1).1 = c then asUint metric.2 else none).toList := by
    simp only [reports, List.filterMap_cons, List.filterMap_nil]
    split <;> simp [*]
  rw [hreports]
  simp only [fillMetric]
  split
  · rename_i hnil
    rw [if_neg (by rw [hnil]; exact (IsCounter.of_lookup hc).ne_nil.symm)]
    rfl
  · exact read_processValue _ hc ..

/-- Filling a record tallies the worker's reports. -/
theorem read_fillMetrics (keeps : Bool) (held : Held pfx) (hc : counterDesc.lookup c = some .aggregate)
    (metrics : List (Str × Dyn)) :
    read c (fillMetrics keeps metrics held).1 = (reports c metrics).foldl tally (read c held) := by
  have hrun : ∀ done : Held pfx × Nat, read c (metrics.foldl (fillMetric keeps) done).1 =
      (reports c metrics).foldl tally (read c done.1) := by
    induction metrics with
    | nil => exact fun _ => rfl
    | cons metric metrics ih =>
      intro done
      have happend : reports c (metric :: metrics) = reports c [metric] ++ reports c metrics :=
        List.filterMap_append (l := [metric])
      rw [List.foldl_cons, ih, read_fillMetric hc, happend, List.foldl_append]
  exact hrun (held, 0)

theorem fillMetrics_frame {q : Str} (keeps : Bool) (held : Held pfx) (hc : IsCounter c) (hq : q ≠ pfx)
    (metrics : List (Str × Dyn)) :
    (fillMetrics keeps metrics held).1.1 (counterName q c) = held.1 (counterName q c) := by
  have hrun : ∀ done : Held pfx × Nat, (metrics.foldl (fillMetric keeps) done).1.1
      (counterName q c) = done.1.1 (counterName q c) := by
    induction metrics with
    | nil => exact fun _ => rfl
    | cons metric metrics ih =>
      intro done
      rw [List.foldl_cons, ih]
      simp only [fillMetric]
      split
      · rfl
      · exact processValue_frame _ hc hq ..
  exact hrun (held, 0)

end Fill

/-! ## New records -/

section Make

variable {keeps : Bool} {pfx c : Str} {hub : Hub} {now : Int}

theorem make_frame {q : Str} (hc : IsCounter c) (hq : q ≠ pfx) :
    (WorkerMetrics.make pfx keeps hub now).1 (counterName q c) = hub (counterName q c) := by
  have hall : ∀ d ∈ counterDesc, IsCounter d.1 := fun d hd => List.mem_map_of_mem hd
  simp only [WorkerMetrics.make]
  generalize counterDesc = desc at hall
  induction desc generalizing hub with
  | nil => rfl
  | cons d desc ih =>
    rw [List.foldl_cons, ih fun e he => hall e (List.mem_cons_of_mem d he)]
    refine Hub.counter_of_ne fun h => hq ?_
    exact (counterName_inj hc.not_dot (hall d List.mem_cons_self).not_dot h).1

theorem foldl_counter_eq_zero (desc : List (Str × Aggregation))
    (h : c ∈ desc.map Prod.fst ∨ hub (counterName pfx c) = 0) :
    (desc.foldl (fun hub d => hub.counter false (counterName pfx d.1)) hub) (counterName pfx c) = 0 := by
  induction desc generalizing hub with
  | nil => exact h.resolve_left List.not_mem_nil
  | cons d desc ih =>
    refine ih ?_
    by_cases hd : c = d.1
    · exact .inr (by rw [hd]; exact Hub.store_self)
    · refine h.imp (fun hmem => (List.mem_cons.mp hmem).resolve_left hd) fun hzero => ?_
      have hne : counterName pfx c ≠ counterName pfx d.1 :=
        fun heq => hd (List.cons.inj (List.append_cancel_left heq)).2
      exact (Hub.store_of_ne hne).trans hzero

/-- A new record has no deltas, and its counters are zero unless the hub has kept them. -/
theorem read_make (hc : IsCounter c) (hkept : keeps = true → hub (counterName pfx c) = 0) :
    read c (WorkerMetrics.make pfx keeps hub now) = (0, 0) := by
  have hvalue : (counterDesc.foldl (fun hub d => hub.counter keeps (counterName pfx d.1)) hub)
      (counterName pfx c) = 0 := by
    cases keeps with
    | true => simpa [Hub.counter] using hkept rfl
    | false =>
      exact foldl_counter_eq_zero counterDesc (.inl hc)
  have hdelta : (WorkerMetrics.make pfx keeps hub now).2.delta c = 0 := by
    simp only [WorkerMetrics.delta, WorkerMetrics.make]
    rw [lookup_map_values (fun _ a => ({ aggregation := a } : Counter)) counterDesc c]
    cases counterDesc.lookup c <;> rfl
  exact Prod.ext hvalue hdelta

end Make

/-! ## The sum of the deltas -/

/-- The deltas that the proxy has summed up for a counter. -/
def Proxy.deltas (proxy : Proxy) (c : Str) : Nat := ((proxy.lookup c).getD {}).deltas

section Sum

variable {app c : Str} {a : Aggregation}

theorem Proxy.deltas_addCounter (hub : Hub) (pfx : Str) (proxy : Proxy) (metric : Str × Counter) :
    (proxy.addCounter hub pfx metric).deltas c =
      if c = metric.1 then u64 (proxy.deltas c + metric.2.delta) else proxy.deltas c := by
  by_cases h : c = metric.1
  · rw [if_pos h, h, deltas, addCounter, AList.lookup_insert]
    rfl
  · rw [if_neg h, deltas, addCounter, AList.lookup_insert_ne h, deltas]

theorem Proxy.deltas_foldl_addCounter (hub : Hub) (pfx : Str) {l : List (Str × Counter)}
    (hl : (l.map Prod.fst).Nodup) (proxy : Proxy) :
    (l.foldl (Proxy.addCounter hub pfx) proxy).deltas c =
      match l.lookup c with
      | some record => u64 (proxy.deltas c + record.delta)
      | none => proxy.deltas c := by
  induction l generalizing proxy with
  | nil => rfl
  | cons metric l ih =>
    obtain ⟨hmetric, hl⟩ := List.nodup_cons.mp hl
    rw [List.foldl_cons, ih hl, deltas_addCounter, List.lookup_cons]
    by_cases h : c = metric.1
    · have hnone : l.lookup c = none := lookup_eq_none.mpr (h ▸ hmetric)
      rw [hnone, if_pos h, h, beq_self_eq_true]
    · rw [if_neg h, beq_eq_false_iff_ne.mpr h]

theorem Proxy.deltas_add {pfx : Str} (hc : counterDesc.lookup c = some a) (hub : Hub) (proxy : Proxy)
    (w : WorkerMetrics pfx) : (proxy.add hub w).deltas c = u64 (proxy.deltas c + w.delta c) := by
  rw [add, deltas_foldl_addCounter hub pfx w.nodup_counters, WorkerMetrics.lookup_counter hc]

/-- The sum of the deltas of a counter over the table. -/
def deltaSum (c : Str) (table : Table app) : Nat := sumOver (fun _ w => w.delta c) table

theorem deltas_accumulate (hc : counterDesc.lookup c = some a) (hub : Hub) (table : Table app) :
    (accumulate hub table).deltas c = u64 (deltaSum c table) := by
  have hrun : ∀ (entries : List (Sigma fun id => WorkerMetrics (workerPrefix app id)))
      (proxy : Proxy) (n : Nat), proxy.deltas c = u64 n →
      (entries.foldl (fun proxy e => proxy.add hub e.2) proxy).deltas c =
        u64 (n + (entries.map fun e => e.2.delta c).sum) := by
    intro entries
    induction entries with
    | nil => exact fun _ _ h => h
    | cons e entries ih =>
      intro proxy n hproxy
      have hadd : (proxy.add hub e.2).deltas c = u64 (n + e.2.delta c) := by
        rw [Proxy.deltas_add hc, hproxy]
        exact Nat.mod_add_mod ..
      rw [List.foldl_cons, ih _ _ hadd, List.map_cons, List.sum_cons, Nat.add_assoc]
  have hzero : (∅ : Proxy).deltas c = u64 0 := rfl
  rw [accumulate, hrun _ _ 0 hzero, Nat.zero_add]
  rfl

end Sum

/-! ## The application's counters -/

section Assign

variable {pfx c : Str} {self : WorkerMetrics pfx} {hub : Hub}

theorem stores_assignCounter (e : Sigma fun _ : Str => ProxyCounter) :
    Stores pfx e.1 hub (self.assignCounter hub e) := by
  unfold WorkerMetrics.assignCounter
  split
  · exact .inl rfl
  · rename_i record hrecord
    split <;> exact .inr ⟨WorkerMetrics.isCounter_of_lookup hrecord, _, rfl⟩

theorem stores_updateCounter (name : Str) (desired : Aggregation) (value : Nat) :
    Stores pfx name hub (self.updateCounter hub name desired value) := by
  unfold WorkerMetrics.updateCounter
  split
  · exact .inl rfl
  · rename_i record hrecord
    split
    · exact .inr ⟨WorkerMetrics.isCounter_of_lookup hrecord, _, rfl⟩
    · exact .inl rfl

theorem foldl_hub_eq {α : Type} {f : Hub → α → Hub} {n : Str} (hf : ∀ hub x, (f hub x) n = hub n)
    (l : List α) (hub : Hub) : (l.foldl f hub) n = hub n := by
  induction l generalizing hub with
  | nil => rfl
  | cons x l ih => rw [List.foldl_cons, ih, hf]

/-- `assign` changes the counters of its own record only. -/
theorem assign_frame {q : Str} (hc : IsCounter c) (hq : q ≠ pfx) (proxy : Proxy) :
    (self.assign hub proxy) (counterName q c) = hub (counterName q c) := by
  unfold WorkerMetrics.assign
  split
  · exact foldl_hub_eq (fun _ _ => (stores_updateCounter ..).frame hc (.inl hq)) ..
  · exact foldl_hub_eq (fun _ e => (stores_assignCounter e).frame hc (.inl hq)) ..

theorem assignCounter_eq (hc : counterDesc.lookup c = some .aggregate)
    (e : Sigma fun _ : Str => ProxyCounter) :
    (self.assignCounter hub e) (counterName pfx c) =
      if c = e.1 then u64 (hub (counterName pfx c) + e.2.deltas) else hub (counterName pfx c) := by
  by_cases h : c = e.1
  · rw [WorkerMetrics.assignCounter, ← h, WorkerMetrics.lookup_counter hc, if_pos rfl]
    exact Hub.store_self
  · rw [if_neg h]
    exact (stores_assignCounter e).frame (.of_lookup hc) (.inr h)

theorem foldl_assignCounter_eq (hc : counterDesc.lookup c = some .aggregate)
    {l : List (Sigma fun _ : Str => ProxyCounter)} (hl : l.NodupKeys) (hub : Hub) :
    (l.foldl self.assignCounter hub) (counterName pfx c) =
      match l.dlookup c with
      | some counter => u64 (hub (counterName pfx c) + counter.deltas)
      | none => hub (counterName pfx c) := by
  induction l generalizing hub with
  | nil => rfl
  | cons e l ih =>
    obtain ⟨k, counter⟩ := e
    obtain ⟨hk, hl⟩ := List.nodupKeys_cons.mp hl
    rw [List.foldl_cons, ih hl, assignCounter_eq hc]
    by_cases h : c = k
    · subst h
      rw [List.dlookup_eq_none.mpr hk, List.dlookup_cons_eq, if_pos rfl]
    · rw [List.dlookup_cons_ne _ _ h, if_neg h]

/-- What `assign` does to a counter of the aggregate kind. -/
theorem assign_eq (hc : counterDesc.lookup c = some .aggregate) (proxy : Proxy) :
    (self.assign hub proxy) (counterName pfx c) =
      match proxy.lookup c with
      | some counter => u64 (hub (counterName pfx c) + counter.deltas)
      | none => hub (counterName pfx c) := by
  unfold WorkerMetrics.assign
  split
  · rename_i hempty
    have hnone : proxy.lookup c = none := by
      rw [AList.lookup, List.isEmpty_iff.mp hempty]
      rfl
    rw [hnone]
    refine foldl_hub_eq (fun hub d => ?_) ..
    by_cases h : c = d.1
    · rw [WorkerMetrics.updateCounter, ← h, WorkerMetrics.lookup_counter hc]
      exact congrFun (if_neg Aggregation.noConfusion) _
    · exact (stores_updateCounter ..).frame (.of_lookup hc) (.inr h)
  · exact foldl_assignCounter_eq hc proxy.nodupKeys hub

/-- The table adds the sum of its deltas to the counter. -/
theorem assign_accumulate {app : Str} (hc : counterDesc.lookup c = some .aggregate)
    (table : Table app) {n : Nat} (hn : hub (counterName pfx c) = u64 n) :
    (self.assign hub (accumulate hub table)) (counterName pfx c) = u64 (n + deltaSum c table) := by
  have hdeltas := deltas_accumulate hc hub table
  rw [assign_eq hc, hn]
  unfold Proxy.deltas at hdeltas
  split
  · rename_i counter hcounter
    rw [hcounter] at hdeltas
    calc u64 (u64 n + counter.deltas)
        = u64 (u64 n + u64 (deltaSum c table)) := congrArg (fun d => u64 (u64 n + d)) hdeltas
      _ = u64 (n + deltaSum c table) := (Nat.add_mod ..).symm
  · -- without workers there is nothing to add
    rename_i hnone
    rw [hnone] at hdeltas
    have hzero : u64 (deltaSum c table) = 0 := hdeltas.symm
    simp only [u64] at hzero ⊢
    rw [Nat.add_mod, hzero, Nat.add_zero, Nat.mod_mod]

end Assign

end Cocaine.Node.Metrics
