import Mathlib.Data.List.AList
import CocainePlugins.Framework.Dynamic
import CocainePlugins.Framework.Hub
import CocainePlugins.Framework.OrderedMap
import CocainePlugins.Framework.SortedUnion

/-!
# The metrics of an application's workers

`metrics_retriever_t` asks the isolate from time to time for the metrics of the workers in
the pool and of those that died since it asked last, the purgatory. A response updates a table
with a record for each worker, and then the counters of the application from the whole table.

A counter lives in the metrics hub of the context under its name, and the records point to it.
With `keeps` a new record finds the counters of an earlier one of the same name as they were.

The records are indexed by the prefix of their names, so that the table cannot hold the record
of another worker.
-/

namespace Cocaine.Node.Metrics

open Framework

/-- The name of a counter (`make_uint_counter`). -/
def counterName (pfx name : Str) : Str := pfx ++ '.' :: name

/-! ## The records -/

/-- `aggregate_t`. -/
inductive Aggregation where
  | instant | aggregate
deriving DecidableEq, Repr

inductive MetricType where
  | counter | gauge | network
deriving DecidableEq, Repr

structure MetricConf where
  type : MetricType
  aggregation : Aggregation
deriving DecidableEq, Repr

def initMetricsDesc : List (Str × MetricConf) :=
  [("cpu_load".toList, ⟨.gauge, .instant⟩),
   ("mem".toList, ⟨.counter, .instant⟩),
   ("uptime".toList, ⟨.counter, .aggregate⟩),
   ("net".toList, ⟨.network, .aggregate⟩)]

/-- The counters that every record has. -/
def counterDesc : List (Str × Aggregation) :=
  initMetricsDesc.filterMap fun (name, conf) =>
    if conf.type = .counter then some (name, conf.aggregation) else none

def gaugeNames : List Str :=
  initMetricsDesc.filterMap fun (name, conf) => if conf.type = .gauge then some name else none

/-- `counter_metric_t`, without its value, which is in the hub. -/
structure Counter where
  aggregation : Aggregation
  delta : Nat := 0
deriving DecidableEq, Repr

/-- `worker_metrics_t`. A gauge is the double that it gives. -/
structure WorkerMetrics (namePrefix : Str) where
  counters : List (Str × Counter)
  gauges : List (Str × UInt64)
  /-- The networks whose counters are registered. -/
  network : List Str
  updateStamp : Int
  shape : counters.map (fun c => (c.1, c.2.aggregation)) = counterDesc

namespace WorkerMetrics

variable {pfx : Str}

def make (pfx : Str) (keeps : Bool) (hub : Hub) (now : Int) : Hub × WorkerMetrics pfx :=
  (counterDesc.foldl (fun hub c => hub.counter keeps (counterName pfx c.1)) hub,
    { counters := counterDesc.map fun c => (c.1, { aggregation := c.2 })
      gauges := gaugeNames.map fun name => (name, 0)
      network := []
      updateStamp := now
      shape := by decide })

def setDelta (w : WorkerMetrics pfx) (name : Str) (delta : Nat) : WorkerMetrics pfx :=
  { w with
    counters := w.counters.map fun c => (c.1, if c.1 = name then { c.2 with delta } else c.2)
    shape := by
      rw [← w.shape, List.map_map]
      apply List.map_congr_left
      intro c _
      simp only [Function.comp]
      split <;> rfl }

def setGauge (w : WorkerMetrics pfx) (name : Str) (value : UInt64) : WorkerMetrics pfx :=
  { w with gauges := w.gauges.map fun g => (g.1, if g.1 = name then value else g.2) }

def delta (w : WorkerMetrics pfx) (name : Str) : Nat :=
  ((w.counters.lookup name).map Counter.delta).getD 0

end WorkerMetrics

/-! ## A response -/

/-- `as_uint`; anything else throws. -/
def asUint : Dyn → Option Nat
  | .scalar (.uint n) => some n
  | _ => none

section Processor

variable {pfx : Str} (keeps : Bool)

/-- The hub and a record that points into it. -/
abbrev Held (pfx : Str) := Hub × WorkerMetrics pfx

/-- The visitor for unsigned values; the second component is the count of updated metrics. -/
def storeUint (name : Str) (incoming : Nat) (held : Held pfx) : Held pfx × Nat :=
  let (hub, victim) := held
  match victim.counters.lookup name with
  | none => (held, 0)
  | some record =>
    let current := hub (counterName pfx name)
    let victim :=
      if record.aggregation = .aggregate ∧ current ≤ incoming then
        victim.setDelta name (incoming - current)
      else victim
    ((hub.store (counterName pfx name) incoming, victim), 1)

def storeDouble (name : Str) (value : UInt64) (held : Held pfx) : Held pfx × Nat :=
  match held.2.gauges.lookup name with
  | none => (held, 0)
  | some _ => ((held.1, held.2.setGauge name value), 1)

def netName (name direction : Str) : Str := "net.".toList ++ name ++ '.' :: direction

def rxName (pfx name : Str) : Str := counterName pfx (netName name "rx_bytes".toList)

def txName (pfx name : Str) : Str := counterName pfx (netName name "tx_bytes".toList)

/-- `parse_network_record`; without a count it has thrown. -/
def parseNetworkRecord (name : Str) (net : List (Str × Dyn)) (held : Held pfx) :
    Held pfx × Option Nat :=
  match net.lookup "rx_bytes".toList, net.lookup "tx_bytes".toList with
  | some rx, some tx =>
    let (hub, victim) := held
    let (hub, victim) :=
      if victim.network.contains name then (hub, victim)
      else ((hub.counter keeps (rxName pfx name)).counter keeps (txName pfx name),
        { victim with network := name :: victim.network })
    match asUint rx with
    | none => ((hub, victim), none)
    | some received =>
      let hub := hub.store (rxName pfx name) received
      match asUint tx with
      | none => ((hub, victim), none)
      | some sent => ((hub.store (txName pfx name) sent, victim), some 2)
  | _, _ => (held, some 0)

/-- The visitor for objects: networks by their names. -/
def parseNetworks : List (Str × Dyn) → Held pfx → Nat → Held pfx × Option Nat
  | [], held, updated => (held, some updated)
  | (name, .object net) :: rest, held, updated =>
    match parseNetworkRecord keeps name net held with
    | (held, some n) => parseNetworks rest held (updated + n)
    | (held, none) => (held, none)
  | _ :: _, held, _ => (held, none)

/-- `value_processor_t`. What a visitor has stored before it throws stays. -/
def processValue (name : Str) (value : Dyn) (held : Held pfx) : Held pfx × Nat :=
  match value with
  | .scalar (.uint n) => storeUint name n held
  | .scalar (.double value) => storeDouble name value held
  | .object nets =>
    let (held, updated) := parseNetworks keeps nets held 0
    (held, updated.getD 0)
  | _ => (held, 0)

/-- The name of a metric and its type, which stands behind a dot. -/
def decayMetricName (name : Str) : Str × Str :=
  match name.findIdx? (· == '.') with
  | none => (name, [])
  | some pos => (name.take pos, name.drop (pos + 1))

/-- The loop of `fill_metrics`, for one metric. -/
def fillMetric (done : Held pfx × Nat) (metric : Str × Dyn) : Held pfx × Nat :=
  let nm := (decayMetricName metric.1).1
  if nm = [] then done
  else
    let (held, updated) := processValue keeps nm metric.2 done.1
    (held, done.2 + updated)

def fillMetrics (metrics : List (Str × Dyn)) (held : Held pfx) : Held pfx × Nat :=
  metrics.foldl (fillMetric keeps) (held, 0)

end Processor

/-- The metrics of some workers, by their names. -/
structure Response where
  workers : List (Str × List (Str × Dyn))
  nodup : (workers.map Prod.fst).Nodup

section Table

variable (app : Str)

def appPrefix : Str := app ++ ".isolate".toList

def workerPrefix (id : Str) : Str := app ++ ".isolate.".toList ++ id

/-- `stats_table_type`. -/
abbrev Table := AList fun id : Str => WorkerMetrics (workerPrefix app id)

/-- `response_processor_t`, with the hub and the table that it changes. -/
structure Processed where
  hub : Hub
  table : Table app
  /-- The workers that have not been updated for long. -/
  faded : List (Str × Int) := []

end Table

variable {app : Str} (keeps : Bool)

/-- The record of a worker, which is new if the table has none. -/
def Processed.find (done : Processed app) (id : Str) (now : Int) : Held (workerPrefix app id) :=
  match done.table.lookup id with
  | some w => (done.hub, w)
  | none => WorkerMetrics.make (workerPrefix app id) keeps done.hub now

/-- The loop of `process`, for one worker; `clock` is the time at which it comes. -/
def processWorker (fadedTimeout : Int) (clock : Str → Int) (done : Processed app)
    (worker : Str × List (Str × Dyn)) : Processed app :=
  let (id, metrics) := worker
  if id = [] then done
  else
    let now := clock id
    let ((hub, w), updated) := fillMetrics keeps metrics (done.find keeps id now)
    if 0 < updated then
      { done with hub, table := done.table.insert id { w with updateStamp := now } }
    else
      let span := now - w.updateStamp
      { hub
        table := done.table.insert id w
        faded := if fadedTimeout < span then done.faded ++ [(id, span)] else done.faded }

def process (fadedTimeout : Int) (clock : Str → Int) (response : Response) (hub : Hub)
    (table : Table app) : Processed app :=
  response.workers.foldl (processWorker keeps fadedTimeout clock) { hub, table }

/-! ## The application's counters -/

/-- `metrics_aggregate_proxy_t::counter_metric_t`. -/
structure ProxyCounter where
  values : Nat := 0
  deltas : Nat := 0
deriving DecidableEq, Repr

/-- The counters of `metrics_aggregate_proxy_t`. -/
abbrev Proxy := AList fun _ : Str => ProxyCounter

/-- A worker's counter, in the `operator+` of the proxy. -/
def Proxy.addCounter (hub : Hub) (pfx : Str) (proxy : Proxy) (metric : Str × Counter) : Proxy :=
  let record := (proxy.lookup metric.1).getD {}
  proxy.insert metric.1 {
    values := u64 (record.values + hub (counterName pfx metric.1))
    deltas := u64 (record.deltas + metric.2.delta) }

def Proxy.add {pfx : Str} (hub : Hub) (proxy : Proxy) (w : WorkerMetrics pfx) : Proxy :=
  w.counters.foldl (Proxy.addCounter hub pfx) proxy

/-- `boost::accumulate` over the records of the table. -/
def accumulate (hub : Hub) (table : Table app) : Proxy :=
  table.entries.foldl (fun proxy e => proxy.add hub e.2) ∅

/-- A counter of the proxy, in `assign`. -/
def WorkerMetrics.assignCounter {pfx : Str} (self : WorkerMetrics pfx) (hub : Hub)
    (e : Sigma fun _ : Str => ProxyCounter) : Hub :=
  match self.counters.lookup e.1 with
  | none => hub
  | some record =>
    match record.aggregation with
    | .aggregate => hub.fetchAdd (counterName pfx e.1) e.2.deltas
    | .instant => hub.store (counterName pfx e.1) e.2.values

def WorkerMetrics.updateCounter {pfx : Str} (self : WorkerMetrics pfx) (hub : Hub) (name : Str)
    (desired : Aggregation) (value : Nat) : Hub :=
  match self.counters.lookup name with
  | none => hub
  | some record =>
    if record.aggregation = desired then hub.store (counterName pfx name) value else hub

/-- `assign`. Without workers the instant counters become zero. -/
def WorkerMetrics.assign {pfx : Str} (self : WorkerMetrics pfx) (hub : Hub) (proxy : Proxy) : Hub :=
  if proxy.entries.isEmpty then
    counterDesc.foldl (fun hub c => self.updateCounter hub c.1 .instant 0) hub
  else proxy.entries.foldl self.assignCounter hub

/-! ## The retriever -/

def purgatoryQueueBound : Nat := 8 * 1024

def missedUpdatesTimes : Int := 10

/-- `metrics_retriever_t`. -/
structure Retriever (app : Str) where
  pollInterval : Int
  hub : Hub
  purgatory : OrderedMap Str Unit := {}
  metrics : Table app := ∅
  appAggregateMetrics : WorkerMetrics (appPrefix app)

namespace Retriever

def selfName (name : Str) : Str := counterName "node.isolate.poll.metrics".toList name

/-- A new retriever, in a context whose hub has no counters yet. -/
def start (app : Str) (pollInterval : Int) (now : Int) : Retriever app :=
  let (hub, appAggregateMetrics) := WorkerMetrics.make (appPrefix app) true (fun _ => 0) now
  { pollInterval, hub, appAggregateMetrics }

/-- `metrics_handle_t::on_data`, and the workers it warns of. The count of processed names that
it adds up is always zero. -/
def onData (clock : Str → Int) (response : Response) (r : Retriever app) :
    Retriever app × List (Str × Int) :=
  let done := process keeps (r.pollInterval * missedUpdatesTimes) clock response r.hub r.metrics
  let hub := r.appAggregateMetrics.assign done.hub (accumulate done.hub done.table)
  let hub := hub.fetchAdd (selfName "uuids.recieved".toList) 0
  let hub := hub.fetchAdd (selfName "responses".toList) 1
  ({ r with hub, metrics := done.table }, done.faded)

/-- `metrics_handle_t::on_error`. -/
def onError (notConnected : Bool) (r : Retriever app) : Retriever app :=
  if notConnected then r
  else { r with hub := r.hub.fetchAdd (selfName "recieve.errors".toList) 1 }

/-- The first half of `add_post_mortem`: is there room in the purgatory? -/
def hasRoom (r : Retriever app) : Bool := r.purgatory.size < purgatoryQueueBound

/-- The second half of `add_post_mortem`, which takes the lock anew. -/
def emplacePostMortem (id : Str) (r : Retriever app) : Retriever app :=
  let purgatory := r.purgatory.put id ()
  { r with
    purgatory
    hub := r.hub.store (selfName "postmortem.queue.size".toList) purgatory.size }

/-- The names of the workers in the pool, each of them once. -/
abbrev Ids := { ids : List Str // ids.Nodup }

/-- The query of `poll_metrics` and what it does to the purgatory, until the query is sent. -/
def pollQuery (alive : Ids) (r : Retriever app) : List Str × Retriever app :=
  let query := setUnion (alive.val.insertionSort (· ≤ ·)) r.purgatory.keys
  let hub := r.hub.store (selfName "postmortem.queue.size".toList) 0
  let hub := if query.isEmpty then hub.fetchAdd (selfName "empty.requests".toList) 1 else hub
  let hub := hub.fetchAdd (selfName "requests".toList) 1
  (query, { r with purgatory := {}, hub })

/-- A record of the old table that is moved to the new one. -/
def preserve (table preserved : Table app) (id : Str) : Table app :=
  match table.lookup id with
  | some w => if (preserved.lookup id).isSome then preserved else preserved.insert id w
  | none => preserved

/-- What `poll_metrics` does to the table after the query is sent. -/
def pollPreserve (query : List Str) (r : Retriever app) : Retriever app :=
  { r with
    metrics := query.foldl (preserve r.metrics) ∅
    hub := r.hub.fetchAdd (selfName "uuids.requested".toList) query.length }

end Retriever

/-- How a call of `poll_metrics` ends. -/
structure Polled (app : Str) where
  retriever : Retriever app
  /-- The query that the isolate has got. -/
  query : Option (List Str) := none
  /-- The timer of the next poll is armed. -/
  ignited : Bool := false

/-- `metrics_retriever_t::poll_metrics`: the timer's error, the engine's pool if the engine still
is there, and whether there is an isolate. -/
def Retriever.pollMetrics (ec : Bool) (parent : Option Retriever.Ids) (isolate : Bool)
    (r : Retriever app) : Polled app :=
  if ec then { retriever := r }
  else
    match parent with
    | none => { retriever := r }
    | some alive =>
      if isolate then
        let (query, r) := r.pollQuery alive
        { retriever := r.pollPreserve query, query := some query, ignited := true }
      else { retriever := r, ignited := true }

end Cocaine.Node.Metrics
