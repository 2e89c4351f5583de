import CocainePlugins.Node.Metrics.Counters
import CocainePlugins.Node.Metrics.Poll

/-!
# What an application's counter should be

The ledger of a counter follows the same polls and responses as the retriever: it knows what each
worker of the table has reported last, zero for a worker that is new there, and sums up by how
much the reports have risen. The retriever keeps with each worker the last rise, `delta`, and on
each response adds the deltas of the whole table: a rise is counted again on every response that
does not replace it. `Counted` says when no response does this, and `counter_eq_ledger` that the
application's counter then is the ledger's.
-/

namespace Cocaine.Node.Metrics

open Framework

variable {app : Str}

/-! ## The ledger -/

/-- By how much the values rise, one after the other; a fall counts for nothing. -/
def rises : Nat → List Nat → Nat
  | _, [] => 0
  | last, v :: vs => (v - last) + rises v vs

structure Ledger where
  /-- The last report of each worker in the table. -/
  last : Str → Option Nat := fun _ => none
  total : Nat := 0

namespace Ledger

/-- The reports of a worker; the worker without a name is no worker. -/
def report (c : Str) (l : Ledger) (worker : Str × List (Str × Dyn)) : Ledger :=
  if worker.1 = [] then l
  else
    let last := (l.last worker.1).getD 0
    let values := reports c worker.2
    { last := fun id => if id = worker.1 then some (values.getLastD last) else l.last id
      total := l.total + rises last values }

theorem last_report {c id : Str} {l : Ledger} {metrics : List (Str × Dyn)} (hid : id ≠ []) (k : Str) :
    (l.report c (id, metrics)).last k =
      if k = id then some ((reports c metrics).getLastD ((l.last id).getD 0)) else l.last k := by
  rw [report, if_neg hid]

theorem total_report {c id : Str} {l : Ledger} {metrics : List (Str × Dyn)} (hid : id ≠ []) :
    (l.report c (id, metrics)).total =
      l.total + rises ((l.last id).getD 0) (reports c metrics) := by
  rw [report, if_neg hid]

/-- A poll forgets the workers that it does not ask for. -/
def keep (query : List Str) (l : Ledger) : Ledger :=
  { l with last := fun id => if query.contains id then l.last id else none }

def step (c : Str) (l : Ledger) (st : Polling app) : Label → Ledger
  | .preserve => (st.pending.map fun query => l.keep query).getD l
  | .data _ response => response.workers.foldl (report c) l
  | _ => l

end Ledger

/-- The retriever, and the ledger of one of its counters. -/
structure Metered (app : Str) where
  polling : Polling app
  ledger : Ledger := {}

def meteredSystem (keeps : Bool) (app c : Str) : System (Metered app) Label where
  init m := (pollingSystem keeps app).init m.polling ∧ m.ledger = {}
  step m a :=
    (step keeps m.polling a).map fun polling =>
      { polling, ledger := m.ledger.step c m.polling a }

/-! ## When every rise is counted once -/

def workerCounter (app id c : Str) : Str := counterName (workerPrefix app id) c

/-- The reports of a worker replace its delta, or there is nothing to replace; a worker that is new
in the table finds its counter at zero. -/
def Replaces (keeps : Bool) (c : Str) (hub : Hub) (table : Table app)
    (worker : Str × List (Str × Dyn)) : Prop :=
  match table.lookup worker.1 with
  | some w =>
    (reports c worker.2).length ≤ 1 ∧
    ((∀ v ∈ reports c worker.2, v < hub (workerCounter app worker.1 c)) → w.delta c = 0)
  | none =>
    worker.1 ≠ [] →
    (reports c worker.2).length ≤ 1 ∧
    (keeps = true → hub (workerCounter app worker.1 c) = 0)

/-- A response that leaves no delta for the second time: every worker of the table whose last
report has risen is reported again, once and with no less. -/
def Counted (keeps : Bool) (c : Str) (m : Metered app) : Label → Prop
  | .data _ response =>
    (∀ e ∈ m.polling.retriever.metrics.entries,
      response.workers.lookup e.1 = none → e.2.delta c = 0) ∧
    ∀ worker ∈ response.workers,
      Replaces keeps c m.polling.retriever.hub m.polling.retriever.metrics worker
  | _ => True

instance (keeps : Bool) (c : Str) (hub : Hub) (table : Table app)
    (worker : Str × List (Str × Dyn)) : Decidable (Replaces keeps c hub table worker) := by
  unfold Replaces
  split <;> infer_instance

instance (keeps : Bool) (c : Str) (m : Metered app) (a : Label) : Decidable (Counted keeps c m a) := by
  unfold Counted
  cases a <;> infer_instance

/-! ## The loop over the workers -/

/-- The ledger knows the workers of the table and their values. -/
def Agrees (c : Str) (hub : Hub) (table : Table app) (l : Ledger) : Prop :=
  ∀ id, l.last id = (table.lookup id).map fun _ => hub (workerCounter app id c)

section Loop

variable {keeps : Bool} {c : Str} {fadedTimeout : Int} {clock : Str → Int} {done : Processed app}
  {l : Ledger}

theorem find_frame {id q : Str} {now : Int} (hc : IsCounter c) (hq : q ≠ workerPrefix app id) :
    (done.find keeps id now).1 (counterName q c) = done.hub (counterName q c) := by
  unfold Processed.find
  split
  · rfl
  · exact make_frame hc hq

/-- What `processWorker` does to a counter: it changes only the record of its worker. -/
theorem processWorker_eq (keeps : Bool) (fadedTimeout : Int) (clock : Str → Int)
    (done : Processed app) (hc : counterDesc.lookup c = some .aggregate) {id : Str} (hid : id ≠ [])
    (metrics : List (Str × Dyn)) :
    ∃ w : WorkerMetrics (workerPrefix app id),
      (processWorker keeps fadedTimeout clock done (id, metrics)).table = done.table.insert id w ∧
      ((processWorker keeps fadedTimeout clock done (id, metrics)).hub (workerCounter app id c),
        w.delta c) = (reports c metrics).foldl tally (read c (done.find keeps id (clock id))) ∧
      ∀ q, q ≠ workerPrefix app id →
        (processWorker keeps fadedTimeout clock done (id, metrics)).hub (counterName q c) =
          done.hub (counterName q c) := by
  have hread := read_fillMetrics keeps (done.find keeps id (clock id)) hc metrics
  have hframe := fun q (hq : q ≠ workerPrefix app id) =>
    (fillMetrics_frame keeps (done.find keeps id (clock id)) (.of_lookup hc) hq metrics).trans
      (find_frame (.of_lookup hc) hq)
  simp only [processWorker, if_neg hid]
  split
  · exact ⟨_, rfl, hread, hframe⟩
  · exact ⟨_, rfl, hread, hframe⟩

/-- One report that replaces the delta, or none when there is nothing to replace. -/
theorem foldl_tally_eq {values : List Nat} {value delta : Nat} (hlen : values.length ≤ 1)
    (hdelta : (∀ v ∈ values, v < value) → delta = 0) :
    values.foldl tally (value, delta) = (values.getLastD value, rises value values) := by
  match values, hlen with
  | [], _ => rw [hdelta (by simp)]; rfl
  | [v], _ =>
    simp only [List.foldl_cons, List.foldl_nil, tally, rises, List.getLastD]
    split
    · rfl
    · rename_i hlt
      rw [hdelta (by simpa using hlt), Nat.sub_eq_zero_of_le (Nat.le_of_not_le hlt)]
      rfl

def deltaAt (c : Str) (table : Table app) (id : Str) : Nat := valueAt (fun _ w => w.delta c) table id

theorem deltaSum_insert (c : Str) (table : Table app) {id : Str}
    (w : WorkerMetrics (workerPrefix app id)) :
    deltaSum c (table.insert id w) + deltaAt c table id = deltaSum c table + w.delta c :=
  sumOver_insert (f := fun id (w : WorkerMetrics (workerPrefix app id)) => w.delta c)
    (s := table) (a := id) w

theorem deltaAt_insert_of_ne (c : Str) (table : Table app) {id k : Str} (h : k ≠ id)
    (w : WorkerMetrics (workerPrefix app id)) :
    deltaAt c (table.insert id w) k = deltaAt c table k :=
  valueAt_insert_of_ne (f := fun id (w : WorkerMetrics (workerPrefix app id)) => w.delta c)
    (s := table) h w

theorem Replaces.congr {worker : Str × List (Str × Dyn)} {hub hub' : Hub} {table table' : Table app}
    (h : Replaces keeps c hub table worker)
    (htable : table'.lookup worker.1 = table.lookup worker.1)
    (hhub : hub' (workerCounter app worker.1 c) = hub (workerCounter app worker.1 c)) :
    Replaces keeps c hub' table' worker := by
  rwa [Replaces, htable, hhub]

/-- The loop over the workers of a response, when those of `rest` are still to come; `total` is
what the ledger had before. -/
structure Looping (keeps : Bool) (c : Str) (total : Nat) (rest : List (Str × List (Str × Dyn)))
    (done : Processed app) (l : Ledger) : Prop where
  agrees : Agrees c done.hub done.table l
  nameless : done.table.lookup [] = none
  app : done.hub (counterName (appPrefix app) c) = u64 total
  replaces : ∀ worker ∈ rest, Replaces keeps c done.hub done.table worker
  sum : deltaSum c done.table + total =
    l.total + (rest.map fun worker => deltaAt c done.table worker.1).sum

variable {rest : List (Str × List (Str × Dyn))}

/-- The counter of a worker when its reports come, and what they make of it. -/
theorem Looping.foldl_tally {total : Nat} {id : Str}
    {metrics : List (Str × Dyn)} {now : Int} (hc : counterDesc.lookup c = some .aggregate)
    (h : Looping keeps c total ((id, metrics) :: rest) done l) (hid : id ≠ []) :
    (reports c metrics).foldl tally (read c (done.find keeps id now)) =
      ((reports c metrics).getLastD ((l.last id).getD 0),
        rises ((l.last id).getD 0) (reports c metrics)) := by
  have hreplaces := h.replaces (id, metrics) List.mem_cons_self
  have hagrees := h.agrees id
  simp only [Replaces] at hreplaces
  cases hlookup : done.table.lookup id with
  | some w =>
    rw [hlookup] at hreplaces hagrees
    have hread : read c (done.find keeps id now) = (done.hub (workerCounter app id c), w.delta c) := by
      rw [Processed.find, hlookup]
      rfl
    rw [hread, hagrees]
    exact foldl_tally_eq hreplaces.1 hreplaces.2
  | none =>
    rw [hlookup] at hreplaces hagrees
    obtain ⟨hlen, hzero⟩ := hreplaces hid
    have hread : read c (done.find keeps id now) = (0, 0) := by
      rw [Processed.find, hlookup]
      exact read_make (.of_lookup hc) hzero
    rw [hread, hagrees]
    exact foldl_tally_eq hlen fun _ => rfl

theorem Looping.processWorker {total : Nat}
    {worker : Str × List (Str × Dyn)} (hc : counterDesc.lookup c = some .aggregate)
    (h : Looping keeps c total (worker :: rest) done l) (hnew : worker.1 ∉ rest.map Prod.fst) :
    Looping keeps c total rest (Metrics.processWorker keeps fadedTimeout clock done worker)
      (l.report c worker) := by
  obtain ⟨id, metrics⟩ := worker
  by_cases hid : id = []
  · -- the worker without a name is passed over
    subst hid
    have hzero : deltaAt c done.table [] = 0 := by
      rw [deltaAt, valueAt, h.nameless]
      rfl
    have hsum := h.sum
    rw [List.map_cons, List.sum_cons, hzero, Nat.zero_add] at hsum
    exact ⟨h.agrees, h.nameless, h.app, fun w hw => h.replaces w (List.mem_cons_of_mem _ hw), hsum⟩
  · obtain ⟨w, htable, hown, hframe⟩ :=
      processWorker_eq keeps fadedTimeout clock done hc hid metrics
    rw [h.foldl_tally hc hid] at hown
    obtain ⟨hvalue, hdelta⟩ := Prod.mk.inj hown
    have hother : ∀ k, k ≠ id →
        (Metrics.processWorker keeps fadedTimeout clock done (id, metrics)).hub
          (workerCounter app k c) = done.hub (workerCounter app k c) :=
      fun k hk => hframe _ fun heq => hk (workerPrefix_inj heq)
    have hrest : ∀ worker ∈ rest, worker.1 ≠ id :=
      fun worker hw heq => hnew (List.mem_map.mpr ⟨worker, hw, heq⟩)
    refine ⟨fun k => ?_, ?_, ?_, fun worker hw => ?_, ?_⟩
    · by_cases hk : k = id
      · subst hk
        rw [Ledger.last_report hid, if_pos rfl, htable, AList.lookup_insert, Option.map_some, hvalue]
      · rw [Ledger.last_report hid, if_neg hk, htable, AList.lookup_insert_ne hk, hother k hk,
          h.agrees k]
    · rw [htable, AList.lookup_insert_ne (Ne.symm hid)]
      exact h.nameless
    · exact (hframe _ (workerPrefix_ne_appPrefix app id).symm).trans h.app
    · refine (h.replaces worker (List.mem_cons_of_mem _ hw)).congr ?_ (hother _ (hrest worker hw))
      rw [htable, AList.lookup_insert_ne (hrest worker hw)]
    · have hinsert := deltaSum_insert c done.table w
      have hsame : rest.map (fun worker => deltaAt c (done.table.insert id w) worker.1) =
          rest.map fun worker => deltaAt c done.table worker.1 :=
        List.map_congr_left fun worker hw => deltaAt_insert_of_ne c _ (hrest worker hw) w
      have hsum := h.sum
      simp only [List.map_cons, List.sum_cons] at hsum
      rw [htable, hsame, Ledger.total_report hid]
      omega

theorem Looping.process {total : Nat} {workers : List (Str × List (Str × Dyn))}
    (fadedTimeout : Int) (clock : Str → Int) (hc : counterDesc.lookup c = some .aggregate) (hnodup : (workers.map Prod.fst).Nodup)
    (h : Looping keeps c total workers done l) :
    Looping keeps c total [] (workers.foldl (Metrics.processWorker keeps fadedTimeout clock) done)
      (workers.foldl (Ledger.report c) l) := by
  induction workers generalizing done l with
  | nil => exact h
  | cons worker workers ih =>
    obtain ⟨hnew, hnodup⟩ := List.nodup_cons.mp hnodup
    exact ih hnodup (h.processWorker hc hnew)

end Loop

/-! ## Runs -/

/-- The counters of this name are the same in both hubs. -/
def SameCounters (c : Str) (hub hub' : Hub) : Prop :=
  ∀ pfx, hub' (counterName pfx c) = hub (counterName pfx c)

def selfNames : List Str :=
  ["uuids.requested", "uuids.recieved", "requests", "empty.requests", "responses", "recieve.errors",
    "postmortem.queue.size"].map String.toList

section Same

variable {c : Str} {hub : Hub}

theorem SameCounters.refl : SameCounters c hub hub := fun _ => rfl

theorem SameCounters.store {hub' : Hub} (h : SameCounters c hub hub') (hc : IsCounter c)
    {name : Str} (hname : name ∈ selfNames) (value : Nat) :
    SameCounters c hub (hub'.store (Retriever.selfName name) value) := by
  intro pfx
  have hcomp : ∀ name ∈ selfNames, ∃ component ∈ otherComponents,
      afterLast '.' (Retriever.selfName name) = some component := by decide +kernel
  obtain ⟨component, hother, hafter⟩ := hcomp name hname
  exact (Hub.store_of_ne (counterName_ne_of_component hc hother hafter)).trans (h pfx)

variable {r : Retriever app}

theorem same_onError (hc : IsCounter c) (notConnected : Bool) :
    SameCounters c r.hub (r.onError notConnected).hub := by
  unfold Retriever.onError
  split
  · exact .refl
  · exact SameCounters.refl.store hc (by decide +kernel) _

theorem same_emplacePostMortem (hc : IsCounter c) (id : Str) :
    SameCounters c r.hub (r.emplacePostMortem id).hub :=
  SameCounters.refl.store hc (by decide +kernel) _

theorem same_pollQuery (hc : IsCounter c) (alive : Retriever.Ids) :
    SameCounters c r.hub (r.pollQuery alive).2.hub := by
  have hqueue : SameCounters c r.hub
      (r.hub.store (Retriever.selfName "postmortem.queue.size".toList) 0) :=
    SameCounters.refl.store hc (by decide +kernel) 0
  simp only [Retriever.pollQuery]
  split
  · exact (hqueue.store hc (by decide +kernel) _).store hc (by decide +kernel) _
  · exact hqueue.store hc (by decide +kernel) _

theorem same_pollPreserve (hc : IsCounter c) (query : List Str) :
    SameCounters c r.hub (r.pollPreserve query).hub :=
  SameCounters.refl.store hc (by decide +kernel) _

end Same

/-- The retriever's counter is the ledger's. -/
structure Metered.Sound (c : Str) (m : Metered app) : Prop where
  agrees : Agrees c m.polling.retriever.hub m.polling.retriever.metrics m.ledger
  nameless : m.polling.retriever.metrics.lookup [] = none
  total : m.polling.retriever.hub (counterName (appPrefix app) c) = u64 m.ledger.total


variable {c : Str}

theorem Metered.Sound.init {pollInterval now : Int} :
    Metered.Sound c { polling := { retriever := Retriever.start app pollInterval now } } where
  agrees _ := rfl
  nameless := rfl
  total := by
    have hmake : (WorkerMetrics.make (appPrefix app) true (fun _ => 0) now).1 = fun _ => 0 := by
      simp [WorkerMetrics.make, Hub.counter]
    exact congrFun hmake _

/-- The table may lose records, and the other counters of the hub may change. -/
theorem Metered.Sound.same {m : Metered app} {st : Polling app} (h : m.Sound c)
    (hsame : SameCounters c m.polling.retriever.hub st.retriever.hub)
    (htable : st.retriever.metrics = m.polling.retriever.metrics) :
    Metered.Sound c { m with polling := st } where
  agrees id := by
    rw [h.agrees id, htable]
    simp only [workerCounter, hsame (workerPrefix app id)]
  nameless := htable ▸ h.nameless
  total := (hsame _).trans h.total

theorem Metered.Sound.pollPreserve {m : Metered app} (h : m.Sound c) (hc : IsCounter c)
    (query : List Str) :
    Metered.Sound c {
      polling := { m.polling with
        retriever := m.polling.retriever.pollPreserve query, pending := none }
      ledger := m.ledger.keep query } where
  agrees id := by
    have hsame := same_pollPreserve (r := m.polling.retriever) hc query (workerPrefix app id)
    simp only [Ledger.keep, List.contains_iff_mem, Retriever.lookup_pollPreserve, workerCounter, hsame]
    split
    · exact h.agrees id
    · rfl
  nameless := by
    rw [Retriever.lookup_pollPreserve, h.nameless, ite_self]
  total := (same_pollPreserve hc query _).trans h.total

theorem Metered.Sound.data {m : Metered app} {keeps : Bool} {clock : Str → Int}
    {response : Response} (h : m.Sound c) (hc : counterDesc.lookup c = some .aggregate)
    (hcounted : Counted keeps c m (.data clock response)) :
    Metered.Sound c {
      polling := { m.polling with
        retriever := (m.polling.retriever.onData keeps clock response).1 }
      ledger := response.workers.foldl (Ledger.report c) m.ledger } := by
  obtain ⟨hmissing, hreplaces⟩ := hcounted
  have hstart : Looping keeps c m.ledger.total response.workers
      { hub := m.polling.retriever.hub, table := m.polling.retriever.metrics } m.ledger := by
    refine ⟨h.agrees, h.nameless, h.total, hreplaces, ?_⟩
    have hsum := sumOver_eq (f := fun id (w : WorkerMetrics (workerPrefix app id)) => w.delta c)
      response.nodup fun e he hnot => hmissing e he (lookup_eq_none.mpr hnot)
    rw [List.map_map] at hsum
    rw [Nat.add_comm]
    exact congrArg (m.ledger.total + ·) hsum
  have hend := hstart.process (m.polling.retriever.pollInterval * missedUpdatesTimes) clock hc
    response.nodup
  have hcounter : IsCounter c := .of_lookup hc
  -- after the loop come the application's counters, and then the retriever's own
  have hsame : SameCounters c
      (m.polling.retriever.appAggregateMetrics.assign _ (accumulate _ _))
      (m.polling.retriever.onData keeps clock response).1.hub :=
    (SameCounters.refl.store hcounter (by decide +kernel) _).store hcounter (by decide +kernel) _
  refine ⟨fun id => ?_, hend.nameless, ?_⟩
  · have hworker := (hsame (workerPrefix app id)).trans
      (assign_frame hcounter (workerPrefix_ne_appPrefix app id) _)
    rw [workerCounter, hworker]
    exact hend.agrees id
  · refine ((hsame _).trans (assign_accumulate hc _ hend.app)).trans (congrArg u64 ?_)
    have hsum := hend.sum
    rwa [List.map_nil, List.sum_nil, Nat.add_zero, Nat.add_comm] at hsum

theorem Metered.Sound.step {m m' : Metered app} {keeps : Bool} {a : Label} (h : m.Sound c)
    (hc : counterDesc.lookup c = some .aggregate) (hcounted : Counted keeps c m a)
    (hs : (meteredSystem keeps app c).step m a = some m') : m'.Sound c := by
  obtain ⟨st, hst, rfl⟩ := Option.map_eq_some_iff.mp hs
  have hcounter : IsCounter c := .of_lookup hc
  cases a with
  | check id =>
    simp only [Metrics.step, Option.some.injEq] at hst
    subst hst
    split <;> exact h.same .refl rfl
  | emplace id =>
    obtain ⟨-, rfl⟩ := of_guard hst
    exact h.same (same_emplacePostMortem hcounter id) rfl
  | query alive =>
    obtain ⟨-, rfl⟩ := of_guard hst
    exact h.same (same_pollQuery hcounter alive) rfl
  | preserve =>
    obtain ⟨query, hpending, rfl⟩ := Option.map_eq_some_iff.mp hst
    simp only [Ledger.step, hpending]
    exact h.pollPreserve hcounter query
  | data clock response =>
    cases hst
    exact h.data hc hcounted
  | error notConnected =>
    cases hst
    refine h.same (same_onError hcounter notConnected) ?_
    simp only [Retriever.onError]
    split <;> rfl

/-- While every response counts each rise once, an application's counter of the aggregate kind is
the sum of the rises of its workers' reports. -/
theorem counter_eq_ledger {keeps : Bool} {app c : Str} {m : Metered app}
    (hc : counterDesc.lookup c = some .aggregate)
    (hr : (meteredSystem keeps app c).Reachable (Counted keeps c) m) :
    m.polling.retriever.hub (counterName (appPrefix app) c) = m.ledger.total % 2 ^ 64 := by
  have hsound : m.Sound c := by
    refine hr.induct (P := Metered.Sound c) ?_ fun h hcounted hs => h.step hc hcounted hs
    rintro ⟨polling, ledger⟩ ⟨⟨pollInterval, now, rfl⟩, rfl⟩
    exact .init
  exact hsound.total

/-- A response with the times that some workers are up. -/
def uptimes (workers : List (Str × Nat)) (h : (workers.map Prod.fst).Nodup) : Response where
  workers := workers.map fun w => (w.1, [("uptime".toList, .uint w.2)])
  nodup := by rwa [List.map_map]

/-- Two workers are up for 5 and 7; one of them dies and is forgotten, the other goes on to 6. -/
theorem counter_eq_ledger_uptime :
    ∃ m : Metered "echo".toList,
      (meteredSystem true _ "uptime".toList).Reachable (Counted true "uptime".toList) m ∧
      m.ledger.total = 13 ∧ m.polling.retriever.hub "echo.isolate.uptime".toList = 13 := by
  obtain ⟨m, hr, htotal⟩ := (meteredSystem true "echo".toList "uptime".toList).exists_reachable
    (Counted true "uptime".toList) (P := fun m => m.ledger.total = 13)
    (s := { polling := { retriever := .start "echo".toList 5 0 } })
    [.data (fun _ => 0) (uptimes [(['a'], 5), (['b'], 7)] (by decide)),
      .query ⟨[['a']], by decide⟩, .preserve,
      .data (fun _ => 5) (uptimes [(['a'], 6)] (by decide))]
    ⟨⟨5, 0, rfl⟩, rfl⟩ (by decide +kernel)
  refine ⟨m, hr, htotal, ?_⟩
  have hcounter := counter_eq_ledger (by decide) hr
  rwa [htotal] at hcounter

/-- A worker is up for 5, and the next response does not mention it: its 5 are counted twice. -/
theorem missing_report_counted_again :
    ∃ m : Metered "echo".toList,
      (meteredSystem true _ "uptime".toList).Reachable System.Any m ∧
      m.ledger.total = 5 ∧ m.polling.retriever.hub "echo.isolate.uptime".toList = 10 :=
  (meteredSystem true "echo".toList "uptime".toList).exists_reachable System.Any
    (s := { polling := { retriever := .start "echo".toList 5 0 } })
    [.data (fun _ => 0) (uptimes [(['a'], 5)] (by decide)),
      .data (fun _ => 5) (uptimes [] (by decide))]
    ⟨⟨5, 0, rfl⟩, rfl⟩ (by decide +kernel)

end Cocaine.Node.Metrics
