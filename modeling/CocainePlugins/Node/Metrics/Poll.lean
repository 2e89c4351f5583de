import CocainePlugins.Framework.Transition
import CocainePlugins.Node.Metrics.Retriever

/-!
# Polls and despawns

`add_post_mortem` runs in the thread that lost a worker and takes the lock of the purgatory
twice, so that another thread may come between; `poll_metrics` sends its query before it takes
the lock of the table, so that a response may come between. The system has these halves as steps
of their own, and `steps_pollMetrics` says that a poll is its two halves.

`pollQuery_spec` and `lookup_pollPreserve` say what a poll does, from any pool, purgatory and
table; `Owed` is what a report leaves behind until a poll takes it.
-/

namespace Cocaine.Node.Metrics

open Framework

variable {app : Str}

namespace Retriever

variable {r : Retriever app}

theorem mem_pollQuery (alive : Ids) (id : Str) :
    id ∈ (r.pollQuery alive).1 ↔ id ∈ alive.val ∨ id ∈ r.purgatory.keys := by
  simp only [pollQuery, mem_setUnion, List.mem_insertionSort]

theorem sorted_pollQuery (alive : Ids) : (r.pollQuery alive).1.Pairwise (· < ·) :=
  sorted_setUnion (sorted_insertionSort alive.property) OrderedMap.sorted_keys

theorem lookup_preserve (table preserved : Table app) (i id : Str) :
    (preserve table preserved i).lookup id =
      if id = i then (preserved.lookup id).or (table.lookup id) else preserved.lookup id := by
  unfold preserve
  split
  · rename_i w hw
    by_cases hid : id = i
    · subst hid
      cases hp : preserved.lookup id with
      | none => simp [hw]
      | some w' => simp [hp]
    · rw [if_neg hid]
      split
      · rfl
      · exact AList.lookup_insert_ne hid
  · rename_i hnone
    split
    · rename_i hid
      rw [hid, hnone, Option.or_none]
    · rfl

theorem lookup_foldl_preserve (table preserved : Table app) (query : List Str) (id : Str) :
    (query.foldl (preserve table) preserved).lookup id =
      if id ∈ query then (preserved.lookup id).or (table.lookup id) else preserved.lookup id := by
  induction query generalizing preserved with
  | nil => simp
  | cons i query ih =>
    rw [List.foldl_cons, ih, lookup_preserve]
    by_cases hid : id = i
    · simp [hid, Option.or_assoc]
    · simp [hid]

/-- The table keeps the records of the queried workers and no others. -/
theorem lookup_pollPreserve (query : List Str) (id : Str) :
    (r.pollPreserve query).metrics.lookup id = if id ∈ query then r.metrics.lookup id else none := by
  simp only [pollPreserve, lookup_foldl_preserve, AList.lookup_empty, Option.none_or]

end Retriever

/-! ## Runs -/

/-- The retriever among the threads that use it. -/
structure Polling (app : Str) where
  retriever : Retriever app
  /-- Reports of dead workers that have found room and are not in the purgatory yet. -/
  admitted : List Str := []
  /-- The query of a poll that has not come to the table yet. -/
  pending : Option (List Str) := none

inductive Label where
  /-- `add_post_mortem` compares the size of the purgatory. -/
  | check (id : Str)
  /-- `add_post_mortem` puts the name into the purgatory. -/
  | emplace (id : Str)
  /-- `poll_metrics` makes its query and sends it. -/
  | query (alive : Retriever.Ids)
  /-- `poll_metrics` makes the new table. -/
  | preserve
  | data (clock : Str → Int) (response : Response)
  | error (notConnected : Bool)

def step (keeps : Bool) (st : Polling app) : Label → Option (Polling app)
  | .check id =>
    some (if st.retriever.hasRoom then { st with admitted := id :: st.admitted } else st)
  | .emplace id =>
    if st.admitted.contains id then
      some { st with
        admitted := st.admitted.erase id
        retriever := st.retriever.emplacePostMortem id }
    else none
  | .query alive =>
    if st.pending = none then
      let (query, retriever) := st.retriever.pollQuery alive
      some { st with retriever, pending := some query }
    else none
  | .preserve =>
    st.pending.map fun query =>
      { st with retriever := st.retriever.pollPreserve query, pending := none }
  | .data clock response => some { st with retriever := (st.retriever.onData keeps clock response).1 }
  | .error notConnected => some { st with retriever := st.retriever.onError notConnected }

def pollingSystem (keeps : Bool) (app : Str) : System (Polling app) Label where
  init st := ∃ pollInterval now, st = { retriever := .start app pollInterval now }
  step := step keeps

theorem steps_pollMetrics (keeps : Bool) (st : Polling app) (alive : Retriever.Ids)
    (h : st.pending = none) :
    (step keeps st (.query alive)).bind (step keeps · .preserve) =
      some { st with retriever := (st.retriever.pollMetrics false (some alive) true).retriever } := by
  simp [step, h, Retriever.pollMetrics]

/-! ## Reports -/

/-- A report of `id` that found room is on its way to the purgatory, or there. -/
def Owed (id : Str) (st : Polling app) : Prop :=
  id ∈ st.admitted ∨ id ∈ st.retriever.purgatory.keys

theorem Owed.check {keeps : Bool} {id : Str} {st t : Polling app}
    (hroom : st.retriever.hasRoom = true)
    (hs : (pollingSystem keeps app).step st (.check id) = some t) : Owed id t := by
  simp only [pollingSystem, Metrics.step, hroom, if_true, Option.some.injEq] at hs
  subst hs
  exact .inl List.mem_cons_self

/-- A poll takes what is in the purgatory; what is on its way there stays on its way. -/
theorem Owed.step {keeps : Bool} {id : Str} {st t : Polling app} {a : Label} (h : Owed id st)
    (hok : ∀ alive, a = .query alive → id ∈ st.admitted)
    (hs : (pollingSystem keeps app).step st a = some t) : Owed id t := by
  change Metrics.step keeps st a = some t at hs
  cases a with
  | check i =>
    simp only [Metrics.step, Option.some.injEq] at hs
    subst hs
    split
    · exact h.imp (List.mem_cons_of_mem _) fun hp => hp
    · exact h
  | emplace i =>
    obtain ⟨-, rfl⟩ := of_guard hs
    by_cases hid : id = i
    · exact .inr ((OrderedMap.mem_keys_put id).mpr (.inl hid))
    · refine h.imp (fun ha => (List.mem_erase_of_ne hid).mpr ha) fun hp => ?_
      exact (OrderedMap.mem_keys_put id).mpr (.inr hp)
  | query alive =>
    obtain ⟨-, rfl⟩ := of_guard hs
    exact .inl (hok alive rfl)
  | preserve =>
    obtain ⟨query, -, rfl⟩ := Option.map_eq_some_iff.mp hs
    exact h
  | data clock response =>
    cases hs
    exact h
  | error notConnected =>
    cases hs
    simp only [Owed, Retriever.onError]
    split <;> exact h

/-- A poll queries the workers of the pool and of the purgatory, each once and in their order,
and no others; the purgatory is empty after it, and the table has the old records of the queried
workers. A report that found room is in the query of the first poll after it has come to the
purgatory: until then only polls that come before that may run. -/
theorem polls_cover_workers (keeps : Bool) (app : Str) :
    (∀ (r : Retriever app) (alive : Retriever.Ids),
      let polled := r.pollMetrics false (some alive) true
      ∃ query, polled.query = some query ∧ query.Pairwise (· < ·) ∧
        (∀ id, id ∈ query ↔ id ∈ alive.val ∨ id ∈ r.purgatory.keys) ∧
        polled.retriever.purgatory.keys = [] ∧
        ∀ id, polled.retriever.metrics.lookup id =
          if id ∈ query then r.metrics.lookup id else none) ∧
    ∀ (id : Str) (st t u v : Polling app) (alive : Retriever.Ids),
      st.retriever.hasRoom = true → (pollingSystem keeps app).step st (.check id) = some t →
      (pollingSystem keeps app).Path
        (fun st a => ∀ alive, a = .query alive → id ∈ st.admitted) t u →
      id ∉ u.admitted → (pollingSystem keeps app).step u (.query alive) = some v →
      ∃ query, v.pending = some query ∧ id ∈ query := by
  constructor
  · intro r alive
    refine ⟨_, rfl, Retriever.sorted_pollQuery alive, Retriever.mem_pollQuery alive, rfl, ?_⟩
    exact Retriever.lookup_pollPreserve _
  · intro id st t u v alive hroom hcheck hpath hdone hquery
    have howed : Owed id u :=
      hpath.induct (Owed.check hroom hcheck) fun h hok hs => h.step hok hs
    change step keeps u (.query alive) = some v at hquery
    obtain ⟨-, rfl⟩ := of_guard hquery
    refine ⟨_, rfl, ?_⟩
    exact (Retriever.mem_pollQuery alive id).mpr (.inr (howed.resolve_left hdone))

/-- A worker is reported dead and comes to the purgatory; the pool is empty at the next poll. -/
theorem reported_worker_queried :
    let st : Polling [] := { retriever := .start [] 5 0 }
    let u : Polling [] := { st with retriever := st.retriever.emplacePostMortem ['w'] }
    ∃ v, step true u (.query ⟨[], .nil⟩) = some v ∧
      ∃ query, v.pending = some query ∧ ['w'] ∈ query := by
  intro st u
  have hemplace : (pollingSystem true []).step { st with admitted := [['w']] } (.emplace ['w']) =
      some u := rfl
  have hpath : (pollingSystem true []).Path
      (fun st a => ∀ alive, a = .query alive → ['w'] ∈ st.admitted)
      { st with admitted := [['w']] } u :=
    .tail .refl (fun _ h => by cases h) hemplace
  exact ⟨_, rfl, (polls_cover_workers true []).2 ['w'] st _ u _ ⟨[], .nil⟩ rfl rfl hpath
    List.not_mem_nil rfl⟩

end Cocaine.Node.Metrics
