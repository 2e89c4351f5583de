import Mathlib.Data.List.Perm.Basic
import CocainePlugins.Framework.Text
import CocainePlugins.Framework.Transition

/-!
# The pool of connections

`pool_t::execute` counts a call before it looks at the count, and posts the task to the threads
of the slots. A thread takes the task off the count after it has run it. The counter is atomic,
and nothing else keeps the calls and the threads apart: the steps here are those on the counter
and on the queue of the event loop.

The call that finds the counter at `max_load` is let in, so there can be one task too many. An
exception of a task leaves its thread with the task counted, and that ends the process.
-/

namespace Cocaine.Postgres

open Framework

structure Pool where
  maxLoad : Nat
  poolSize : Nat
  load : Nat := 0
  /-- The calls of `execute` that have counted themselves, with what they found. -/
  calls : List Nat := []
  /-- The calls that are over: what each has thrown, newest first. -/
  replies : List (Option Str) := []
  /-- The tasks that wait in the event loop, that run, and that have returned but are counted
  still. -/
  posted : Nat := 0
  running : Nat := 0
  returned : Nat := 0
  /-- An exception has left a thread. -/
  terminated : Bool := false
deriving DecidableEq, Repr

namespace Pool

variable (s : Pool)

/-- The tasks that were accepted and have not finished. -/
def unfinished : Nat := s.posted + s.running + s.returned

/-- What a call throws that is not let in. -/
def refusal : Str :=
  "postgres pool currently is processing maximum number of requests (".toList ++
    (Nat.repr s.maxLoad).toList ++ ")".toList

/-- `load++` of a call. -/
def enter : Pool := { s with load := s.load + 1, calls := s.calls ++ [s.load] }

/-- The call `k` posts its task, or takes itself off the count and throws. -/
def post (k : Nat) : Pool :=
  { s with calls := s.calls.eraseIdx k, posted := s.posted + 1, replies := none :: s.replies }

def refuse (k : Nat) : Pool :=
  { s with
    calls := s.calls.eraseIdx k
    load := s.load - 1
    replies := some s.refusal :: s.replies }

/-- The rest of the call `k`, which has found `found`. -/
def leave (k found : Nat) : Pool := if found > s.maxLoad then s.refuse k else s.post k

inductive Label where
  /-- A call of `execute` counts itself, and the call `k` goes on to its end. -/
  | enter
  | leave (k : Nat)
  /-- A thread takes a task, its function returns, and the thread takes it off the count. -/
  | start
  | return
  | settle
  /-- The function of a task throws. -/
  | throw
deriving DecidableEq, Repr

def step (a : Label) : Option Pool :=
  if s.terminated then none
  else
    match a with
    | .enter => some s.enter
    | .leave k => s.calls[k]?.map fun found => s.leave k found
    | .start =>
      if 0 < s.posted ∧ s.running + s.returned < s.poolSize then
        some { s with posted := s.posted - 1, running := s.running + 1 }
      else none
    | .return =>
      if 0 < s.running then some { s with running := s.running - 1, returned := s.returned + 1 }
      else none
    | .settle =>
      if 0 < s.returned then some { s with returned := s.returned - 1, load := s.load - 1 } else none
    | .throw =>
      if 0 < s.running then some { s with running := s.running - 1, terminated := true } else none

/-- The calls on their way that have found less than `n`. -/
def waiting (n : Nat) : Nat := s.calls.countP fun found => found < n

def Quiet (_ : Pool) (a : Label) : Prop := a ≠ .throw

/-- No task throws, and a call that has found the counter at the maximum goes on only when the
tasks, with the calls on their way that have found less, leave room for its task. -/
def Below : Label → Prop
  | .leave k => s.calls[k]? = some s.maxLoad → s.unfinished + s.waiting s.maxLoad < s.maxLoad
  | .throw => False
  | .enter | .start | .return | .settle => True

instance (a : Label) : Decidable (s.Quiet a) := inferInstanceAs (Decidable (a ≠ .throw))

instance (a : Label) : Decidable (s.Below a) := by
  unfold Below
  split <;> infer_instance

end Pool

def poolSystem (maxLoad poolSize : Nat) : System Pool Pool.Label where
  init s := s = { maxLoad := maxLoad, poolSize := poolSize }
  step := Pool.step

/-! ## Admission -/

namespace Pool

variable {s t : Pool}

theorem unfinished_post (k : Nat) : (s.post k).unfinished = s.unfinished + 1 := by
  simp only [post, unfinished]
  omega

/-- A call that goes on is one of those that have found less than `n`, or not. -/
theorem waiting_eq {k found : Nat} (hk : s.calls[k]? = some found) (n : Nat) :
    s.waiting n = (s.post k).waiting n + if found < n then 1 else 0 := by
  obtain ⟨hlt, hget⟩ := List.getElem?_eq_some_iff.mp hk
  have hperm : s.calls.Perm (found :: s.calls.eraseIdx k) := by
    rw [← hget]
    exact (List.getElem_cons_eraseIdx_perm hlt).symm
  rw [waiting, hperm.countP_eq, List.countP_cons]
  simp only [post, waiting, decide_eq_true_eq]

theorem step_leave {k found : Nat} (hterm : s.terminated = false) (hk : s.calls[k]? = some found) :
    s.step (.leave k) = some (s.leave k found) := by
  simp only [Pool.step, hterm, Bool.false_eq_true, if_false, hk, Option.map_some]

/-- A call is on the count until it is over, and a task until it has finished; together with the
calls that have found less than `maxLoad + e` there is room for every task, up to that number.
The calls that are let in are those with `e = 1`. -/
structure Counted (e : Nat) (s : Pool) : Prop where
  load : s.load = s.unfinished + s.calls.length
  room : s.unfinished + s.waiting (s.maxLoad + e) ≤ s.maxLoad + e

namespace Counted

variable {e : Nat}

theorem init (e maxLoad poolSize : Nat) :
    Counted e { maxLoad := maxLoad, poolSize := poolSize } :=
  ⟨rfl, Nat.zero_le _⟩

theorem enter (h : Counted e s) : Counted e s.enter where
  load := by
    have hlen : s.enter.calls.length = s.calls.length + 1 := List.length_append
    rw [hlen, ← Nat.add_assoc]
    exact congrArg (· + 1) h.load
  room := by
    have hwaiting : s.enter.waiting (s.maxLoad + e) =
        s.waiting (s.maxLoad + e) + if s.load < s.maxLoad + e then 1 else 0 := by
      simp only [Pool.enter, waiting, List.countP_append, List.countP_singleton, decide_eq_true_eq]
    have hle : s.waiting (s.maxLoad + e) ≤ s.calls.length := List.countP_le_length
    have hload := h.load
    have hroom := h.room
    change s.unfinished + s.enter.waiting (s.maxLoad + e) ≤ s.maxLoad + e
    rw [hwaiting]
    -- The counter is at least the tasks and the calls before it.
    split <;> omega

theorem leave (h : Counted e s) {k found : Nat} (hk : s.calls[k]? = some found)
    (hfit : s.maxLoad + e ≤ found → found ≤ s.maxLoad →
      s.unfinished + s.waiting (s.maxLoad + e) < s.maxLoad + e) : Counted e (s.leave k found) := by
  obtain ⟨hlt, -⟩ := List.getElem?_eq_some_iff.mp hk
  have hlen := List.length_eraseIdx_of_lt hlt
  have hwaiting := waiting_eq hk (s.maxLoad + e)
  have hload := h.load
  have hroom := h.room
  unfold Pool.leave
  split
  · constructor
    · simp only [refuse, unfinished] at hload ⊢
      omega
    · exact (Nat.add_le_add_left (Nat.le.intro hwaiting.symm) _).trans hroom
  · constructor
    · rw [unfinished_post]
      simp only [post]
      omega
    · change (s.post k).unfinished + (s.post k).waiting (s.maxLoad + e) ≤ s.maxLoad + e
      rw [unfinished_post]
      split at hwaiting <;> omega

theorem step (h : Counted e s) {a : Label} (hquiet : s.Quiet a)
    (hfit : ∀ {k found}, a = .leave k → s.calls[k]? = some found → s.maxLoad + e ≤ found →
      found ≤ s.maxLoad → s.unfinished + s.waiting (s.maxLoad + e) < s.maxLoad + e)
    (hs : s.step a = some t) : Counted e t := by
  have hload := h.load
  have hroom := h.room
  unfold Pool.step at hs
  split at hs
  · cases hs
  · cases a with
    | enter => cases hs; exact h.enter
    | leave k =>
      obtain ⟨found, hk, rfl⟩ := Option.map_eq_some_iff.mp hs
      exact h.leave hk (hfit rfl hk)
    | start | «return» | settle =>
      obtain ⟨hpos, rfl⟩ := of_guard hs
      constructor <;> simp only [unfinished, waiting] at hload hroom ⊢ <;> omega
    | throw => exact absurd rfl hquiet

theorem of_quiet {maxLoad poolSize : Nat} (hr : (poolSystem maxLoad poolSize).Reachable Quiet s) :
    Counted 1 s := by
  refine hr.induct (P := Counted 1) ?_ fun h hok hs => h.step hok ?_ hs
  · rintro s rfl
    exact init 1 maxLoad poolSize
  · intro k found _ _ hlt hle
    exact absurd hle (Nat.not_le.mpr hlt)

theorem of_below {maxLoad poolSize : Nat} (hr : (poolSystem maxLoad poolSize).Reachable Below s) :
    Counted 0 s := by
  refine hr.induct (P := Counted 0) ?_ fun {s a t} h hok hs => h.step ?_ ?_ hs
  · rintro s rfl
    exact init 0 maxLoad poolSize
  · rintro rfl
    exact hok
  · rintro k found rfl hk hle hge
    exact hok (by rw [hk, Nat.le_antisymm hge hle])

end Counted

/-- The calls that have found less than the maximum can all go on before a task finishes. -/
theorem exists_unfinished {maxLoad poolSize : Nat} :
    ∀ {n : Nat} {s : Pool}, s.terminated = false → s.waiting s.maxLoad = n →
      ∃ t, (poolSystem maxLoad poolSize).Path Quiet s t ∧ t.maxLoad = s.maxLoad ∧
        t.unfinished = s.unfinished + n
  | 0, s, _, _ => ⟨s, .refl, rfl, rfl⟩
  | n + 1, s, hterm, hn => by
    obtain ⟨found, hmem, hlt⟩ : ∃ found ∈ s.calls, decide (found < s.maxLoad) :=
      List.countP_pos_iff.mp (Nat.lt_of_lt_of_eq (Nat.succ_pos n) hn.symm)
    obtain ⟨k, hk⟩ := List.getElem?_of_mem hmem
    have hfound : found < s.maxLoad := of_decide_eq_true hlt
    have hrest := waiting_eq hk s.maxLoad
    rw [if_pos hfound, hn] at hrest
    have hstep := step_leave hterm hk
    rw [leave, if_neg (Nat.not_lt.mpr hfound.le)] at hstep
    obtain ⟨t, hpath, hmax, hunfinished⟩ :=
      exists_unfinished (s := s.post k) hterm (Nat.succ.inj hrest).symm
    refine ⟨t, (System.Path.refl.tail (a := .leave k) nofun hstep).trans hpath, hmax, ?_⟩
    rw [hunfinished, unfinished_post]
    omega

/-- Where no task throws, the counter is the number of the tasks that have not finished when no
call is on its way, and there is never more than one task too many. There is none where the calls
that find the counter at the maximum wait for room, and one that does not wait lets the calls on
their way pass the maximum. -/
theorem load_counts_tasks {maxLoad poolSize : Nat}
    (hr : (poolSystem maxLoad poolSize).Reachable Quiet s) :
    (s.calls = [] → s.load = s.unfinished) ∧ s.unfinished ≤ s.maxLoad + 1 ∧
    ((poolSystem maxLoad poolSize).Reachable Below s → s.unfinished ≤ s.maxLoad) ∧
    ∀ k t, s.step (.leave k) = some t → ¬ s.Below (.leave k) →
      ∃ u, (poolSystem maxLoad poolSize).Path Quiet t u ∧ u.maxLoad < u.unfinished := by
  have h := Counted.of_quiet hr
  refine ⟨fun hc => ?_, (Nat.le_add_right _ _).trans h.room, fun hb => ?_, fun k t hs hfull => ?_⟩
  · rw [h.load, hc, List.length_nil, Nat.add_zero]
  · exact (Nat.le_add_right _ _).trans (Counted.of_below hb).room
  · obtain ⟨hk, hroom⟩ := Classical.not_imp.mp hfull
    have hterm : s.terminated = false := by
      cases ht : s.terminated
      · rfl
      · simp [Pool.step, ht] at hs
    rw [step_leave hterm hk, leave, if_neg (Nat.lt_irrefl _)] at hs
    cases hs
    have hrest := waiting_eq hk s.maxLoad
    rw [if_neg (Nat.lt_irrefl _)] at hrest
    obtain ⟨u, hpath, hmax, hunfinished⟩ := exists_unfinished (s := s.post k) hterm hrest.symm
    refine ⟨u, hpath, ?_⟩
    rw [hunfinished, hmax, unfinished_post]
    change s.maxLoad < s.unfinished + 1 + s.waiting s.maxLoad
    omega

/-- A pool of one task: the second call finds the counter at the maximum and waits for the first
task to finish, and the third is refused. -/
theorem load_counts_tasks_refused : ∃ s, (poolSystem 1 1).Reachable Below s ∧
    (s.calls = [] ∧ s.unfinished = 1 ∧ s.replies.reverse = [none, some s.refusal, none]) ∧
    s.load = s.unfinished ∧ s.unfinished ≤ s.maxLoad := by
  obtain ⟨s, hr, hs⟩ := (poolSystem 1 1).exists_reachable Below (s := { maxLoad := 1, poolSize := 1 })
    (P := fun s => s.calls = [] ∧ s.unfinished = 1 ∧
      s.replies.reverse = [none, some s.refusal, none])
    [.enter, .leave 0, .enter, .enter, .leave 1, .start, .return, .settle, .leave 0] rfl
    (by decide +kernel)
  have h := load_counts_tasks (hr.mono fun s a h => by rintro rfl; exact h)
  exact ⟨s, hr, hs, h.1 hs.1, h.2.2.1 hr⟩

/-- A second call finds the counter of a pool of one task at its maximum and is let in; and a task
that has thrown stays on the count. -/
theorem load_exceeds_tasks :
    (∃ s, (poolSystem 1 1).Reachable System.Any s ∧
      s.calls = [] ∧ s.terminated = false ∧ s.unfinished = s.maxLoad + 1) ∧
    ∃ s, (poolSystem 1 1).Reachable System.Any s ∧
      s.calls = [] ∧ s.unfinished = 0 ∧ s.load = 1 := by
  constructor
  · exact (poolSystem 1 1).exists_reachable System.Any (s := { maxLoad := 1, poolSize := 1 })
      [.enter, .leave 0, .enter, .leave 0] rfl (by decide +kernel)
  · exact (poolSystem 1 1).exists_reachable System.Any (s := { maxLoad := 1, poolSize := 1 })
      [.enter, .leave 0, .start, .throw] rfl (by decide +kernel)

end Pool
end Cocaine.Postgres
