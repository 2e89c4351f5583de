import Mathlib.Algebra.Order.BigOperators.Group.List
import Mathlib.Algebra.Order.Group.Nat
import CocainePlugins.Node.Engine.Pool

/-!
# The capacity of an engine

The pool holds at most `pool_limit` slaves, each of them at most `concurrency`
channels, and the queue is bounded. A request that gets a channel leaves the
queue, so without a queue limit the bound is on both together; this is what an
injection would break that threw after it registered its channel. As long as
`pool_limit * concurrency` fits an `int`, `pool_pressure` is the sum of the loads
and the differences computed from it do not wrap.
-/

namespace Cocaine.Node.Engine

open Framework Slave

/-- No injection of the step throws after it registered its channel. -/
def Anchored (st : Engine) (a : Act) : Prop :=
  st.attempts (fun env => env.fault != some .attach) a = true

instance (st : Engine) (a : Act) : Decidable (Anchored st a) := inferInstanceAs (Decidable (_ = _))

def anchored : Scope where
  may t := t ≠ .fault .attach

theorem anchored_covers {st : Engine} {a : Act} (h : Anchored st a) : anchored.covers st a := by
  refine Scope.covers_of_attempts (fun t ht => ht _) (fun _ _ => trivial) ?_ h
  intro env f hp hf ht
  cases ht
  simp [hf] at hp

structure Room (st : Engine) : Prop where
  pool : st.pool.length ≤ st.profile.poolLimit
  load : ∀ i ∈ st.pool, st.load i ≤ st.profile.concurrency
  subs : ∀ s ∈ st.subs, s.2 ≤ s.1
  limited : 0 < st.profile.queueLimit → st.queue.length ≤ st.profile.queueLimit
  unlimited : st.profile.queueLimit = 0 →
    st.queue.length + (st.pool.map st.load).sum ≤ st.profile.poolLimit * st.profile.concurrency

section Loads

variable {st : Engine}

theorem load_perform (st : Engine) {a : Slave.Act} (ha : ∀ c, a ≠ .register c) (i j : Nat) :
    (st.perform i a).load j ≤ st.load j := by
  simp only [Engine.load, machine_perform]
  split
  · rename_i h
    rw [h]
    exact Machine.load_effect ha
  · exact Nat.le_refl _

theorem sum_load_le (h : ∀ i ∈ st.pool, st.load i ≤ st.profile.concurrency) :
    (st.pool.map st.load).sum ≤ st.pool.length * st.profile.concurrency := by
  have hle : ∀ n ∈ st.pool.map st.load, n ≤ st.profile.concurrency := by
    intro n hn
    obtain ⟨i, hi, rfl⟩ := List.mem_map.mp hn
    exact h i hi
  simpa using List.sum_le_card_nsmul _ _ hle

theorem load_place (st : Engine) (i e j : Nat) :
    (st.place i e).load j ≤ st.load j + if j = i then 1 else 0 := by
  simp only [Engine.load, machine_place]
  split
  · rename_i h
    subst h
    simp only [Machine.load, Machine.register, Machine.newChannel]
    by_cases hc : (st.machine j).counter + 1 ∈ (st.machine j).channels <;> simp [hc]
  · exact Nat.le_refl _

theorem sum_place_le (hnd : st.pool.Nodup) {i : Nat} (hi : i ∈ st.pool) (e : Nat) :
    (st.pool.map (st.place i e).load).sum ≤ (st.pool.map st.load).sum + 1 := by
  have hne : ∀ j ∈ st.pool.erase i, (st.place i e).load j ≤ st.load j := by
    intro j hj
    have h := load_place st i e j
    rwa [if_neg (hnd.mem_erase_iff.mp hj).1] at h
  have hi' := load_place st i e i
  rw [if_pos rfl] at hi'
  have hsum := List.sum_le_sum hne
  have h₁ := List.sum_map_erase st.load hi
  have h₂ := List.sum_map_erase (st.place i e).load hi
  omega

end Loads

namespace Room

variable {st st' : Engine}

theorem length_mul_le (h : Room st) : st.pool.length * st.profile.concurrency ≤
    st.profile.poolLimit * st.profile.concurrency :=
  Nat.mul_le_mul_right _ h.pool

/-- `pool_pressure` does not overflow. -/
theorem pressure (h : Room st) (hp : st.profile.poolLimit * st.profile.concurrency < 2 ^ 31) :
    st.poolPressure = (st.pool.map st.load).sum := by
  have h₁ := sum_load_le h.load
  have h₂ := h.length_mul_le
  exact accumulate32_eq (by omega)

/-- No slave enters the pool, no channel a map, no request the queue. -/
theorem shrink (h : Room st) (hp : st'.pool = st.pool) (hl : ∀ i, st'.load i ≤ st.load i)
    (hq : st'.queue.length ≤ st.queue.length) (hpr : st'.profile = st.profile)
    (hs : st'.subs = st.subs) : Room st' where
  pool := by rw [hp, hpr]; exact h.pool
  load i hi := by
    rw [hp] at hi
    rw [hpr]
    exact Nat.le_trans (hl i) (h.load i hi)
  subs := by rw [hs]; exact h.subs
  limited hz := by
    rw [hpr] at hz ⊢
    exact Nat.le_trans hq (h.limited hz)
  unlimited hz := by
    rw [hpr] at hz ⊢
    have hsum : (st'.pool.map st'.load).sum ≤ (st.pool.map st.load).sum := by
      rw [hp]
      exact List.sum_le_sum fun i _ => hl i
    have := h.unlimited hz
    omega

theorem perform (h : Room st) (i : Nat) {a : Slave.Act} (ha : ∀ c, a ≠ .register c) :
    Room (st.perform i a) :=
  h.shrink rfl (load_perform st ha i) (Nat.le_refl _) rfl rfl

theorem place (h : Room st) (hnd : st.pool.Nodup) {i e : Nat} {q : List Nat}
    (hq : st.queue = e :: q) (hi : i ∈ st.pool) (hv : st.vacant i = true) :
    Room (({ st with queue := q } : Engine).place i e) where
  pool := h.pool
  load j hj := by
    have hl := load_place { st with queue := q } i e j
    have hj' := h.load j hj
    have hlt : st.load i < st.profile.concurrency := (vacant_iff.mp hv).2
    refine Nat.le_trans hl ?_
    split
    · rename_i hji
      rw [hji]
      exact hlt
    · exact hj'
  subs := h.subs
  limited hz := by
    have hle := h.limited hz
    rw [hq, List.length_cons] at hle
    exact Nat.le_of_succ_le hle
  unlimited hz := by
    have hle := h.unlimited hz
    rw [hq, List.length_cons] at hle
    have hsum : (st.pool.map (({ st with queue := q } : Engine).place i e).load).sum ≤
        (st.pool.map st.load).sum + 1 := sum_place_le hnd hi e
    show q.length + (st.pool.map (({ st with queue := q } : Engine).place i e).load).sum ≤
      st.profile.poolLimit * st.profile.concurrency
    omega

/-- Neither difference wraps. -/
theorem subtract (h : Room st) (hp : st.profile.poolLimit * st.profile.concurrency < 2 ^ 31) {n : Nat}
    (hn : st.pool.length ≤ n) (hn' : n ≤ st.profile.poolLimit) :
    st.poolPressure ≤ u64 (n * st.profile.concurrency) := by
  have h₁ := sum_load_le h.load
  have h₂ := Nat.mul_le_mul_right st.profile.concurrency hn
  have h₃ := Nat.mul_le_mul_right st.profile.concurrency hn'
  rw [h.pressure hp, u64, Nat.mod_eq_of_lt (by omega)]
  omega

theorem arrive (h : Room st) (hp : st.profile.poolLimit * st.profile.concurrency < 2 ^ 31)
    (ev : Event) : Room (st.arrive ev) :=
  { pool := h.pool
    load := h.load
    limited := h.limited
    unlimited := h.unlimited
    subs := fun s hs => by
      simp only [Engine.arrive] at hs
      split at hs
      · rcases List.mem_cons.mp hs with rfl | hs
        · exact h.subtract hp h.pool (Nat.le_refl _)
        · exact h.subs s hs
      · exact h.subs s hs }

theorem accept (h : Room st) (hp : st.profile.poolLimit * st.profile.concurrency < 2 ^ 31)
    (hf : st.queueIsFull = false) (ev : Event) : Room (st.arrive ev).push := by
  have ha := h.arrive hp ev
  refine ⟨ha.pool, ha.load, ha.subs, fun hz => ?_, fun hz => ?_⟩
  · have hz' : 0 < st.profile.queueLimit := hz
    rw [queueIsFull, if_pos hz', decide_eq_false_iff_not] at hf
    show (st.queue ++ [_]).length ≤ st.profile.queueLimit
    rw [List.length_append, List.length_singleton]
    omega
  · have hz' : st.profile.queueLimit = 0 := hz
    have hle := h.unlimited hz'
    have h₃ : st.profile.poolLimit * st.profile.concurrency < 2 ^ 64 := by omega
    rw [queueIsFull, if_neg (by omega), decide_eq_false_iff_not, limitVacant, h.pressure hp, u64,
      Nat.mod_eq_of_lt h₃, sub64_of_le (by omega) h₃] at hf
    show (st.queue ++ [_]).length + (st.pool.map st.load).sum ≤
      st.profile.poolLimit * st.profile.concurrency
    rw [List.length_append, List.length_singleton]
    omega

theorem spawn (h : Room st) (hpl : Pooled st) (hlt : st.pool.length < st.profile.poolLimit) :
    Room st.spawn := by
  have hl : ∀ i ∈ st.pool, st.spawn.load i = st.load i := by
    intro i hi
    have hne : i ≠ st.born := Nat.ne_of_lt (hpl.lt i hi)
    rw [Engine.load, machine_spawn, if_neg hne]
    rfl
  have hb : st.spawn.load st.born = 0 := by
    rw [Engine.load, machine_spawn, if_pos rfl]
    rfl
  refine ⟨hlt, fun i hi => ?_, h.subs, h.limited, fun hz => ?_⟩
  · rcases List.mem_cons.mp hi with rfl | hi
    · rw [hb]
      exact Nat.zero_le _
    · rw [hl i hi]
      exact h.load i hi
  · have hle := h.unlimited hz
    show st.queue.length + ((st.born :: st.pool).map st.spawn.load).sum ≤
      st.profile.poolLimit * st.profile.concurrency
    rw [List.map_cons, List.sum_cons, hb, List.map_congr_left hl]
    omega

theorem erase (h : Room st) (i : Nat) (lost : List Nat) : Room (st.eraseSlave i lost) := by
  have hl : ∀ j, (st.eraseSlave i lost).load j ≤ st.load j :=
    load_perform { st with pool := st.pool.erase i } (by simp) i
  have hsub : (st.pool.erase i).Sublist st.pool := List.erase_sublist
  refine ⟨Nat.le_trans hsub.length_le h.pool, fun j hj => ?_, h.subs, h.limited, fun hz => ?_⟩
  · exact Nat.le_trans (hl j) (h.load j (hsub.subset hj))
  · have hle := h.unlimited hz
    have h₁ : ((st.pool.erase i).map (st.eraseSlave i lost).load).sum ≤
        ((st.pool.erase i).map st.load).sum := List.sum_le_sum fun j _ => hl j
    have h₂ : ((st.pool.erase i).map st.load).sum ≤ (st.pool.map st.load).sum :=
      (hsub.map st.load).sum_le_sum fun _ _ => Nat.zero_le _
    show st.queue.length + ((st.pool.erase i).map (st.eraseSlave i lost).load).sum ≤
      st.profile.poolLimit * st.profile.concurrency
    omega

theorem rehash (h : Room st) {pool : List Nat} (hp : pool.Perm st.pool) :
    Room { st with pool := pool } := by
  refine ⟨hp.length_eq ▸ h.pool, fun i hi => h.load i (hp.subset hi), h.subs, h.limited,
    fun hz => ?_⟩
  have hsum : (pool.map st.load).sum = (st.pool.map st.load).sum := (hp.map st.load).sum_eq
  show st.queue.length + (pool.map st.load).sum ≤ st.profile.poolLimit * st.profile.concurrency
  rw [hsum]
  exact h.unlimited hz

theorem move (h : Room st) (hpl : Pooled st)
    (hp : st.profile.poolLimit * st.profile.concurrency < 2 ^ 31) (hm : Move anchored st st') :
    Room st' := by
  obtain ⟨h1, h2, h3, h4, h5⟩ := id h
  cases hm with
  | flow hf =>
    cases hf with
    | slave hq =>
      refine h.perform _ fun c hc => ?_
      rw [hc] at hq
      cases hq
    | _ => exact ⟨h1, h2, h3, h4, h5⟩
  | @attempt i | @leak i =>
    obtain ⟨h1, h2, h3, h4, h5⟩ := h.perform i (a := .newChannel) (by simp)
    exact ⟨h1, h2, h3, h4, h5⟩
  | misplace hf => exact absurd rfl hf
  | place hq hi hv => exact h.place hpl.nodup hq hi hv
  | drop hq =>
    refine h.shrink rfl (fun _ => Nat.le_refl _) ?_ rfl rfl
    rw [hq]
    exact Nat.le_succ _
  | arrive => exact h.arrive hp _
  | accept _ hf => exact h.accept hp hf _
  | spawn hlt => exact h.spawn hpl hlt
  | doSeal | activate | revoked | cleanup => exact h.perform _ (by simp)
  | slave hi hx =>
    refine h.perform _ fun c hc => ?_
    rw [hc] at hx
    cases hx
  | condemn =>
    refine h.shrink rfl (fun j => ?_) (Nat.le_refl _) rfl rfl
    rw [Engine.load, machine_condemn]
    exact Nat.le_refl _
  | erase => exact h.erase _ _
  | rehash hperm => exact h.rehash hperm
  | subtract =>
    refine ⟨h1, h2, fun s hs => ?_, h4, h5⟩
    rcases List.mem_cons.mp hs with rfl | hs
    · exact h.subtract hp (Nat.le_refl _) h.pool
    · exact h3 s hs
  | _ => exact ⟨h1, h2, h3, h4, h5⟩

theorem start (p : Profile) : Room (start p) := by
  unfold Engine.start maybePublish
  split <;> constructor <;> simp

end Room

/-- For a profile whose channels an `int` can count, in every run in which no
injection throws after it registered its channel: the pool and the loads keep
their limits, the recorded differences do not wrap, and the queue is bounded. -/
theorem capacity {st : Engine} (hr : engineSystem.Reachable Anchored st)
    (hp : st.profile.poolLimit * st.profile.concurrency < 2 ^ 31) :
    st.pool.length ≤ st.profile.poolLimit ∧
    (∀ i ∈ st.pool, st.load i ≤ st.profile.concurrency) ∧
    st.poolPressure ≤ st.pool.length * st.profile.concurrency ∧
    (∀ s ∈ st.subs, s.2 ≤ s.1) ∧
    (0 < st.profile.queueLimit → st.queue.length ≤ st.profile.queueLimit) ∧
    (st.profile.queueLimit = 0 →
      st.queue.length + st.poolPressure ≤ st.profile.poolLimit * st.profile.concurrency) := by
  have h : st.profile.poolLimit * st.profile.concurrency < 2 ^ 31 → Pooled st ∧ Room st := by
    refine reachable_induct (P := fun st => st.profile.poolLimit * st.profile.concurrency < 2 ^ 31 →
      Pooled st ∧ Room st) hr anchored_covers ?_ ?_
    · intro p _ _
      exact ⟨Pooled.start p, Room.start p⟩
    · intro st st' ih hm hp'
      rw [hm.profile] at hp'
      obtain ⟨hpl, hro⟩ := ih hp'
      exact ⟨hpl.move hm, hro.move hpl hp' hm⟩
  obtain ⟨-, hro⟩ := h hp
  refine ⟨hro.pool, hro.load, ?_, hro.subs, hro.limited, fun hz => ?_⟩
  · rw [hro.pressure hp]
    exact sum_load_le hro.load
  · rw [hro.pressure hp]
    exact hro.unlimited hz

/-- One slave serves two requests; both differences were computed. -/
theorem capacity_served : ∃ st, engineSystem.Reachable Anchored st ∧
    st.profile.poolLimit * st.profile.concurrency < 2 ^ 31 ∧ st.pool.map st.load = [2] ∧
    st.subs.length = 4 ∧ (∀ s ∈ st.subs, s.2 ≤ s.1) ∧
    st.queue.length + st.poolPressure ≤ st.profile.poolLimit * st.profile.concurrency := by
  obtain ⟨st, hr, hp, hl, hs, hz⟩ := engineSystem.exists_reachable Anchored
    (P := fun st => st.profile.poolLimit * st.profile.concurrency < 2 ^ 31 ∧
      st.pool.map st.load = [2] ∧ st.subs.length = 4 ∧ st.profile.queueLimit = 0)
    (s := Engine.start { queueLimit := 0 })
    [.enqueue {} false false, .slave 0 (.prepare false), .slave 0 (.token {}),
      .slave 0 (.refresh {} .spawned), .slave 0 (.ready 1 false), .handshake 0 false,
      .rebalanceEvents fun _ => {}, .enqueue {} false false]
    ⟨_, by decide, rfl⟩ (by decide +kernel)
  obtain ⟨-, -, -, hsub, -, hq⟩ := capacity hr hp
  exact ⟨st, hr, hp, hl, hs, hsub, hq hz⟩

end Cocaine.Node.Engine
