import CocainePlugins.Node.Engine.Active
import CocainePlugins.Node.Engine.Enqueue

/-!
# A pool under manual control

With a manual target `rebalance_slaves` seals the active slaves above it, one
after another and each time one with the least load, or it spawns the slaves
that lack. `Culled` says what the loop that seals has done, for every number of
rounds; `Grown` says the same of the loop that spawns.
-/

namespace Cocaine.Node.Slave

theorem Machine.active_machineSeal (m : Machine) (lost : Bool) :
    (m.machineSeal lost).active = false := by
  unfold Machine.machineSeal
  split
  · have hover : (m.handOver m.state .seal).active = false := by
      simp [Machine.handOver, Machine.active, Machine.cur]
    have hstart : Dims (m.handOver m.state .seal)
        ((m.handOver m.state .seal).sealStart m.fresh lost) := by
      unfold Machine.sealStart
      split
      · exact .of_inner (.sealTerminate _ _ lost)
      · exact .setTimer _ _
    exact Bool.eq_false_iff.mpr fun ha => Bool.eq_false_iff.mp hover (hstart.rise ha)
  · rename_i hk
    exact Bool.eq_false_iff.mpr fun ha => hk (Machine.active_iff.mp ha)

end Slave

namespace Engine

open Framework Slave

/-! ## Sealing -/

/-- From `st` to `st'` the slaves of the list were sealed, and nothing else. -/
structure Culled (lost : List Nat) (st st' : Engine) (l : List Nat) : Prop where
  nodup : l.Nodup
  active : ∀ i ∈ l, i ∈ st.pool ∧ st.active i = true
  machine : ∀ j, st'.machine j =
    if j ∈ l then (st.machine j).effect (.doSeal (lost.contains j)) else st.machine j
  pool : st'.pool = st.pool
  spawned : st'.spawned = st.spawned
  /-- The slaves that are left have no smaller loads. -/
  least : ∀ i ∈ l, ∀ j ∈ st.pool, st'.active j = true → st.load i ≤ st.load j

theorem selectSlave_le {st : Engine} {filter : Nat → Bool} {i j : Nat}
    (h : st.selectSlave filter = some i) (hj : j ∈ st.pool) (hf : filter j = true) :
    st.load i ≤ st.load j :=
  List.le_of_mem_argmin (List.mem_filter.mpr ⟨hj, hf⟩) h

namespace Culled

variable {lost : List Nat} {st st' : Engine} {l : List Nat}

theorem nil (lost : List Nat) (st : Engine) : Culled lost st st [] where
  nodup := .nil
  active := by simp
  machine := by simp
  pool := rfl
  spawned := rfl
  least := by simp

theorem not_active (h : Culled lost st st' l) {i : Nat} (hi : i ∈ l) : st'.active i = false := by
  rw [Engine.active, h.machine, if_pos hi]
  exact Machine.active_machineSeal _ _

theorem cons {i : Nat} (hsel : st.selectSlave st.active = some i)
    (h : Culled lost (st.perform i (.doSeal (lost.contains i))) st' l) :
    Culled lost st st' (i :: l) := by
  have hmem := selectSlave_mem hsel
  have hself : (st.perform i (.doSeal (lost.contains i))).active i = false := by
    rw [Engine.active, machine_perform, if_pos rfl]
    exact Machine.active_machineSeal _ _
  have hother : ∀ j, j ≠ i →
      (st.perform i (.doSeal (lost.contains i))).machine j = st.machine j := by
    intro j hne
    rw [machine_perform, if_neg hne]
  have hnotMem : i ∉ l := by
    intro hi
    have hact := (h.active i hi).2
    rw [hself] at hact
    cases hact
  have hne : ∀ j ∈ l, j ≠ i := fun j hj heq => hnotMem (heq ▸ hj)
  have hdone : st'.active i = false := by
    rw [Engine.active, h.machine, if_neg hnotMem]
    exact hself
  refine ⟨List.nodup_cons.mpr ⟨hnotMem, h.nodup⟩, ?_, fun j => ?_, h.pool, h.spawned, ?_⟩
  · intro j hj
    rcases List.mem_cons.mp hj with rfl | hj
    · exact hmem
    · obtain ⟨hpool, hact⟩ := h.active j hj
      rw [Engine.active, hother j (hne j hj)] at hact
      exact ⟨hpool, hact⟩
  · rw [h.machine]
    by_cases hji : j = i
    · subst hji
      rw [if_neg hnotMem, if_pos List.mem_cons_self, machine_perform, if_pos rfl]
    · rw [hother j hji]
      simp [hji]
  · intro k hk j hj hact
    -- A slave that is active in the end was active in the beginning.
    have hji : j ≠ i := by
      rintro rfl
      rw [hdone] at hact
      cases hact
    have hjl : j ∉ l := fun hjl => by simp [h.not_active hjl] at hact
    have hj' : st.active j = true := by
      rw [Engine.active, h.machine, if_neg hjl, hother j hji] at hact
      exact hact
    rcases List.mem_cons.mp hk with rfl | hk
    · exact selectSlave_le hsel hj hj'
    · have hle := h.least k hk j hj hact
      rw [Engine.load, Engine.load, hother k (hne k hk), hother j hji] at hle
      exact hle

end Culled

/-- The loop seals as many slaves as it is asked to, if so many are active. -/
theorem sealLoop_culled (lost : List Nat) (st : Engine) (hnd : st.pool.Nodup) (n : Nat)
    (hn : n ≤ st.activeWorkers) :
    ∃ l, l.length = n ∧ Culled lost st (sealLoop lost n st) l := by
  induction n generalizing st with
  | zero => exact ⟨[], rfl, .nil lost st⟩
  | succ n ih =>
    unfold sealLoop
    split
    · rename_i hsel
      have hzero : st.activeWorkers = 0 :=
        List.countP_eq_zero.mpr fun i hi => by simp [selectSlave_none hsel hi]
      omega
    · rename_i i hsel
      obtain ⟨hi, hact⟩ := selectSlave_mem hsel
      have hcount := activeWorkers_perform hnd hi (.doSeal (lost.contains i))
      have hdone : ((st.machine i).effect (.doSeal (lost.contains i))).active = false :=
        Machine.active_machineSeal _ _
      rw [hact, hdone, Bool.toNat_true, Bool.toNat_false] at hcount
      obtain ⟨l, hl, hc⟩ := ih (st.perform i (.doSeal (lost.contains i))) hnd (by omega)
      exact ⟨i :: l, by rw [List.length_cons, hl], hc.cons hsel⟩

/-! ## Spawning -/

/-- From `st` to `st'` so many slaves were spawned, and nothing else. -/
structure Grown (st st' : Engine) (n : Nat) : Prop where
  machine : ∀ j < st.born, st'.machine j = st.machine j
  born : st'.born = st.born + n
  pool : ∃ l, l.length = n ∧ st'.pool = l ++ st.pool
  spawned : st'.spawned = st.spawned + n

theorem Grown.spawn {st st' : Engine} {n : Nat} (h : Grown st.spawn st' n) :
    Grown st st' (n + 1) := by
  obtain ⟨hm, hb, ⟨l, hl, hp⟩, hs⟩ := h
  refine ⟨fun j hj => ?_, ?_, ⟨l ++ [st.born], by simp [hl], by simp [hp, Engine.spawn]⟩, ?_⟩
  · rw [hm j (Nat.lt_succ_of_lt hj), machine_spawn, if_neg (Nat.ne_of_lt hj)]
  · rw [hb]
    show st.born + 1 + n = st.born + (n + 1)
    omega
  · rw [hs]
    show st.spawned + 1 + n = st.spawned + (n + 1)
    omega

/-- A loop that returns has spawned all, and one that throws only some. -/
theorem spawnLoop_grown (st : Engine) (n : Nat) (fails : Option Nat) :
    ∃ k ≤ n, Grown st (spawnLoop n fails st).1 k ∧ ((spawnLoop n fails st).2 = false → k = n) := by
  induction n generalizing st fails with
  | zero => exact ⟨0, Nat.le_refl 0, ⟨fun _ _ => rfl, rfl, ⟨[], rfl, rfl⟩, rfl⟩, fun _ => rfl⟩
  | succ n ih =>
    unfold spawnLoop
    split
    · exact ⟨0, Nat.zero_le _, ⟨fun _ _ => rfl, rfl, ⟨[], rfl, rfl⟩, rfl⟩, by simp⟩
    · obtain ⟨k, hk, hg, hret⟩ := ih st.spawn (fails.map Nat.pred)
      exact ⟨k + 1, Nat.succ_le_succ hk, hg.spawn, fun h => congrArg (· + 1) (hret h)⟩

theorem Grown.length {st st' : Engine} {n : Nat} (h : Grown st st' n) :
    st'.pool.length = n + st.pool.length := by
  obtain ⟨l, hl, hp⟩ := h.pool
  rw [hp, List.length_append, hl]

/-! ## The manual target -/

section Manual

variable {st : Engine}

/-- With a manual target nothing is computed from the queue. -/
theorem rebalanceSlaves_manual (hs : st.stopped = false) (hf : st.failed = false)
    (hb : st.backoff = false) (hm : 0 < st.poolTarget) (env : Supply) :
    st.rebalanceSlaves env =
      if st.boundedTarget ≤ st.pool.length then
        (sealLoop env.lost (st.activeWorkers - st.boundedTarget) st, false)
      else spawnLoop (st.boundedTarget - st.pool.length) env.fails st := by
  have hdiv : st.dividesByZero = false := by simp [dividesByZero, Nat.ne_of_gt hm]
  have hafter : st.afterTarget = st := by simp [afterTarget, hdiv, Nat.ne_of_gt hm]
  simp [rebalanceSlaves, hs, hafter, hf, hb, hm]

/-- The pool keeps its limit in every run. -/
theorem pool_le_limit {ok : Engine → Act → Prop} (hr : engineSystem.Reachable ok st) :
    st.pool.length ≤ st.profile.poolLimit := by
  refine reachable_induct (P := fun st => st.pool.length ≤ st.profile.poolLimit) hr
    (fun _ => covers_any _ _) ?_ ?_
  · intro p _
    unfold Engine.start maybePublish
    split <;> exact Nat.zero_le _
  · intro st st' h hm
    cases hm with
    | flow hf => cases hf <;> exact h
    | spawn hlt => exact hlt
    | erase => exact Nat.le_trans (List.length_erase_le ..) h
    | rehash hperm => exact hperm.length_eq ▸ h
    | _ => exact h

/-- With a manual target that is bounded to `T`, a running engine that waits for no
backoff seals exactly the least loaded of its active slaves above `T`, or spawns
exactly the slaves that lack; a construction that throws ends the spawning. The
pool keeps its limit, in the call and in every run. -/
theorem manual_population (hs : st.stopped = false) (hf : st.failed = false)
    (hb : st.backoff = false) (hm : 0 < st.poolTarget) (hp : 0 < st.profile.poolLimit)
    (hnd : st.pool.Nodup) (env : Supply) (T : Nat)
    (hT : T = max 1 (min st.poolTarget st.profile.poolLimit)) :
    (T ≤ st.pool.length → (st.rebalanceSlaves env).2 = false ∧
      ∃ l, l.length = st.activeWorkers - T ∧ Culled env.lost st (st.rebalanceSlaves env).1 l) ∧
    (st.pool.length < T →
      (∃ n ≤ T - st.pool.length, Grown st (st.rebalanceSlaves env).1 n ∧
        ((st.rebalanceSlaves env).2 = false → n = T - st.pool.length)) ∧
      ((st.rebalanceSlaves env).2 = true ↔ ∃ k, env.fails = some k ∧ k < T - st.pool.length)) ∧
    (st.pool.length ≤ st.profile.poolLimit →
      (st.rebalanceSlaves env).1.pool.length ≤ st.profile.poolLimit) ∧
    ∀ st', engineSystem.Reachable System.Any st' → st'.pool.length ≤ st'.profile.poolLimit := by
  have htarget : st.boundedTarget = T := by
    rw [hT, boundedTarget, target, if_pos hm]
  have hle : T ≤ st.profile.poolLimit := htarget ▸ boundedTarget_le hp
  have heq := rebalanceSlaves_manual hs hf hb hm env
  rw [htarget] at heq
  have hseal : T ≤ st.pool.length → ∃ l, l.length = st.activeWorkers - T ∧
      Culled env.lost st (sealLoop env.lost (st.activeWorkers - T) st) l :=
    fun _ => sealLoop_culled env.lost st hnd _ (Nat.sub_le ..)
  refine ⟨fun hle => ?_, fun hlt => ?_, fun hroom => ?_, fun st' hr => pool_le_limit hr⟩
  · rw [heq, if_pos hle]
    exact ⟨rfl, hseal hle⟩
  · rw [heq, if_neg (Nat.not_le_of_lt hlt)]
    exact ⟨spawnLoop_grown st _ _, spawnLoop_throws _ _ (by omega)⟩
  · rw [heq]
    split
    · rename_i hle'
      obtain ⟨l, -, hc⟩ := hseal hle'
      rw [hc.pool]
      exact hroom
    · obtain ⟨n, hn, hg, -⟩ := spawnLoop_grown st (T - st.pool.length) env.fails
      rw [hg.length]
      omega

/-- Three active slaves with the loads 2, 0 and 1, and a manual target of one. -/
def crew : Engine where
  poolTarget := 1
  pool := [2, 0, 1]
  born := 3
  workers := fun i => { machine := {
    objs := fun _ => { kind := .active, res := { control := some 0, session := some 0 } }
    channels := List.range i } }

theorem manual_population_crew : crew.activeWorkers = 3 ∧
    ∃ l, l.length = crew.activeWorkers - 1 ∧ Culled [] crew (crew.rebalanceSlaves {}).1 l := by
  have hnd : crew.pool.Nodup := by decide
  obtain ⟨hseal, -, -, -⟩ := manual_population rfl rfl rfl (by decide) (by decide) hnd {} 1
    (by decide)
  exact ⟨by decide, (hseal (by decide)).2⟩

end Manual

/-! ## The slaves outside of the pool -/

section Outside

variable {sc : Scope} {st st' : Engine}

theorem closed_terminate (m : Machine) (ec : ErrorCode) (lost : Bool) :
    (m.terminate ec lost).closed = true := by
  obtain ⟨m₁, he, heq⟩ := m.terminate_evolves ec lost
  rw [heq]
  exact he.closed

/-- A slave that is not in the pool any more was terminated. -/
theorem Move.left (hm : Move sc st st')
    (h : ∀ i < st.born, i ∉ st.pool → (st.machine i).closed = true) :
    ∀ i < st'.born, i ∉ st'.pool → (st'.machine i).closed = true := by
  have heach := hm.each (P := fun i m => i < st.born → i ∉ st.pool → m.closed = true)
    (fun hlt => absurd hlt (Nat.lt_irrefl _)) (fun {i m a} hP _ _ hi hout => by
      cases a with
      | terminate ec lost => exact closed_terminate m ec lost
      | _ => exact (Machine.closed_effect (by simp)).trans (hP hi hout)) h
  intro j hj hout
  cases hm with
  | flow h => cases h <;> exact heach j hj hout
  | @erase i lost =>
    by_cases hji : j = i
    · rw [machine_eraseSlave, if_pos hji]
      exact closed_terminate _ _ _
    · exact heach j hj fun hmem => hout ((List.mem_erase_of_ne hji).mpr hmem)
  | spawn =>
    obtain ⟨hne, hout⟩ := not_or.mp (mt List.mem_cons.mpr hout)
    exact heach j (Nat.lt_of_le_of_ne (Nat.lt_succ_iff.mp hj) hne) hout
  | rehash hperm => exact heach j hj fun hmem => hout (hperm.mem_iff.mpr hmem)
  | _ => exact heach j hj hout

/-- No worker is forgotten: in every run, a slave that was ever spawned is in the pool exactly as
long as nobody has terminated it. -/
theorem slaves_accounted (hr : engineSystem.Reachable System.Any st) {i : Nat} (hi : i < st.born) :
    i ∈ st.pool ↔ (st.machine i).closed = false := by
  have h : Pooled st ∧ ∀ i < st.born, i ∉ st.pool → (st.machine i).closed = true := by
    refine reachable_induct (P := fun st => Pooled st ∧
      ∀ i < st.born, i ∉ st.pool → (st.machine i).closed = true) hr (fun _ => covers_any _ _) ?_ ?_
    · intro p _
      refine ⟨Pooled.start p, ?_⟩
      unfold Engine.start maybePublish
      split <;> simp
    · rintro st st' ⟨hp, h⟩ hm
      exact ⟨hp.move hm, hm.left h⟩
  refine ⟨h.1.closed i, fun hc => by_contra fun hout => ?_⟩
  cases hc.symm.trans (h.2 i hi hout)

theorem slaves_accounted_removed : ∃ st, engineSystem.Reachable System.Any st ∧ st.born = 1 ∧
    st.pool = [] ∧ ¬(st.machine 0).closed = false := by
  obtain ⟨st, hr, hb, hp⟩ := engineSystem.exists_reachable System.Any
    (P := fun st => st.born = 1 ∧ st.pool = [])
    [.enqueue {} false false, .despawnForce 0 []] (s := start {}) ⟨{}, by decide, rfl⟩
    (by decide +kernel)
  exact ⟨st, hr, hb, hp, fun hc => by simpa [hp] using (slaves_accounted hr (by omega)).mpr hc⟩

end Outside

end Engine

end Cocaine.Node
