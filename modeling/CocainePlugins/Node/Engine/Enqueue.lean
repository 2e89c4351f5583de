import CocainePlugins.Node.Engine.Moves

/-!
# When `enqueue` is atomic

`enqueue` throws when the queue is full, before it pushes the request, and when
the construction of a slave throws, after the request was pushed, counted as
accepted and maybe assigned. Nothing takes the request back then, so `enqueue`
is atomic exactly when the queue is full or no construction that it makes throws
(`rebalanceSlaves_throws`).
-/

namespace Cocaine.Node.Engine

open Framework Slave

/-! ## Constructing slaves -/

/-- How many slaves `rebalance_slaves` constructs. -/
def demand (st : Engine) : Nat :=
  if st.stopped || st.afterTarget.failed || st.backoff then 0
  else st.boundedTarget - st.pool.length

section Demand

variable {st : Engine}

theorem boundedTarget_le (hp : 0 < st.profile.poolLimit) :
    st.boundedTarget ≤ st.profile.poolLimit := by
  unfold boundedTarget
  omega

theorem spawnLoop_throws (n : Nat) (fails : Option Nat)
    (hn : n ≤ st.profile.poolLimit - st.pool.length) :
    (spawnLoop n fails st).2 = true ↔ ∃ k, fails = some k ∧ k < n := by
  induction n generalizing st fails with
  | zero => simp [spawnLoop]
  | succ n ih =>
    have hlt : ¬st.profile.poolLimit ≤ st.pool.length := by omega
    have hn' : n ≤ st.spawn.profile.poolLimit - st.spawn.pool.length := by
      show n ≤ st.profile.poolLimit - (st.pool.length + 1)
      omega
    rcases fails with _ | _ | k
    · simp [spawnLoop, hlt, ih _ hn']
    · simp [spawnLoop]
    · simp [spawnLoop, hlt, ih _ hn']

theorem afterTarget_eq : ∃ b l, st.afterTarget = { st with failed := b, subs := l } := by
  unfold afterTarget
  split
  · exact ⟨true, st.subs, rfl⟩
  · split
    · exact ⟨st.failed, _, rfl⟩
    · exact ⟨st.failed, st.subs, rfl⟩

/-- `rebalance_slaves` throws when one of its constructions does. -/
theorem rebalanceSlaves_throws (hp : 0 < st.profile.poolLimit) (env : Supply) :
    (st.rebalanceSlaves env).2 = true ↔ ∃ k, env.fails = some k ∧ k < st.demand := by
  obtain ⟨b, l, heq⟩ := st.afterTarget_eq
  have hspawn : ∀ n, n ≤ st.profile.poolLimit - st.pool.length →
      ((spawnLoop n env.fails st.afterTarget).2 = true ↔ ∃ k, env.fails = some k ∧ k < n) := by
    intro n hn
    rw [heq]
    exact spawnLoop_throws n env.fails hn
  have hle := boundedTarget_le hp
  unfold rebalanceSlaves demand
  by_cases hs : st.stopped = true
  · simp [hs]
  by_cases hf : (st.afterTarget.failed || st.backoff) = true
  · simp [hs, hf]
  have hd : ¬(st.stopped || st.afterTarget.failed || st.backoff) = true := by simpa [hs] using hf
  rw [if_neg hs, if_neg hf, if_neg hd]
  split
  · split
    · rename_i hz
      simp [Nat.sub_eq_zero_of_le hz]
    · exact hspawn _ (by omega)
  · split
    · rename_i hz
      simp [Nat.sub_eq_zero_of_le (Nat.le_trans hle hz)]
    · exact hspawn _ (by omega)

end Demand

/-! ## What the rebalancing leaves alone -/

section Frame

variable {sc : Scope} {st st' : Engine}

/-- The scope of `rebalance_events` and `rebalance_slaves`. -/
def balancing : Scope where
  may t := t ≠ .accept ∧ t ≠ .reject

theorem Moves.counters (h : Moves balancing st st') :
    st'.accepted = st.accepted ∧ st'.rejected = st.rejected := by
  refine h.induct (P := fun st' => st'.accepted = st.accepted ∧ st'.rejected = st.rejected)
    ⟨rfl, rfl⟩ fun {st₁ st₂} ih hm => ?_
  cases hm with
  | flow h => cases h <;> exact ih
  | accept h => exact absurd rfl h.1
  | reject h => exact absurd rfl h.2
  | _ => exact ih

/-- The request is not in the queue and never got a channel. -/
def Absent (e : Nat) (st : Engine) : Prop := e ∉ st.queue ∧ ∀ i c, (e, i, c) ∉ st.placed

theorem Absent.place {e e' i : Nat} {q : List Nat} (h : Absent e st) (hq : q ⊆ st.queue)
    (he : e' ∈ st.queue) : Absent e (({ st with queue := q } : Engine).place i e') := by
  refine ⟨fun hm => h.1 (hq hm), fun i' c' hm => ?_⟩
  rcases List.mem_cons.mp hm with heq | hm
  · cases heq
    exact h.1 he
  · exact h.2 i' c' hm

theorem Moves.absent {e : Nat} (h : Moves balancing st st') (ha : Absent e st) : Absent e st' := by
  refine h.induct ha fun {st₁ st₂} ih hm => ?_
  cases hm with
  | flow h => cases h <;> exact ih
  | misplace _ he => exact ih.place (q := st₁.queue) (List.Subset.refl _) he
  | place hq =>
    exact ih.place (hq ▸ List.subset_cons_self _ _) (hq ▸ List.mem_cons_self)
  | drop hq => exact ⟨fun hm => ih.1 (hq ▸ List.mem_cons_of_mem _ hm), ih.2⟩
  | accept h => exact absurd rfl h.1
  | _ => exact ih

theorem rebalance_balancing (events : Nat → Attempt) (slaves : Supply) :
    Moves balancing st ((st.rebalanceEvents events).rebalanceSlaves slaves).1 :=
  .trans (rebalanceEvents_moves fun _ _ => ⟨by simp [balancing], by simp [Scope.bears, balancing]⟩)
    (rebalanceSlaves_moves (by simp [balancing]) (by simp [Scope.bears, balancing]))

theorem Moves.profile (h : Moves sc st st') : st'.profile = st.profile :=
  h.induct (P := fun st' => st'.profile = st.profile) rfl fun ih hm => hm.profile.trans ih

end Frame

/-- The numbers of requests in use are those of earlier ones. -/
structure Numbered (st : Engine) : Prop where
  queue : ∀ e ∈ st.queue, e < st.arrived
  placed : ∀ p ∈ st.placed, p.1 < st.arrived
  accepted : st.profile.Accepted

theorem Numbered.move {sc : Scope} {st st' : Engine} (h : Numbered st) (hm : Move sc st st') :
    Numbered st' := by
  obtain ⟨hq, hp, hac⟩ := h
  have hplace : ∀ {i e q}, q ⊆ st.queue → e ∈ st.queue →
      Numbered (({ st with queue := q } : Engine).place i e) := by
    intro i e q hsub he
    refine ⟨fun e' he' => hq e' (hsub he'), fun p hm => ?_, hac⟩
    rcases List.mem_cons.mp hm with rfl | hm
    · exact hq e he
    · exact hp p hm
  cases hm with
  | flow h => cases h <;> exact ⟨hq, hp, hac⟩
  | misplace _ he => exact hplace (q := st.queue) (List.Subset.refl _) he
  | place hq' => exact hplace (hq' ▸ List.subset_cons_self _ _) (hq' ▸ List.mem_cons_self)
  | drop hq' => exact ⟨fun e he => hq e (hq' ▸ List.mem_cons_of_mem _ he), hp, hac⟩
  | arrive | refuse =>
    exact ⟨fun e he => Nat.lt_succ_of_lt (hq e he), fun p hm => Nat.lt_succ_of_lt (hp p hm), hac⟩
  | accept =>
    refine ⟨fun e he => ?_, fun p hm => Nat.lt_succ_of_lt (hp p hm), hac⟩
    rcases List.mem_append.mp he with he | he
    · exact Nat.lt_succ_of_lt (hq e he)
    · rw [List.mem_singleton.mp he]
      exact Nat.lt_succ_self _
  | _ => exact ⟨hq, hp, hac⟩

theorem covers_any (st : Engine) (a : Act) : ({} : Scope).covers st a := by
  cases a <;> simp [Scope.covers, Scope.bears, Scope.admits, Scope.allows]

theorem Numbered.reachable {ok : Engine → Act → Prop} {st : Engine}
    (hr : engineSystem.Reachable ok st) : Numbered st := by
  refine reachable_induct (P := Numbered) hr (fun _ => covers_any _ _) ?_ Numbered.move
  intro p hp
  unfold Engine.start maybePublish
  split <;> exact ⟨by simp, by simp, hp⟩

/-! ## The call -/

/-- What the caller of `enqueue` relies on. -/
structure Atomic (st : Engine) (env : Arrival) : Prop where
  threw : (st.enqueue env).2 = true → Absent st.arrived (st.enqueue env).1 ∧
    (st.enqueue env).1.accepted = st.accepted ∧ (st.enqueue env).1.rejected = st.rejected + 1
  returned : (st.enqueue env).2 = false →
    (st.enqueue env).1.accepted = st.accepted + 1 ∧ (st.enqueue env).1.rejected = st.rejected

/-- How many slaves `enqueue` constructs once the request is pushed. -/
def constructs (st : Engine) (env : Arrival) : Nat :=
  ((st.arrive env.event).push.rebalanceEvents env.events).demand

section Call

variable {st : Engine} {env : Arrival}

theorem reject_counters (st : Engine) (env : Arrival) :
    (st.reject env).accepted = st.accepted ∧ (st.reject env).rejected = st.rejected + 1 :=
  (rebalance_balancing env.events' env.slaves').counters

/-- A request that is refused leaves no trace. -/
theorem atomic_of_full (hn : Numbered st) (hf : st.queueIsFull = true) : Atomic st env := by
  have heq : st.enqueue env = ((st.arrive env.event).reject env, true) := by
    simp [enqueue, hf]
  refine ⟨fun _ => ?_, fun h => ?_⟩
  · rw [heq]
    have habs : Absent st.arrived
        ({ st.arrive env.event with rejected := st.rejected + 1 } : Engine) :=
      ⟨fun h => Nat.lt_irrefl _ (hn.queue _ h), fun i c h => Nat.lt_irrefl _ (hn.placed _ h)⟩
    exact ⟨(rebalance_balancing env.events' env.slaves').absent habs, reject_counters _ env⟩
  · rw [heq] at h
    cases h

/-- `enqueue` of a request that is pushed. -/
theorem enqueue_of_not_full (hf : ¬st.queueIsFull = true) : st.enqueue env =
    if (((st.arrive env.event).push.rebalanceEvents env.events).rebalanceSlaves env.slaves).2 then
      ((((st.arrive env.event).push.rebalanceEvents env.events).rebalanceSlaves
        env.slaves).1.reject env, true)
    else
      ((((st.arrive env.event).push.rebalanceEvents env.events).rebalanceSlaves env.slaves).1,
        false) := by
  simp [enqueue, hf]

theorem pushed_throws (hp : st.profile.Accepted) :
    (((st.arrive env.event).push.rebalanceEvents env.events).rebalanceSlaves env.slaves).2 = true ↔
      ∃ k, env.slaves.fails = some k ∧ k < st.constructs env := by
  refine rebalanceSlaves_throws ?_ env.slaves
  have hm : Moves balancing (st.arrive env.event).push
      ((st.arrive env.event).push.rebalanceEvents env.events) :=
    rebalanceEvents_moves fun _ _ => ⟨by simp [balancing], by simp [Scope.bears, balancing]⟩
  rw [hm.profile]
  exact (Profile.accepted_iff.mp hp).2.1

theorem pushed_counters (st : Engine) (env : Arrival) :
    (((st.arrive env.event).push.rebalanceEvents env.events).rebalanceSlaves env.slaves).1.accepted =
      st.accepted + 1 ∧
    (((st.arrive env.event).push.rebalanceEvents env.events).rebalanceSlaves env.slaves).1.rejected =
      st.rejected :=
  (rebalance_balancing env.events env.slaves).counters

end Call

/-- In every reachable state, `enqueue` is atomic if and only if the queue is full
or none of the slaves that it constructs after the push throws. -/
theorem enqueue_atomic_iff {st : Engine} (hr : engineSystem.Reachable System.Any st)
    (env : Arrival) : Atomic st env ↔
      st.queueIsFull = true ∨ ∀ k, env.slaves.fails = some k → st.constructs env ≤ k := by
  have hn := Numbered.reachable hr
  obtain ⟨hac, hrj⟩ := pushed_counters st env
  by_cases hf : st.queueIsFull = true
  · exact ⟨fun _ => .inl hf, fun _ => atomic_of_full hn hf⟩
  by_cases ht : (((st.arrive env.event).push.rebalanceEvents env.events).rebalanceSlaves
      env.slaves).2 = true
  · -- The request was counted as accepted, and is so still.
    obtain ⟨k, hk, hlt⟩ := (pushed_throws hn.accepted).mp ht
    refine ⟨fun h => ?_, fun h => ?_⟩
    · have heq := (enqueue_of_not_full hf).trans (if_pos ht)
      have hth := (h.threw (by rw [heq])).2.1
      rw [heq] at hth
      have hre := (reject_counters (((st.arrive env.event).push.rebalanceEvents
        env.events).rebalanceSlaves env.slaves).1 env).1
      simp only at hth
      omega
    · rcases h with h | h
      · exact absurd h hf
      · have := h k hk
        omega
  · have hle : ∀ k, env.slaves.fails = some k → st.constructs env ≤ k := by
      intro k hk
      by_contra hlt
      exact ht ((pushed_throws hn.accepted).mpr ⟨k, hk, by omega⟩)
    have heq := (enqueue_of_not_full hf).trans (if_neg ht)
    refine ⟨fun _ => .inr hle, fun _ => ⟨fun h => ?_, fun _ => ?_⟩⟩
    · rw [heq] at h
      cases h
    · rw [heq]
      exact ⟨hac, hrj⟩

/-- Two requests are accepted, then the queue is full. -/
theorem enqueue_atomic_iff_full : ∃ st, engineSystem.Reachable System.Any st ∧
    st.queueIsFull = true ∧ Atomic st {} := by
  obtain ⟨st, hr, hf⟩ := engineSystem.exists_reachable System.Any
    (P := fun st => st.queueIsFull = true) (s := Engine.start { queueLimit := 2 })
    [.enqueue {} false false, .enqueue {} false false] ⟨_, by decide, rfl⟩ (by decide +kernel)
  exact ⟨st, hr, hf, (enqueue_atomic_iff hr {}).mpr (.inl hf)⟩

/-- The construction of the first slave throws: the caller is told so, and the
request is in the queue and counted twice. -/
theorem enqueue_not_atomic : ∃ st, engineSystem.Reachable System.Any st ∧
    (st.enqueue { slaves := { fails := some 0 } }).2 = true ∧
    st.arrived ∈ (st.enqueue { slaves := { fails := some 0 } }).1.queue ∧
    (st.enqueue { slaves := { fails := some 0 } }).1.accepted = st.accepted + 1 ∧
    (st.enqueue { slaves := { fails := some 0 } }).1.rejected = st.rejected + 1 :=
  engineSystem.exists_reachable System.Any (s := Engine.start {}) [] ⟨_, by decide, rfl⟩
    (by decide +kernel)

end Cocaine.Node.Engine
