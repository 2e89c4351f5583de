import CocainePlugins.Node.Slave.Active
import CocainePlugins.Node.Engine.Pool

/-!
# No lost wakeup

If requests wait and a slave of the pool has a free channel, a `rebalance_events`
is posted (`Awake`). A slave gets a free channel when one of its channels is
revoked or when its handshake activates it, and both post one; the other moves
are `Calm`. `rebalance_events` itself goes on until the queue or the free slaves
are exhausted, unless an assignment throws. A slave that is activated by the
isolate's readiness, because its handshake came first, posts nothing.
-/

namespace Cocaine.Node.Engine

open Framework Slave

/-- A `rebalance_events` is posted, by the engine or by a slave that revoked a
channel. -/
def pending (st : Engine) : Bool :=
  st.posted.contains .rebalanceEvents ||
    (List.range st.born).any fun i => (st.machine i).posted.contains .rebalanceEvents

def Awake (st : Engine) : Prop :=
  st.queue ≠ [] → (∃ i ∈ st.pool, st.vacant i = true) → st.pending = true

theorem pending_iff {st : Engine} : st.pending = true ↔ .rebalanceEvents ∈ st.posted ∨
    ∃ i < st.born, .rebalanceEvents ∈ (st.machine i).posted := by
  simp [pending]

/-- Nothing is taken back, and a slave gets a free channel only with a
`rebalance_events` posted. -/
structure Calm (st st' : Engine) : Prop where
  pending : st.pending = true → st'.pending = true
  queue : st'.queue ⊆ st.queue
  vacant : ∀ i ∈ st'.pool, st'.vacant i = true →
    i ∈ st.pool ∧ st.vacant i = true ∨ st'.pending = true

namespace Calm

variable {st st' st'' : Engine}

theorem refl (st : Engine) : Calm st st where
  pending := id
  queue := List.Subset.refl _
  vacant _ hi hv := .inl ⟨hi, hv⟩

theorem trans (h : Calm st st') (h' : Calm st' st'') : Calm st st'' where
  pending hp := h'.pending (h.pending hp)
  queue := List.Subset.trans h'.queue h.queue
  vacant i hi hv := by
    rcases h'.vacant i hi hv with ⟨hi', hv'⟩ | hp
    · exact (h.vacant i hi' hv').imp id h'.pending
    · exact .inr hp

theorem awake (h : Calm st st') (ha : Awake st) : Awake st' := by
  rintro hq ⟨i, hi, hv⟩
  rcases h.vacant i hi hv with ⟨hi', hv'⟩ | hp
  · refine h.pending (ha ?_ ⟨i, hi', hv'⟩)
    rintro hnil
    exact hq (List.subset_nil.mp (hnil ▸ h.queue))
  · exact hp

theorem frame (hm : st'.machine = st.machine) (hb : st'.born = st.born)
    (hp : .rebalanceEvents ∈ st.posted → .rebalanceEvents ∈ st'.posted) (hpool : st'.pool ⊆ st.pool)
    (hq : st'.queue ⊆ st.queue) (hpr : st'.profile = st.profile) : Calm st st' where
  pending h := by
    rw [pending_iff] at h ⊢
    rw [hm, hb]
    exact h.imp hp id
  queue := hq
  vacant i hi hv := by
    rw [vacant_iff, Engine.active, Engine.load, hm, hpr] at hv
    exact .inl ⟨hpool hi, vacant_iff.mpr hv⟩

theorem pending_of_machines (hb : st.born ≤ st'.born)
    (hp : .rebalanceEvents ∈ st.posted → .rebalanceEvents ∈ st'.posted)
    (hm : ∀ i < st.born, .rebalanceEvents ∈ (st.machine i).posted →
      .rebalanceEvents ∈ (st'.machine i).posted) (h : st.pending = true) : st'.pending = true := by
  rw [pending_iff] at h ⊢
  rcases h with h | ⟨i, hi, h⟩
  · exact .inl (hp h)
  · exact .inr ⟨i, Nat.lt_of_lt_of_le hi hb, hm i hi h⟩

theorem act (hpl : Pooled st) {i : Nat} {a : Slave.Act} (hr : ∀ c, a ≠ .register c)
    (ht : a ≠ .runRebalance)
    (hact : i ∈ st.pool → ((st.machine i).effect a).active = true → (st.machine i).active = true)
    (hb : st'.born = st.born) (hp : st'.posted = st.posted) (hpool : st'.pool ⊆ st.pool)
    (hq : st'.queue = st.queue) (hpr : st'.profile = st.profile)
    (hm : ∀ j, st'.machine j = if j = i then (st.machine i).effect a else st.machine j) :
    Calm st st' := by
  have hpost : ∀ j, .rebalanceEvents ∈ (st.machine j).posted →
      .rebalanceEvents ∈ (st'.machine j).posted := by
    intro j h
    rw [hm]
    split
    · rename_i hji
      rw [hji] at h
      exact Machine.rebalanceEvents_mem_effect ht h
    · exact h
  refine ⟨pending_of_machines (Nat.le_of_eq hb.symm) (fun h => hp ▸ h) (fun j _ => hpost j),
    hq ▸ List.Subset.refl _, fun j hj hv => ?_⟩
  have hjp := hpool hj
  rw [vacant_iff, Engine.active, Engine.load, hm, hpr] at hv
  split at hv
  · rename_i hji
    subst hji
    obtain ⟨hva, hvl⟩ := hv
    rcases Nat.lt_or_ge ((st.machine j).effect a).load (st.machine j).load with hlt | hge
    · -- A channel was freed.
      rcases Machine.freed_effect hr hlt with hre | ⟨hs, hs'⟩
      · refine .inr (pending_iff.mpr (.inr ⟨j, hb ▸ hpl.lt j hjp, ?_⟩))
        rw [hm, if_pos rfl]
        exact hre
      · rw [fell_effect hs hs'] at hva
        cases hva
    · exact .inl ⟨hjp, vacant_iff.mpr ⟨hact hjp hva, Nat.lt_of_le_of_lt hge hvl⟩⟩
  · exact .inl ⟨hjp, vacant_iff.mpr hv⟩

theorem perform (hpl : Pooled st) {i : Nat} {a : Slave.Act} (hr : ∀ c, a ≠ .register c)
    (ht : a ≠ .runRebalance)
    (hact : i ∈ st.pool → ((st.machine i).effect a).active = true → (st.machine i).active = true) :
    Calm st (st.perform i a) :=
  act hpl hr ht hact rfl rfl (List.Subset.refl _) rfl rfl (machine_perform st i · a)

theorem spawn : Calm st st.spawn where
  pending := pending_of_machines (Nat.le_succ _) id fun i hi h => by
    rw [machine_spawn, if_neg (Nat.ne_of_lt hi)]
    exact h
  queue := List.Subset.refl _
  vacant i hi hv := by
    rw [vacant_iff, Engine.active, Engine.load, machine_spawn] at hv
    split at hv
    · cases hv.1
    · rename_i hne
      exact .inl ⟨(List.mem_cons.mp hi).resolve_left hne, vacant_iff.mpr hv⟩

/-- The slave that gets a channel had a free one. -/
theorem place (i e : Nat) {q : List Nat} (hq : q ⊆ st.queue) :
    Calm st (({ st with queue := q } : Engine).place i e) where
  pending := pending_of_machines (Nat.le_refl _) id fun j hj h => by
    rw [machine_place]
    split
    · rename_i hji
      subst hji
      exact h
    · exact h
  queue := hq
  vacant j hj hv := by
    refine .inl ⟨hj, ?_⟩
    rw [vacant_iff, Engine.active, Engine.load, machine_place] at hv
    split at hv
    · rename_i hji
      subst hji
      refine vacant_iff.mpr ⟨hv.1, Nat.lt_of_le_of_lt ?_ hv.2⟩
      show (st.machine j).channels.length ≤ (if (st.machine j).counter + 1 ∈ (st.machine j).channels
        then (st.machine j).channels
        else ((st.machine j).counter + 1) :: (st.machine j).channels).length
      by_cases hc : (st.machine j).counter + 1 ∈ (st.machine j).channels <;> simp [hc]
    · exact vacant_iff.mpr hv

/-- The moves that cannot leave a free slave unnoticed. -/
def lulled : Scope where
  may t := t ≠ .accept ∧ t ≠ .take ∧ t ≠ .wake
  slave m a := m.wakes a = false

theorem move (hpl : Pooled st) (hm : Move lulled st st') : Calm st st' := by
  have hsame : ∀ {a : Slave.Act} {i}, a.activates = false →
      i ∈ st.pool → ((st.machine i).effect a).active = true → (st.machine i).active = true :=
    fun ha _ => (Dims.effect ha).rise
  cases hm with
  | flow hf =>
    cases hf with
    | @slave i a hq =>
      have ha : a.activates = false := by cases a <;> first | rfl | cases hq
      refine perform hpl ?_ ?_ (hsame ha) <;> (intros; rintro rfl; cases hq)
    | _ => exact frame rfl rfl id (List.Subset.refl _) (List.Subset.refl _) rfl
  | attempt | leak =>
    exact act hpl (a := .newChannel) (by simp) (by simp) (hsame rfl) rfl rfl (List.Subset.refl _) rfl
      rfl (machine_attempt st _ _ · _)
  | misplace => exact place _ _ (q := st.queue) (List.Subset.refl _)
  | place hq => exact place _ _ (hq ▸ List.subset_cons_self _ _)
  | drop hq =>
    exact frame rfl rfl id (List.Subset.refl _) (hq ▸ List.subset_cons_self _ _) rfl
  | accept h => exact absurd rfl h.1
  | spawn => exact spawn
  | doSeal | cleanup => exact perform hpl (by simp) (by simp) (hsame rfl)
  | activate h => exact absurd rfl h.2.2
  | @slave i a hi hx he hs =>
    refine perform hpl ?_ ?_ fun _ hact => ?_
    · intros
      rintro rfl
      cases hx
    · rintro rfl
      cases hx
    · cases a with
      | ready r throws => exact (active_onReady hact).resolve_right (by simp_all [lulled])
      | activate => cases hx
      | _ => exact (Dims.effect rfl).rise hact
  | revoked h => exact absurd rfl h.2.1
  | condemn =>
    refine frame (funext fun j => ?_) rfl id (List.Subset.refl _) (List.Subset.refl _) rfl
    exact machine_condemn st _ j _
  | erase =>
    exact act hpl (a := .terminate _ _) (by simp) (by simp) (hsame rfl) rfl rfl List.erase_subset
      rfl rfl (machine_eraseSlave st _ · _)
  | rehash hp => exact frame rfl rfl id hp.subset (List.Subset.refl _) rfl
  | take hj =>
    refine frame rfl rfl (fun h => ?_) (List.Subset.refl _) (List.Subset.refl _) rfl
    exact (List.mem_erase_of_ne fun he => (hj he.symm).2.1 rfl).mpr h
  | post =>
    exact frame rfl rfl (List.mem_cons_of_mem _) (List.Subset.refl _)
      (List.Subset.refl _) rfl
  | _ => exact frame rfl rfl id (List.Subset.refl _) (List.Subset.refl _) rfl

theorem moves (hpl : Pooled st) (h : Moves lulled st st') : Calm st st' :=
  (h.induct (P := fun st' => Pooled st' ∧ Calm st st') ⟨hpl, refl st⟩
    fun ⟨hpl', hc⟩ hm => ⟨hpl'.move hm, hc.trans (move hpl' hm)⟩).2

end Calm

/-! ## Balancing -/

section Balance

variable {st : Engine}

theorem assign_of_fault_none {env : Attempt} {i : Nat} (ha : st.active i = true)
    (hf : env.fault = none) (e : Nat) : (st.assign i e env).2 = false := by
  have hin : (st.inject i e env).2 = false := by simp [inject, ha, hf]
  unfold assign
  dsimp only
  split
  · rfl
  · split
    · split
      · rfl
      · exact hin
    · exact hin

/-- Nothing is left to assign, or no slave is free. -/
def Exhausted (st : Engine) : Prop := st.queue = [] ∨ ∀ i ∈ st.pool, st.vacant i = false

theorem rebalanceLoop_exhausts {env : Nat → Attempt} (q : List Nat) (hq : st.queue = q)
    (hf : ∀ e ∈ q, (env e).fault = none) : Exhausted (rebalanceLoop env st q) := by
  induction q generalizing st with
  | nil => exact .inl hq
  | cons e q ih =>
    unfold rebalanceLoop
    split
    · rename_i hsel
      exact .inr fun i hi => selectSlave_none hsel hi
    · rename_i i hsel
      have ha := (vacant_iff.mp (selectSlave_mem hsel).2).1
      dsimp only
      rw [assign_of_fault_none ha (hf e List.mem_cons_self), if_neg Bool.false_ne_true]
      exact ih rfl fun e' he' => hf e' (List.mem_cons_of_mem e he')

theorem rebalanceEvents_awake {env : Nat → Attempt} (hf : ∀ e ∈ st.queue, (env e).fault = none) :
    Awake (st.rebalanceEvents env) := by
  unfold rebalanceEvents
  split
  · rename_i hp
    rintro - ⟨i, hi, -⟩
    rw [hp] at hi
    cases hi
  · rintro hq ⟨i, hi, hv⟩
    rcases rebalanceLoop_exhausts st.queue rfl hf with h | h
    · exact absurd h hq
    · rw [h i hi] at hv
      cases hv

theorem rebalanceSlaves_calm (hpl : Pooled st) (env : Supply) :
    Calm st (st.rebalanceSlaves env).1 :=
  .moves hpl (rebalanceSlaves_moves (by simp [Calm.lulled]) (by simp [Scope.bears, Calm.lulled]))

theorem Pooled.moves {st' : Engine} (hpl : Pooled st) (h : Moves {} st st') : Pooled st' :=
  h.induct hpl Pooled.move

theorem Pooled.rebalanceEvents (hpl : Pooled st) (env : Nat → Attempt) :
    Pooled (st.rebalanceEvents env) :=
  hpl.moves (rebalanceEvents_moves fun _ _ => ⟨fun _ _ => trivial, fun _ => trivial⟩)

theorem reject_awake (hpl : Pooled st) {env : Arrival}
    (hf : ∀ e ∈ st.queue, (env.events' e).fault = none) : Awake (st.reject env) := by
  have hpl' : Pooled { st with rejected := st.rejected + 1 } := ⟨hpl.lt, hpl.nodup, hpl.closed⟩
  exact (rebalanceSlaves_calm (hpl'.rebalanceEvents _) _).awake (rebalanceEvents_awake hf)

theorem enqueue_awake (hpl : Pooled st) {env : Arrival} (hf : ∀ e, e ∈ st.queue ∨ e = st.arrived →
    (env.events e).fault = none ∧ (env.events' e).fault = none) : Awake (st.enqueue env).1 := by
  have hq : ∀ e ∈ (st.arrive env.event).push.queue, e ∈ st.queue ∨ e = st.arrived := by
    simp [push, arrive]
  unfold enqueue
  dsimp only
  split
  · have hpl₀ : Pooled (st.arrive env.event) := ⟨hpl.lt, hpl.nodup, hpl.closed⟩
    exact reject_awake hpl₀ fun e he => (hf e (.inl he)).2
  · have hpl₁ : Pooled (st.arrive env.event).push := ⟨hpl.lt, hpl.nodup, hpl.closed⟩
    have hpl₂ := hpl₁.rebalanceEvents env.events
    have hc := rebalanceSlaves_calm hpl₂ env.slaves
    split
    · refine reject_awake (hpl₂.moves (rebalanceSlaves_moves trivial fun _ => trivial)) fun e he => ?_
      have hm : Moves { may := (· ≠ .accept) } (st.arrive env.event).push
          ((st.arrive env.event).push.rebalanceEvents env.events) :=
        rebalanceEvents_moves fun _ _ => ⟨by simp, by simp [Scope.bears]⟩
      exact (hf e (hq e (hm.queue_subset (hc.queue he)))).2
    · exact hc.awake (rebalanceEvents_awake fun e he => (hf e (hq e he)).1)

end Balance

/-! ## Steps -/

/-- Requests wait, nothing is posted, and the isolate reports the readiness of a
slave of the pool whose handshake came first. -/
def dozes (st : Engine) : Act → Bool
  | .slave i a => st.pool.contains i && (st.machine i).wakes a && !st.queue.isEmpty && !st.pending
  | _ => false

/-- No assignment of the step throws, and it does not activate a slave unnoticed
while requests wait. -/
def Wakeful (st : Engine) (a : Act) : Prop :=
  st.attempts (fun env => env.fault.isNone) a = true ∧ st.dozes a = false

instance (st : Engine) (a : Act) : Decidable (Wakeful st a) := inferInstanceAs (Decidable (_ ∧ _))

section Steps

variable {st : Engine}

/-- A handshake that activates the slave posts a `rebalance_events`. -/
theorem onHandshake_awake (hpl : Pooled st) (ha : Awake st) (i : Nat) (throws : Bool) :
    Awake (st.onHandshake i throws) := by
  unfold onHandshake
  split
  · dsimp only
    split
    · intro _ _
      rw [pending_iff]
      left
      unfold maybePublish
      split <;> exact List.mem_cons_self
    · rename_i hn
      refine (Calm.perform hpl (by simp) (by simp) fun _ hact => ?_).awake ha
      exact (active_activate hact).resolve_right hn
  · exact ha

theorem slave_awake (hpl : Pooled st) (ha : Awake st) {i : Nat} {a : Slave.Act}
    (hx : a.external = true) (hd : st.dozes (.slave i a) = false) : Awake (st.perform i a) := by
  have hr : ∀ c, a ≠ .register c := by
    rintro c rfl
    cases hx
  have ht : a ≠ .runRebalance := by
    rintro rfl
    cases hx
  by_cases hw : (st.machine i).wakes a = true ∧ i ∈ st.pool
  · -- The slave becomes active: no request waits, or a handler is posted.
    intro hq _
    have hq' : st.queue ≠ [] := hq
    have hp : st.pending = true := by simpa [dozes, hw.1, hw.2, hq'] using hd
    have hstay : st.pending = true → (st.perform i a).pending = true := by
      refine Calm.pending_of_machines (Nat.le_refl _) id fun j _ h => ?_
      rw [machine_perform]
      split
      · rename_i hji
        rw [hji] at h
        exact Machine.rebalanceEvents_mem_effect ht h
      · exact h
    exact hstay hp
  · refine (Calm.perform hpl hr ht fun hi hact => ?_).awake ha
    cases a with
    | ready r throws => exact (active_onReady hact).resolve_right fun h => hw ⟨h, hi⟩
    | activate => cases hx
    | _ => exact (Dims.effect rfl).rise hact

theorem effect_awake (hpl : Pooled st) (ha : Awake st) {a : Act} (he : st.enabled a = true)
    (hw : Wakeful st a) : Awake (st.effect a) := by
  obtain ⟨hf, hd⟩ := hw
  have hcalm : ∀ {a}, st.enabled a = true → Calm.lulled.covers st a → Awake (st.effect a) :=
    fun he hc => (Calm.moves hpl (effect_moves he hc)).awake ha
  cases a with
  | enqueue env system mute =>
    simp only [attempts, List.all_eq_true, Bool.and_eq_true, Option.isNone_iff_eq_none] at hf
    have hen : Awake (st.enqueue env).1 :=
      enqueue_awake hpl fun e h => hf e (List.mem_cons.mpr h.symm)
    have hemit : ∀ {st' : Engine}, Awake st' → Awake (st'.emit st.arrived .error) := fun h => h
    show Awake (st.onEnqueue env system mute)
    unfold onEnqueue
    split
    · split <;> exact ha
    · dsimp only
      split
      · exact hemit hen
      · exact hen
  | rebalanceEvents env =>
    exact rebalanceEvents_awake fun e h => by simpa using List.all_eq_true.mp hf e h
  | revoked i env =>
    exact rebalanceEvents_awake fun e h => by simpa using List.all_eq_true.mp hf e h
  | handshake i throws => exact onHandshake_awake hpl ha i throws
  | slave i a =>
    simp only [enabled, Bool.and_eq_true] at he
    exact slave_awake hpl ha he.1.2 hd
  | rebalanceSlaves | controlPopulation | spawnRateTimeout | cleanup | despawnGraceful
  | despawnForce | workerFrame | workerDiscard | clientEnd | clientDiscard | requestTimeout
  | stop | rehash =>
    exact hcalm he (by simp [Scope.covers, Scope.bears, Calm.lulled])

end Steps

/-- In every run in which no assignment throws and no slave is activated
unnoticed while requests wait: if the queue is not empty and the pool has an
active slave with a free channel, a `rebalance_events` is posted. -/
theorem no_lost_wakeup {st : Engine} (hr : engineSystem.Reachable Wakeful st) (hq : st.queue ≠ [])
    {i : Nat} (hi : i ∈ st.pool) (ha : st.active i = true)
    (hl : st.load i < st.profile.concurrency) : st.pending = true := by
  have h : Pooled st ∧ Awake st := by
    refine hr.induct (P := fun st => Pooled st ∧ Awake st) ?_ ?_
    · rintro _ ⟨p, -, rfl⟩
      refine ⟨Pooled.start p, ?_⟩
      unfold Engine.start maybePublish
      split <;> exact fun hq => absurd rfl hq
    · rintro st a st' ⟨hpl, haw⟩ hw hs
      obtain ⟨-, he, rfl⟩ := step_eq_some.mp hs
      refine ⟨hpl.moves (effect_moves he ?_), effect_awake hpl haw he hw⟩
      cases a <;> simp [Scope.covers, Scope.bears, Scope.admits, Scope.allows]
  exact h.2 hq ⟨i, hi, vacant_iff.mpr ⟨ha, hl⟩⟩

/-- A request waits while the first slave shakes hands. -/
theorem no_lost_wakeup_handshake : ∃ st, engineSystem.Reachable Wakeful st ∧ st.queue = [0] ∧
    0 ∈ st.pool ∧ st.active 0 = true ∧ st.load 0 < st.profile.concurrency ∧
    st.pending = true := by
  obtain ⟨st, hr, hq, hi, ha, hl⟩ := engineSystem.exists_reachable Wakeful
    (P := fun st => st.queue = [0] ∧ 0 ∈ st.pool ∧ st.active 0 = true ∧
      st.load 0 < st.profile.concurrency)
    (s := Engine.start {})
    [.enqueue {} false false, .slave 0 (.prepare false), .slave 0 (.token {}),
      .slave 0 (.refresh {} .spawned), .slave 0 (.ready 1 false), .handshake 0 false]
    ⟨_, by decide, rfl⟩ (by decide +kernel)
  exact ⟨st, hr, hq, hi, ha, hl, no_lost_wakeup hr (by simp [hq]) hi ha hl⟩

/-- The only assignment throws; the isolate reports the readiness of a slave whose
handshake came first. -/
theorem wakeup_lost :
    (∃ st, engineSystem.Reachable System.Any st ∧
      ∃ st' ∈ engineSystem.step st (.rebalanceEvents fun _ => { fault := some .fork }),
        st'.queue = [0] ∧ 0 ∈ st'.pool ∧ st'.active 0 = true ∧
        st'.load 0 < st'.profile.concurrency ∧ st'.pending = false) ∧
    (∃ st, engineSystem.Reachable System.Any st ∧
      ∃ st' ∈ engineSystem.step st (.slave 0 (.ready 1 false)),
        st'.queue = [0] ∧ 0 ∈ st'.pool ∧ st'.active 0 = true ∧
        st'.load 0 < st'.profile.concurrency ∧ st'.pending = false) := by
  constructor
  · exact engineSystem.exists_reachable System.Any (s := Engine.start {})
      [.enqueue {} false false, .slave 0 (.prepare false), .slave 0 (.token {}),
        .slave 0 (.refresh {} .spawned), .slave 0 (.ready 1 false), .handshake 0 false]
      ⟨_, by decide, rfl⟩ (by decide +kernel)
  · exact engineSystem.exists_reachable System.Any (s := Engine.start {})
      [.enqueue {} false false, .slave 0 (.prepare false), .slave 0 (.token {}),
        .slave 0 (.refresh {} .spawned), .handshake 0 false, .rebalanceEvents fun _ => {}]
      ⟨_, by decide, rfl⟩ (by decide +kernel)

end Cocaine.Node.Engine
