import CocainePlugins.Node.Engine.Active
import CocainePlugins.Node.Engine.Enqueue

/-!
# The publishing thresholds

The application is told of its slaves by `spawned`, after a handshake, and by
`despawned`, after a death or a forced despawn; it counts the active workers
then. Between these moments the count changes: it falls by a shutdown, whose
callback is still to come, which is why the lower threshold is claimed only of
`quiescent` states (`Honoured`). Two changes are never told: a handshake that
comes before the isolate's readiness counts a slave that is not active yet, and
sealing a slave ends its activity long before its death.
-/

namespace Cocaine.Node.Engine

open Framework Slave

structure Healthy (st : Engine) : Prop where
  accepted : st.profile.Accepted
  pooled : Pooled st
  ordered : ∀ i, Ordered (st.machine i)

structure Honoured (st : Engine) : Prop extends Healthy st where
  on : st.stopped = false → st.profile.publishOn ≤ st.activeWorkers → st.published = true
  under : st.stopped = false → st.quiescent = true → st.published = true →
    st.profile.unpublishUnder ≤ st.activeWorkers

section Moves

variable {sc : Scope} {st st' : Engine}

theorem Healthy.move (h : Healthy st) (hm : Move sc st st') : Healthy st' :=
  ⟨hm.profile ▸ h.accepted, h.pooled.move hm, hm.ordered h.ordered⟩

theorem Healthy.moves (h : Healthy st) (hm : Moves sc st st') : Healthy st' :=
  hm.induct h Healthy.move

theorem Healthy.unpublishUnder_le (h : Healthy st) :
    st.profile.unpublishUnder ≤ st.profile.publishOn :=
  (Profile.accepted_iff.mp h.accepted).2.2.2.2

/-! ## Moves between two notifications -/

/-- No slave is activated, and the application is left alone. -/
structure Scope.Ebbing (sc : Scope) : Prop where
  wake : ¬sc.may .wake
  publish : ¬sc.may .publish
  stop : ¬sc.may .stop
  slave : ∀ m a, sc.slave m a → m.wakes a = false

structure Ebbs (st st' : Engine) : Prop where
  profile : st'.profile = st.profile
  stopped : st'.stopped = st.stopped
  published : st'.published = st.published
  active : st'.activeWorkers ≤ st.activeWorkers

theorem Ebbs.refl (st : Engine) : Ebbs st st := ⟨rfl, rfl, rfl, Nat.le_refl _⟩

theorem Ebbs.trans {st'' : Engine} (h : Ebbs st st') (h' : Ebbs st' st'') : Ebbs st st'' :=
  ⟨h'.profile.trans h.profile, h'.stopped.trans h.stopped, h'.published.trans h.published,
    Nat.le_trans h'.active h.active⟩

theorem Move.ebbs (hsc : sc.Ebbing) (hp : Pooled st) (hm : Move sc st st') : Ebbs st st' := by
  refine ⟨hm.profile, ?_, ?_, hm.active_le hp hsc.wake hsc.slave⟩
  · cases hm with
    | flow h => cases h <;> rfl
    | stop h => exact absurd h hsc.stop
    | _ => rfl
  · cases hm with
    | flow h => cases h <;> rfl
    | publish h => exact absurd h hsc.publish
    | _ => rfl

theorem Moves.ebbs (hsc : sc.Ebbing) (h : Healthy st) (hm : Moves sc st st') : Ebbs st st' := by
  refine (hm.induct (P := fun st' => Healthy st' ∧ Ebbs st st') ⟨h, .refl st⟩ ?_).2
  intro st₁ st₂ ih hm
  obtain ⟨hh, he⟩ := ih
  exact ⟨hh.move hm, he.trans (hm.ebbs hsc hh.pooled)⟩

/-- A slave may be sealed or leave the pool. -/
def ebbing : Scope where
  may t := t ≠ .wake ∧ t ≠ .publish ∧ t ≠ .stop
  slave m a := m.wakes a = false

theorem ebbing_ebbing : ebbing.Ebbing := by
  refine ⟨?_, ?_, ?_, fun _ _ => id⟩ <;> simp [ebbing]

/-- No slave is sealed or leaves the pool, and the target stays. -/
def resting : Scope where
  may t := t ≠ .wake ∧ t ≠ .publish ∧ t ≠ .stop ∧ t ≠ .sealing ∧ t ≠ .leave ∧ t ≠ .tune
  slave m a := m.wakes a = false

theorem resting_ebbing : resting.Ebbing := by
  refine ⟨?_, ?_, ?_, fun _ _ => id⟩ <;> simp [resting]

structure Rests (st st' : Engine) : Prop extends Ebbs st st' where
  poolTarget : st'.poolTarget = st.poolTarget
  backoff : st'.backoff = st.backoff
  quiescent : st'.quiescent = true → st.quiescent = true ∧ st.activeWorkers ≤ st'.activeWorkers

theorem Move.tuned (hm : Move resting st st') :
    st'.poolTarget = st.poolTarget ∧ st'.backoff = st.backoff := by
  cases hm with
  | flow h => cases h <;> exact ⟨rfl, rfl⟩
  | tune h => exact absurd rfl h.2.2.2.2.2
  | _ => exact ⟨rfl, rfl⟩

theorem Moves.rests (h : Healthy st) (hm : Moves resting st st') : Rests st st' := by
  have hl : ¬resting.may .leave := by simp [resting]
  have hs : ¬resting.may .sealing := by simp [resting]
  refine (hm.induct (P := fun st' => Healthy st' ∧ Rests st st')
    ⟨h, .refl st, rfl, rfl, fun hq => ⟨hq, Nat.le_refl _⟩⟩ ?_).2
  intro st₁ st₂ ih hm
  obtain ⟨hh, hr⟩ := ih
  refine ⟨hh.move hm, hr.toEbbs.trans (hm.ebbs resting_ebbing hh.pooled),
    hm.tuned.1.trans hr.poolTarget, hm.tuned.2.trans hr.backoff, fun hq₂ => ?_⟩
  obtain ⟨hq₁, hle⟩ := hr.quiescent (hm.quiescent hl hq₂)
  exact ⟨hq₁, Nat.le_trans hle (hm.le_active hh.pooled hh.ordered hl hs hq₂)⟩

end Moves

/-! ## Unheard changes -/

/-- `rebalance_slaves` seals workers until fewer than `unpublish_under` are active,
while the application is published and no callback is posted. -/
def culls (st : Engine) : Bool :=
  !st.stopped && !st.backoff && st.published && st.quiescent && decide (0 < st.poolTarget) &&
    decide (st.boundedTarget < st.activeWorkers) &&
    decide (st.boundedTarget < st.profile.unpublishUnder)

/-- The step takes the active workers across a threshold, and nobody will tell the
application: the isolate's readiness activates a slave that had its handshake
before, or slaves are sealed. -/
def unheard (st : Engine) : Act → Bool
  | .slave i a =>
    (st.machine i).wakes a && st.pool.contains i && !st.published &&
      decide (st.profile.publishOn ≤ st.activeWorkers + 1)
  | .enqueue _ _ _ | .rebalanceSlaves _ => st.culls
  | .controlPopulation count _ => ({ st with poolTarget := count.toNat } : Engine).culls
  | .spawnRateTimeout _ => ({ st with backoff := false } : Engine).culls
  | .despawnGraceful i _ =>
    st.pool.contains i && st.active i && st.published && st.quiescent &&
      decide (st.activeWorkers ≤ st.profile.unpublishUnder)
  | _ => false

def Heard (st : Engine) (a : Act) : Prop := st.unheard a = false

instance (st : Engine) (a : Act) : Decidable (Heard st a) := inferInstanceAs (Decidable (_ = _))

theorem boundedTarget_of_manual {st : Engine} (h : 0 < st.poolTarget) :
    st.boundedTarget = max 1 (min st.poolTarget st.profile.poolLimit) := by
  rw [boundedTarget, target, if_pos h]

theorem culls_iff {st : Engine} : st.culls = true ↔ st.stopped = false ∧ st.backoff = false ∧
    st.published = true ∧ st.quiescent = true ∧ 0 < st.poolTarget ∧
    st.boundedTarget < st.activeWorkers ∧ st.boundedTarget < st.profile.unpublishUnder := by
  simp [culls, and_assoc]

theorem Rests.culls {st st' : Engine} (h : Rests st st') (hc : st.culls = false) :
    st'.culls = false := by
  by_contra hc'
  obtain ⟨hs, hb, hp, hq, ht, hlt, hu⟩ := culls_iff.mp (by simpa using hc')
  rw [boundedTarget_of_manual ht, h.poolTarget, h.profile] at hlt hu
  rw [h.poolTarget] at ht
  have hculls : st.culls = true := by
    rw [culls_iff, boundedTarget_of_manual ht]
    exact ⟨h.stopped ▸ hs, h.backoff ▸ hb, h.published ▸ hp, (h.quiescent hq).1, ht,
      Nat.lt_of_lt_of_le hlt h.active, hu⟩
  rw [hc] at hculls
  cases hculls

/-! ## Steps -/

theorem Moves.quiescent {st st' : Engine} (hm : Moves { may := (· ≠ .leave) } st st')
    (h : st'.quiescent = true) : st.quiescent = true :=
  hm.induct (P := fun st' => st'.quiescent = true → st.quiescent = true) id
    (fun ih hm h => ih (hm.quiescent (fun hne => hne rfl) h)) h

theorem activeWorkers_sealLoop {st : Engine} (hp : Pooled st) (lost : List Nat) (n : Nat) :
    st.activeWorkers ≤ (sealLoop lost n st).activeWorkers + n := by
  induction n generalizing st with
  | zero => exact Nat.le_refl _
  | succ n ih =>
    unfold sealLoop
    split
    · omega
    · rename_i i hsel
      have hi := (selectSlave_mem hsel).1
      have hm : Move {} st (st.perform i (.doSeal (lost.contains i))) :=
        .doSeal trivial hi fun _ => trivial
      have hstep := activeWorkers_perform hp.nodup hi (.doSeal (lost.contains i))
      have hone := (st.active i).toNat_le
      have hrec := ih (hp.move hm)
      omega

theorem stopped_stop (st : Engine) (lost : List Nat) : (st.stop lost).stopped = true := by
  have herase : ∀ (pool : List Nat) (st : Engine),
      (pool.foldl (fun st i => st.eraseSlave i lost) st).stopped = st.stopped := by
    intro pool
    induction pool with
    | nil => exact fun _ => rfl
    | cons i pool ih => exact fun st => ih _
  simp only [stop, controlPopulation_of_stopped, herase]

namespace Honoured

variable {st st' : Engine}

theorem on_of_ebbs (h : Honoured st) (he : Ebbs st st') (hs : st'.stopped = false)
    (hon : st'.profile.publishOn ≤ st'.activeWorkers) : st'.published = true := by
  rw [he.published]
  rw [he.stopped] at hs
  rw [he.profile] at hon
  exact h.on hs (Nat.le_trans hon he.active)

theorem rests (h : Honoured st) (hm : Moves resting st st') : Honoured st' := by
  have hst := hm.rests h.toHealthy
  refine ⟨h.toHealthy.moves hm, h.on_of_ebbs hst.toEbbs, ?_⟩
  rw [hst.stopped, hst.profile, hst.published]
  intro hs hq hp
  obtain ⟨hq', hle⟩ := hst.quiescent hq
  exact Nat.le_trans (h.under hs hq' hp) hle

/-- After `despawned` the lower threshold holds, whatever happened before. -/
theorem maybeUnpublish (h : Honoured st) (hm : Moves ebbing st st') :
    Honoured st'.maybeUnpublish := by
  have hh := h.toHealthy.moves hm
  have hle := hh.unpublishUnder_le
  have hpub : Move {} st' { st' with published := false } := .publish trivial
  unfold Engine.maybeUnpublish
  split
  · rename_i hlt
    refine ⟨hh.move hpub, fun _ hon => ?_, fun _ _ hp => ?_⟩
    · have hon' : st'.profile.publishOn ≤ st'.activeWorkers := hon
      omega
    · cases hp
  · rename_i hge
    exact ⟨hh, h.on_of_ebbs (hm.ebbs ebbing_ebbing h.toHealthy), fun _ _ _ => Nat.le_of_not_lt hge⟩

/-! ### Balancing -/

theorem sealLoop (h : Honoured st) {t : Nat} (hc : st.stopped = false → st.published = true →
    st.quiescent = true → t < st.activeWorkers → st.profile.unpublishUnder ≤ t) (lost : List Nat) :
    Honoured (Engine.sealLoop lost (st.activeWorkers - t) st) := by
  have hm : Moves ebbing st (Engine.sealLoop lost (st.activeWorkers - t) st) :=
    sealLoop_moves (by simp [ebbing]) (fun _ => by simp [ebbing]) _
  have hq : Moves { may := (· ≠ .leave) } st (Engine.sealLoop lost (st.activeWorkers - t) st) :=
    sealLoop_moves (by simp) (fun _ => by simp) _
  have he := hm.ebbs ebbing_ebbing h.toHealthy
  have hcount := activeWorkers_sealLoop h.pooled lost (st.activeWorkers - t)
  refine ⟨h.toHealthy.moves hm, h.on_of_ebbs he, ?_⟩
  rw [he.stopped, he.profile, he.published]
  intro hs hq' hp
  have hu := h.under hs (hq.quiescent hq') hp
  by_cases hlt : t < st.activeWorkers
  · have := hc hs hp (hq.quiescent hq') hlt
    omega
  · omega

theorem rebalanceSlaves (h : Honoured st) (hc : st.culls = false) (env : Supply) :
    Honoured (st.rebalanceSlaves env).1 := by
  have hat : Moves resting st st.afterTarget := afterTarget_moves
  have h₁ : Honoured st.afterTarget := h.rests hat
  obtain ⟨b, l, heq⟩ := st.afterTarget_eq
  unfold Engine.rebalanceSlaves
  split
  · exact h
  · rename_i hs
    dsimp only
    split
    · exact h₁
    · rename_i hf
      split
      · rename_i ht
        split
        · rw [heq] at h₁ ⊢
          refine sealLoop h₁ (fun _ hp hq hlt => ?_) env.lost
          by_contra hu
          have hculls : st.culls = true := by
            simp only [Bool.or_eq_true, not_or, Bool.not_eq_true] at hs hf
            exact culls_iff.mpr ⟨hs, hf.2, hp, hq, ht, hlt, Nat.lt_of_not_le hu⟩
          rw [hc] at hculls
          cases hculls
        · exact h₁.rests (spawnLoop_moves _ _)
      · split
        · exact h₁
        · exact h₁.rests (spawnLoop_moves _ _)

/-- A `rebalance_slaves` that throws has not sealed anybody. -/
theorem rebalanceSlaves_resting {env : Supply} (ht : (st.rebalanceSlaves env).2 = true) :
    Moves resting st (st.rebalanceSlaves env).1 := by
  have hat : Moves resting st st.afterTarget := afterTarget_moves
  unfold Engine.rebalanceSlaves at ht ⊢
  split
  · exact .refl
  · dsimp only at ht ⊢
    split
    · exact hat
    · rename_i hs hf
      rw [if_neg hs, if_neg hf] at ht
      split
      · rename_i hp
        rw [if_pos hp] at ht
        split
        · rename_i hle
          rw [if_pos hle] at ht
          cases ht
        · exact hat.trans (spawnLoop_moves _ _)
      · split
        · exact hat
        · exact hat.trans (spawnLoop_moves _ _)

theorem rebalanceEvents_resting (env : Nat → Attempt) : Moves resting st (st.rebalanceEvents env) :=
  rebalanceEvents_moves fun _ _ => ⟨fun _ _ => by simp [resting], fun _ => by simp [resting]⟩

theorem reject (h : Honoured st) (hc : st.culls = false) (env : Arrival) :
    Honoured (st.reject env) := by
  have hj : Moves resting st { st with rejected := st.rejected + 1 } :=
    (Move.reject (by simp [resting])).moves
  have hm := hj.trans (rebalanceEvents_resting env.events')
  exact (h.rests hm).rebalanceSlaves ((hm.rests h.toHealthy).culls hc) env.slaves'

theorem enqueue (h : Honoured st) (hc : st.culls = false) (env : Arrival) :
    Honoured (st.enqueue env).1 := by
  have harr : Moves resting st (st.arrive env.event) := Move.arrive.moves
  unfold Engine.enqueue
  dsimp only
  split
  · exact (h.rests harr).reject ((harr.rests h.toHealthy).culls hc) env
  · rename_i hf
    have hpush : Moves resting st (st.arrive env.event).push :=
      (Move.accept (by simp [resting]) (by simpa using hf)).moves
    have hm := hpush.trans (rebalanceEvents_resting env.events)
    have h₁ := h.rests hm
    have hc₁ := (hm.rests h.toHealthy).culls hc
    split
    · rename_i ht
      have hm₂ := rebalanceSlaves_resting ht
      exact (h₁.rests hm₂).reject ((hm₂.rests h₁.toHealthy).culls hc₁) env
    · exact h₁.rebalanceSlaves hc₁ env.slaves

theorem onEnqueue (h : Honoured st) (hc : st.culls = false) (env : Arrival) (system mute : Bool) :
    Honoured (st.onEnqueue env system mute) := by
  have hreply : ∀ {st : Engine} (e : Nat), Moves resting st (st.emit e .error) :=
    fun _ => (Move.reply (by simp [resting])).moves
  have hrefuse : Moves resting st { st with arrived := st.arrived + 1 } := Move.refuse.moves
  unfold Engine.onEnqueue
  split
  · split
    · exact h.rests hrefuse
    · exact (h.rests hrefuse).rests (hreply _)
  · dsimp only
    split
    · exact (h.enqueue hc env).rests (hreply _)
    · exact h.enqueue hc env

/-! ### Slaves come and go -/

/-- A handler of a slave that is neither sealed nor terminated nor cleaned up. -/
theorem under_perform (h : Honoured st) {i : Nat} {a : Slave.Act}
    (hm : Move { may := fun t => t ≠ .leave ∧ t ≠ .sealing } st (st.perform i a))
    (hs : st.stopped = false) (hq : (st.perform i a).quiescent = true) (hp : st.published = true) :
    st.profile.unpublishUnder ≤ (st.perform i a).activeWorkers := by
  have hl : ¬((fun t => t ≠ .leave ∧ t ≠ .sealing : Trait → Prop) .leave) := fun h => h.1 rfl
  have hse : ¬((fun t => t ≠ .leave ∧ t ≠ .sealing : Trait → Prop) .sealing) := fun h => h.2 rfl
  exact Nat.le_trans (h.under hs (hm.quiescent hl hq) hp)
    (hm.le_active h.pooled h.ordered hl hse hq)

theorem onHandshake (h : Honoured st) (i : Nat) (throws : Bool) :
    Honoured (st.onHandshake i throws) := by
  have hm : Moves {} st (st.onHandshake i throws) := onHandshake_moves trivial trivial i throws
  have hh := h.toHealthy.moves hm
  unfold Engine.onHandshake at hh ⊢
  by_cases hi : i ∈ st.pool
  · have hact : Move { may := fun t => t ≠ .leave ∧ t ≠ .sealing } st
        (st.perform i (.activate throws)) := .activate (by simp) hi
    have hcount := activeWorkers_perform h.pooled.nodup hi (.activate throws)
    simp only [if_pos hi] at hh ⊢
    split
    · rename_i hc
      rw [if_pos hc] at hh
      have hle := hh.unpublishUnder_le
      unfold maybePublish at hh hle ⊢
      split
      · rename_i hon
        refine ⟨by rwa [if_pos hon] at hh, fun _ _ => rfl, fun _ _ _ => ?_⟩
        rw [if_pos hon] at hle
        exact Nat.le_trans hle hon
      · rename_i hon
        refine ⟨by rwa [if_neg hon] at hh, fun _ hon' => absurd hon' hon, ?_⟩
        exact fun hs hq hp => h.under_perform hact hs hq hp
    · rename_i hc
      rw [if_neg hc] at hh
      refine ⟨hh, fun hs hon => h.on hs ?_, fun hs hq hp => h.under_perform hact hs hq hp⟩
      -- The slave is active only if it was so before.
      have hkeep : ((st.machine i).effect (.activate throws)).active.toNat ≤ (st.active i).toNat := by
        rcases ha : ((st.machine i).effect (.activate throws)).active with _ | _
        · exact Nat.zero_le _
        · rcases active_activate ha with hb | hb
          · rw [active, hb]
          · exact absurd hb hc
      have hon' : st.profile.publishOn ≤ (st.perform i (.activate throws)).activeWorkers := hon
      omega
  · rw [if_neg hi]
    exact h

theorem slave (h : Honoured st) {i : Nat} {a : Slave.Act} (he : st.enabled (.slave i a) = true)
    (ha : Heard st (.slave i a)) : Honoured (st.perform i a) := by
  simp only [enabled, Bool.and_eq_true, decide_eq_true_eq] at he
  rcases hw : (st.machine i).wakes a with _ | _
  · exact h.rests (Move.slave he.1.1 he.1.2 he.2 hw).moves
  · have hm : Move { may := fun t => t ≠ .leave ∧ t ≠ .sealing } st (st.perform i a) :=
      .slave he.1.1 he.1.2 he.2 trivial
    refine ⟨h.toHealthy.move hm, fun hs hon => ?_, fun hs hq hp => h.under_perform hm hs hq hp⟩
    show st.published = true
    have hon' : st.profile.publishOn ≤ (st.perform i a).activeWorkers := hon
    by_cases hi : i ∈ st.pool
    · have hcount := activeWorkers_perform h.pooled.nodup hi a
      have hone := ((st.machine i).effect a).active.toNat_le
      have hsome : st.profile.publishOn ≤ st.activeWorkers + 1 := by omega
      simpa [Heard, unheard, hw, hi, hsome] using ha
    · rw [activeWorkers_perform_of_notMem hi] at hon'
      exact h.on hs hon'

theorem despawnGraceful (h : Honoured st) {i : Nat} {lost : List Nat}
    (ha : Heard st (.despawnGraceful i lost)) : Honoured (st.despawnGraceful i lost) := by
  unfold Engine.despawnGraceful
  split
  · rename_i hi
    have hm : Move ebbing st (st.perform i (.doSeal (lost.contains i))) :=
      .doSeal (by simp [ebbing]) hi fun _ => by simp [ebbing]
    have hq : Moves { may := (· ≠ .leave) } st (st.perform i (.doSeal (lost.contains i))) :=
      (Move.doSeal (by simp) hi fun _ => by simp).moves
    have hcount := activeWorkers_perform h.pooled.nodup hi (.doSeal (lost.contains i))
    refine ⟨h.toHealthy.move hm, h.on_of_ebbs (hm.ebbs ebbing_ebbing h.pooled), fun hs hq' hp => ?_⟩
    have hu := h.under hs (hq.quiescent hq') hp
    show st.profile.unpublishUnder ≤ (st.perform i (.doSeal (lost.contains i))).activeWorkers
    rcases hact : st.active i with _ | _
    · rw [hact] at hcount
      have hz : false.toNat = 0 := rfl
      omega
    · have hp' : st.published = true := hp
      have hlt : st.profile.unpublishUnder < st.activeWorkers := by
        simpa [Heard, unheard, hi, hact, hp', hq.quiescent hq'] using ha
      have hone := (st.active i).toNat_le
      omega
  · exact h

theorem despawnForce (h : Honoured st) (i : Nat) (lost : List Nat) :
    Honoured (st.despawnForce i lost) := by
  unfold Engine.despawnForce
  split
  · rename_i hi
    have hm : Moves ebbing st ((st.eraseSlave i lost).post .rebalanceSlaves) :=
      (Move.erase (by simp [ebbing]) hi).moves.trans Move.post.moves
    exact h.maybeUnpublish hm
  · exact h

theorem cleanup (h : Honoured st) {i : Nat} {ec : ErrorCode} {now₁ now₂ : Int} {lost : List Nat}
    (he : st.enabled (.cleanup i ec now₁ now₂ lost) = true) :
    Honoured ((st.perform i (.runCleanup ec)).onSlaveDeath i ec now₁ now₂ lost) := by
  have he' : (st.machine i).enabled (.runCleanup ec) = true := by simp_all [enabled]
  have hm : Moves ebbing st _ :=
    death_moves (by simp [ebbing]) (by simp [ebbing]) he' now₁ now₂ lost
  exact (h.maybeUnpublish hm).rests Move.post.moves

theorem stop (h : Honoured st) (lost : List Nat) : Honoured (st.stop lost) := by
  have hm : Moves {} st (st.stop lost) := stop_moves trivial trivial trivial trivial lost
  refine ⟨h.toHealthy.moves hm, fun hs => ?_, fun hs => ?_⟩
  · rw [stopped_stop] at hs
    cases hs
  · rw [stopped_stop] at hs
    cases hs

theorem tune (h : Honoured st) (target waits : Nat) (backoff : Bool) :
    Honoured { st with poolTarget := target, backoff := backoff, waits := waits } := by
  have ht : Moves {} st { st with poolTarget := target, backoff := backoff } :=
    (Move.tune trivial).moves
  exact ⟨h.toHealthy.moves (ht.trans Move.rest.moves), h.on, h.under⟩

theorem effect (h : Honoured st) {a : Act} (he : st.enabled a = true) (ha : Heard st a) :
    Honoured (st.effect a) := by
  have hrest : resting.covers st a → Honoured (st.effect a) := fun hc => h.rests (effect_moves he hc)
  cases a with
  | enqueue env system mute => exact h.onEnqueue ha env system mute
  | rebalanceSlaves env =>
    have hm : Moves resting st { st with posted := st.posted.erase .rebalanceSlaves } :=
      (Move.take (by simp)).moves
    exact (h.rests hm).rebalanceSlaves ((hm.rests h.toHealthy).culls ha) env
  | controlPopulation count env => exact (h.tune count.toNat st.waits st.backoff).rebalanceSlaves ha env
  | spawnRateTimeout env =>
    exact (h.tune st.poolTarget (st.waits - 1) false).rebalanceSlaves ha env
  | handshake i throws => exact h.onHandshake i throws
  | cleanup i ec now₁ now₂ lost => exact h.cleanup he
  | despawnGraceful i lost => exact h.despawnGraceful ha
  | despawnForce i lost => exact h.despawnForce i lost
  | slave i a => exact h.slave he ha
  | stop lost => exact h.stop lost
  | _ => exact hrest (by simp [Scope.covers, Scope.bears, Scope.allows, resting])

theorem start {p : Profile} (hp : p.Accepted) : Honoured (start p) := by
  have h : Healthy ({ profile := p } : Engine) :=
    ⟨hp, ⟨by simp, List.nodup_nil, by simp⟩, fun _ => Ordered.init⟩
  have hm : Moves {} ({ profile := p } : Engine) (Engine.start p) := maybePublish_moves trivial
  have hh := h.moves hm
  unfold Engine.start maybePublish at hh ⊢
  split
  · rename_i hon
    rw [if_pos hon] at hh
    exact ⟨hh, fun _ _ => rfl, fun _ _ _ => Nat.le_trans hh.unpublishUnder_le hon⟩
  · rename_i hon
    rw [if_neg hon] at hh
    exact ⟨hh, fun _ h => absurd h hon, fun _ _ hp => by cases hp⟩

end Honoured

/-- In every run in which no slave becomes active by the isolate's readiness, its
handshake received before, so that `publish_on` is reached while the application
is not published, and no slaves are sealed so that fewer than `unpublish_under`
are active while it is published and no callback is posted: the thresholds are
honoured whenever the application runs and no cleanup callback is posted. -/
theorem publishing_thresholds {st : Engine} (hr : engineSystem.Reachable Heard st)
    (hs : st.stopped = false) (hq : st.quiescent = true) :
    (st.profile.publishOn ≤ st.activeWorkers → st.published = true) ∧
      (st.activeWorkers < st.profile.unpublishUnder → st.published = false) := by
  have h : Honoured st := by
    refine hr.induct ?_ ?_
    · rintro _ ⟨p, hp, rfl⟩
      exact Honoured.start hp
    · intro st a st' h ha hs
      obtain ⟨-, he, rfl⟩ := step_eq_some.mp hs
      exact h.effect he ha
  refine ⟨h.on hs, fun hlt => ?_⟩
  by_contra hp
  have := h.under hs hq (by simpa using hp)
  omega

/-- A worker is handshaken, which publishes the application, and then dies. -/
theorem publishing_thresholds_died : ∃ st, engineSystem.Reachable Heard st ∧
    st.stopped = false ∧ st.quiescent = true ∧ st.activeWorkers < st.profile.unpublishUnder ∧
    st.published = false := by
  obtain ⟨st, hr, hs, hq, hlt⟩ := engineSystem.exists_reachable Heard
    (P := fun st => st.stopped = false ∧ st.quiescent = true ∧
      st.activeWorkers < st.profile.unpublishUnder)
    (s := Engine.start { publishOn := 1, unpublishUnder := 1 })
    [.enqueue {} false false, .slave 0 (.prepare false), .slave 0 (.token {}),
      .slave 0 (.refresh {} .spawned), .slave 0 (.ready 1 false), .handshake 0 false,
      .slave 0 (.suicide 0), .cleanup 0 SlaveErrors.committedSuicide.code 0 0 []]
    ⟨_, by decide, rfl⟩ (by decide +kernel)
  exact ⟨st, hr, hs, hq, hlt, (publishing_thresholds hr hs hq).2 hlt⟩

/-- The handshake comes before the isolate's readiness: the slave is active, and the
application is not published. And: the only worker is sealed gracefully: nobody is
active, and the application is still published. -/
theorem thresholds_missed :
    (∃ st, engineSystem.Reachable System.Any st ∧ st.stopped = false ∧ st.quiescent = true ∧
      st.profile.publishOn ≤ st.activeWorkers ∧ st.published = false) ∧
    ∃ st, engineSystem.Reachable System.Any st ∧ st.stopped = false ∧ st.quiescent = true ∧
      st.activeWorkers < st.profile.unpublishUnder ∧ st.published = true := by
  constructor
  · exact engineSystem.exists_reachable System.Any (s := Engine.start { publishOn := 1 })
      [.enqueue {} false false, .slave 0 (.prepare false), .slave 0 (.token {}),
        .slave 0 (.refresh {} .spawned), .handshake 0 false, .rebalanceEvents fun _ => {},
        .slave 0 (.ready 1 false)]
      ⟨_, by decide, rfl⟩ (by decide +kernel)
  · exact engineSystem.exists_reachable System.Any
      (s := Engine.start { publishOn := 1, unpublishUnder := 1 })
      [.enqueue {} false false, .slave 0 (.prepare false), .slave 0 (.token {}),
        .slave 0 (.refresh {} .spawned), .slave 0 (.ready 1 false), .handshake 0 false,
        .despawnGraceful 0 []]
      ⟨_, by decide, rfl⟩ (by decide +kernel)

end Cocaine.Node.Engine
