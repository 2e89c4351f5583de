import CocainePlugins.Node.Engine.Flow
import CocainePlugins.Node.Engine.Step

/-!
# A step of the engine as a sequence of moves

Every handler of the engine is a sequence of moves, of which each changes one
thing: a slave acts, a request gets a channel and leaves the queue, a slave
enters or leaves the pool. The invariants are proved of the moves and hold of
the steps by `effect_moves`; a `Scope` leaves out the moves that an invariant
does not survive, and `Scope.covers` says which steps keep to it.
-/

namespace Cocaine.Node.Engine

open Framework Slave

inductive Move (sc : Scope) (st : Engine) : Engine → Prop where
  | flow {st' : Engine} (h : Flow sc st st') : Move sc st st'
  /-- The attempts to inject a request that throw; it stays in the queue. -/
  | attempt {i e : Nat} : Move sc st (st.attempt i e false)
  | leak {i e : Nat} (h : sc.may (.fault .send)) (he : e ∈ st.queue) :
    Move sc st (st.attempt i e true)
  | misplace {i e : Nat} (h : sc.may (.fault .attach)) (he : e ∈ st.queue) (hi : i ∈ st.pool)
    (hv : st.vacant i = true) : Move sc st (st.place i e)
  | place {i e : Nat} {q : List Nat} (hq : st.queue = e :: q) (hi : i ∈ st.pool)
    (hv : st.vacant i = true) : Move sc st (({ st with queue := q } : Engine).place i e)
  | drop {e : Nat} {q : List Nat} {w : List (Nat × Msg)} (hq : st.queue = e :: q)
    (hw : w = st.wire ∨ w = (e, .error) :: st.wire) :
    Move sc st { st with queue := q, expired := e :: st.expired, wire := w }
  | arrive {ev : Event} : Move sc st (st.arrive ev)
  | accept {ev : Event} (h : sc.may .accept) (hf : st.queueIsFull = false) :
    Move sc st (st.arrive ev).push
  | reject (h : sc.may .reject) : Move sc st { st with rejected := st.rejected + 1 }
  /-- The engine is stopped. -/
  | refuse : Move sc st { st with arrived := st.arrived + 1 }
  | reply {e : Nat} (h : sc.may .reply) : Move sc st (st.emit e .error)
  | spawn (h : st.pool.length < st.profile.poolLimit) : Move sc st st.spawn
  | doSeal {i : Nat} {lost : Bool} (h : sc.may .sealing) (hi : i ∈ st.pool)
    (hl : lost = true → sc.may .lose) : Move sc st (st.perform i (.doSeal lost))
  | activate {i : Nat} {throws : Bool} (h : sc.may .wake) (hi : i ∈ st.pool) :
    Move sc st (st.perform i (.activate throws))
  | slave {i : Nat} {a : Slave.Act} (hi : i < st.born) (hx : a.external = true)
    (he : (st.machine i).enabled a = true) (hs : sc.slave (st.machine i) a) :
    Move sc st (st.perform i a)
  | revoked {i : Nat} (h : sc.may .take) (he : (st.machine i).enabled .runRebalance = true) :
    Move sc st (st.perform i .runRebalance)
  | cleanup {i : Nat} {ec : ErrorCode} (h : sc.may .leave)
    (he : (st.machine i).enabled (.runCleanup ec) = true) :
    Move sc st (st.perform i (.runCleanup ec))
  /-- `slave_t::terminate` after the callback was invoked. -/
  | condemn {i : Nat} {ec : ErrorCode} (h : sc.may .leave) (hl : .cleanup ec ∈ (st.machine i).log) :
    Move sc st { st with workers := Function.update st.workers i { st.workers i with ec := ec } }
  | erase {i : Nat} {lost : List Nat} (h : sc.may .leave) (hi : i ∈ st.pool) :
    Move sc st (st.eraseSlave i lost)
  | rehash {pool : List Nat} (h : pool.Perm st.pool) : Move sc st { st with pool := pool }
  | subtract : Move sc st { st with
      subs := (u64 (st.pool.length * st.profile.concurrency), st.poolPressure) :: st.subs }
  | take {j : Job} (h : j = .rebalanceEvents → sc.may .take) :
    Move sc st { st with posted := st.posted.erase j }
  | post {j : Job} : Move sc st (st.post j)
  | publish {b : Bool} (h : sc.may .publish) : Move sc st { st with published := b }
  | stop (h : sc.may .stop) : Move sc st { st with stopped := true }
  | tune {target : Nat} {backoff : Bool} (h : sc.may .tune) :
    Move sc st { st with poolTarget := target, backoff := backoff }
  /-- What only the backoff and the statistics read. -/
  | rest {waits timeout crashed : Nat} {failedAt : Int} {failed : Bool} :
    Move sc st { st with
      waits := waits, lastTimeout := timeout, crashed := crashed, lastFailed := failedAt,
      failed := failed }

def Moves (sc : Scope) : Engine → Engine → Prop := Relation.ReflTransGen (Move sc)

namespace Moves

variable {sc : Scope} {st st' st'' : Engine}

theorem refl : Moves sc st st := Relation.ReflTransGen.refl

theorem trans (h : Moves sc st st') (h' : Moves sc st' st'') : Moves sc st st'' :=
  Relation.ReflTransGen.trans h h'

theorem of_flows (h : Flows sc st st') : Moves sc st st' := by
  induction h with
  | refl => exact .refl
  | tail _ h ih => exact ih.tail (.flow h)

/-- What every move keeps, a handler keeps. -/
theorem induct {P : Engine → Prop} (h : Moves sc st st') (h0 : P st)
    (hm : ∀ {st st'}, P st → Move sc st st' → P st') : P st' := by
  induction h with
  | refl => exact h0
  | tail _ h ih => exact hm ih h

end Moves

theorem Move.moves {sc : Scope} {st st' : Engine} (h : Move sc st st') : Moves sc st st' := .single h

variable {sc : Scope} {st : Engine}

/-! ## Balancing -/

variable {i : Nat}

theorem vacant_iff :
    st.vacant i = true ↔ st.active i = true ∧ st.load i < st.profile.concurrency := by
  simp [vacant]

theorem selectSlave_mem {filter : Nat → Bool} (h : st.selectSlave filter = some i) :
    i ∈ st.pool ∧ filter i = true :=
  List.mem_filter.mp (List.argmin_mem h)

theorem selectSlave_none {filter : Nat → Bool} (h : st.selectSlave filter = none)
    (hi : i ∈ st.pool) : filter i = false := by
  have := List.filter_eq_nil_iff.mp (List.argmin_eq_none.mp h) i hi
  simpa using this

/-- An assignment that threw leaves the queue alone; else the request leaves it. -/
theorem assign_moves {env : Attempt} {i e : Nat} {q : List Nat} (hq : st.queue = e :: q)
    (hi : i ∈ st.pool) (hv : st.vacant i = true) (henv : sc.allows env) :
    Moves sc st (if (st.assign i e env).2 then (st.assign i e env).1
      else { (st.assign i e env).1 with queue := q }) := by
  have he : e ∈ st.queue := by rw [hq]; exact List.mem_cons_self
  have ha : st.active i = true := (vacant_iff.mp hv).1
  have hin : Moves sc st (if (st.inject i e env).2 then (st.inject i e env).1
      else { (st.inject i e env).1 with queue := q }) := by
    rcases inject_cases ha henv.2 e with ⟨hf, hp⟩ | ⟨hf, hp⟩ | ⟨hfl, ht⟩
    · rw [hp]
      exact Move.attempt.moves
    · rw [hp]
      exact (Move.leak (henv.1 _ hf) he).moves
    · split
      · rename_i ht'
        exact (Move.misplace (henv.1 _ (ht.mp ht')) he hi hv).moves.trans (.of_flows hfl)
      · exact (Move.place hq hi hv).moves.trans (.of_flows (hfl.setQueue q))
  have hdrop : Moves sc st { st.dropEvent e env.mute with queue := q } := by
    unfold dropEvent
    split
    · exact (Move.drop hq (.inl rfl)).moves
    · exact (Move.drop hq (.inr rfl)).moves
  unfold assign
  dsimp only
  split
  · exact hdrop
  · split
    · split
      · exact hdrop
      · exact hin
    · exact hin

theorem rebalanceLoop_moves {env : Nat → Attempt} (q : List Nat) (hq : st.queue = q)
    (henv : ∀ e ∈ q, sc.allows (env e)) : Moves sc st (rebalanceLoop env st q) := by
  induction q generalizing st with
  | nil => exact .refl
  | cons e q ih =>
    unfold rebalanceLoop
    split
    · exact .refl
    · rename_i i hsel
      obtain ⟨hi, hv⟩ := selectSlave_mem hsel
      have h := assign_moves hq hi hv (henv e List.mem_cons_self)
      dsimp only
      split
      · rename_i ht
        rw [if_pos ht] at h
        exact h.trans Move.post.moves
      · rename_i ht
        rw [if_neg ht] at h
        exact h.trans (ih rfl fun e' he' => henv e' (List.mem_cons_of_mem e he'))

theorem rebalanceEvents_moves {env : Nat → Attempt} (henv : ∀ e ∈ st.queue, sc.allows (env e)) :
    Moves sc st (st.rebalanceEvents env) := by
  unfold rebalanceEvents
  split
  · exact .refl
  · exact rebalanceLoop_moves st.queue rfl henv

theorem spawnLoop_moves (n : Nat) (fails : Option Nat) : Moves sc st (spawnLoop n fails st).1 := by
  induction n generalizing st fails with
  | zero => exact .refl
  | succ n ih =>
    unfold spawnLoop
    split
    · exact .refl
    · rename_i h
      refine (Move.spawn ?_).moves.trans (ih _)
      simp only [Bool.or_eq_true, decide_eq_true_eq, not_or] at h
      omega

theorem sealLoop_moves {lost : List Nat} (hs : sc.may .sealing) (hl : sc.bears lost) (n : Nat) :
    Moves sc st (sealLoop lost n st) := by
  induction n generalizing st with
  | zero => exact .refl
  | succ n ih =>
    unfold sealLoop
    split
    · exact .refl
    · rename_i i hsel
      exact (Move.doSeal hs (selectSlave_mem hsel).1 hl.may).moves.trans ih

theorem afterTarget_moves : Moves sc st st.afterTarget := by
  unfold afterTarget
  split
  · exact Move.rest.moves
  · split
    · exact Move.subtract.moves
    · exact .refl

theorem rebalanceSlaves_moves {env : Supply} (hs : sc.may .sealing) (hl : sc.bears env.lost) :
    Moves sc st (st.rebalanceSlaves env).1 := by
  unfold rebalanceSlaves
  split
  · exact .refl
  · refine afterTarget_moves.trans ?_
    dsimp only
    split
    · exact .refl
    · split
      · split
        · exact sealLoop_moves hs hl _
        · exact spawnLoop_moves _ _
      · split
        · exact .refl
        · exact spawnLoop_moves _ _

/-! ## Requests -/

/-- Only an admission makes the queue longer. -/
theorem Moves.queue_subset {st' : Engine} (h : Moves { may := (· ≠ .accept) } st st') :
    st'.queue ⊆ st.queue := by
  refine h.induct (P := fun st' => st'.queue ⊆ st.queue) (List.Subset.refl _) ?_
  intro st₁ st₂ ih hm
  refine List.Subset.trans ?_ ih
  cases hm with
  | flow h => cases h <;> exact List.Subset.refl _
  | place hq | drop hq => exact hq ▸ List.subset_cons_self _ _
  | accept h => exact absurd rfl h
  | _ => exact List.Subset.refl _

theorem reject_moves {env : Arrival} (hr : sc.may .reject) (hs : sc.may .sealing)
    (hl : sc.bears env.slaves'.lost) (henv : ∀ e ∈ st.queue, sc.allows (env.events' e)) :
    Moves sc st (st.reject env) := by
  have h : Moves sc st { st with rejected := st.rejected + 1 } := (Move.reject hr).moves
  exact (h.trans (rebalanceEvents_moves henv)).trans (rebalanceSlaves_moves hs hl)

/-- The requests that `enqueue` may try to assign. -/
def Scope.admits (sc : Scope) (st : Engine) (env : Arrival) : Prop :=
  ∀ e, e ∈ st.queue ∨ e = st.arrived → sc.allows (env.events e) ∧ sc.allows (env.events' e)

theorem enqueue_moves {env : Arrival} (ha : sc.may .accept) (hr : sc.may .reject)
    (hs : sc.may .sealing) (hl : sc.bears env.slaves.lost) (hl' : sc.bears env.slaves'.lost)
    (henv : sc.admits st env) : Moves sc st (st.enqueue env).1 := by
  unfold enqueue
  dsimp only
  split
  · exact Move.arrive.moves.trans (reject_moves hr hs hl' fun e he => (henv e (.inl he)).2)
  · rename_i hf
    have hq : ∀ e ∈ (st.arrive env.event).push.queue, e ∈ st.queue ∨ e = st.arrived := by
      simp [push, arrive]
    have h₁ : Moves sc st (st.arrive env.event).push := (Move.accept ha (by simpa using hf)).moves
    have h₂ := h₁.trans (rebalanceEvents_moves fun e he => (henv e (hq e he)).1)
    have h₃ := h₂.trans (rebalanceSlaves_moves hs hl)
    split
    · refine h₃.trans (reject_moves hr hs hl' fun e he => (henv e (hq e ?_)).2)
      have hsub : Moves { may := (· ≠ .accept) } (st.arrive env.event).push
          (((st.arrive env.event).push.rebalanceEvents env.events).rebalanceSlaves env.slaves).1 :=
        .trans (rebalanceEvents_moves fun _ _ => ⟨by simp, by simp [Scope.bears]⟩)
          (rebalanceSlaves_moves (by simp) (by simp [Scope.bears]))
      exact hsub.queue_subset he
    · exact h₃

theorem onEnqueue_moves {env : Arrival} (ha : sc.may .accept) (hj : sc.may .reject)
    (hr : sc.may .reply) (hs : sc.may .sealing) (hl : sc.bears env.slaves.lost)
    (hl' : sc.bears env.slaves'.lost) (henv : sc.admits st env) (system mute : Bool) :
    Moves sc st (st.onEnqueue env system mute) := by
  unfold onEnqueue
  split
  · split
    · exact Move.refuse.moves
    · exact Move.refuse.moves.trans (Move.reply hr).moves
  · have h := enqueue_moves ha hj hs hl hl' henv
    dsimp only
    split
    · exact h.trans (Move.reply hr).moves
    · exact h

/-! ## Slaves come and go -/

theorem maybePublish_moves (hp : sc.may .publish) : Moves sc st st.maybePublish := by
  unfold maybePublish
  split
  · exact (Move.publish hp).moves
  · exact .refl

theorem maybeUnpublish_moves (hp : sc.may .publish) : Moves sc st st.maybeUnpublish := by
  unfold maybeUnpublish
  split
  · exact (Move.publish hp).moves
  · exact .refl

theorem onHandshake_moves (hw : sc.may .wake) (hp : sc.may .publish) (i : Nat) (throws : Bool) :
    Moves sc st (st.onHandshake i throws) := by
  unfold onHandshake
  split
  · rename_i hi
    have h : Moves sc st (st.perform i (.activate throws)) := (Move.activate hw hi).moves
    refine h.trans ?_
    dsimp only
    split
    · exact Move.post.moves.trans (maybePublish_moves hp)
    · exact .refl
  · exact .refl

theorem startBackoff_moves (ht : sc.may .tune) (now₁ now₂ : Int) :
    Moves sc st (st.startBackoff now₁ now₂) := by
  have h : Moves sc st { st with poolTarget := st.poolTarget, backoff := true } :=
    (Move.tune ht).moves
  unfold startBackoff
  split
  · exact Move.rest.moves
  · exact h.trans Move.rest.moves

theorem machine_startBackoff (now₁ now₂ : Int) :
    (st.startBackoff now₁ now₂).machine = st.machine := by
  unfold startBackoff
  split <;> rfl

theorem removeSlave_moves {ec : ErrorCode} (hl : sc.may .leave)
    (hlog : .cleanup ec ∈ (st.machine i).log) (lost : List Nat) :
    Moves sc st (st.removeSlave i ec lost) := by
  unfold removeSlave
  split
  · rename_i hi
    have h : Moves sc st
        { st with workers := Function.update st.workers i { st.workers i with ec := ec } } :=
      (Move.condemn hl hlog).moves
    refine h.trans (Move.erase hl ?_).moves
    exact hi
  · exact .refl

/-- `on_slave_death` until the application is unpublished. -/
theorem death_moves {ec : ErrorCode} (hl : sc.may .leave) (ht : sc.may .tune)
    (he : (st.machine i).enabled (.runCleanup ec) = true) (now₁ now₂ : Int) (lost : List Nat) :
    Moves sc st ((if ec.failed then (st.perform i (.runCleanup ec)).startBackoff now₁ now₂
      else st.perform i (.runCleanup ec)).removeSlave i ec lost) := by
  have hlog : Obs.cleanup ec ∈ ((st.perform i (.runCleanup ec)).machine i).log := by
    simp [machine, perform, setMachine, Machine.effect]
  refine (Move.cleanup hl he).moves.trans ?_
  split
  · refine (startBackoff_moves ht now₁ now₂).trans (removeSlave_moves hl ?_ lost)
    rw [machine_startBackoff]
    exact hlog
  · exact removeSlave_moves hl hlog lost

theorem despawnGraceful_moves {lost : List Nat} (hs : sc.may .sealing) (hl : sc.bears lost)
    (i : Nat) : Moves sc st (st.despawnGraceful i lost) := by
  unfold despawnGraceful
  split
  · rename_i hi
    exact (Move.doSeal hs hi hl.may).moves
  · exact .refl

theorem despawnForce_moves (hl : sc.may .leave) (hp : sc.may .publish) (i : Nat) (lost : List Nat) :
    Moves sc st (st.despawnForce i lost) := by
  unfold despawnForce
  split
  · rename_i hi
    exact ((Move.erase hl hi).moves.trans Move.post.moves).trans (maybeUnpublish_moves hp)
  · exact .refl

theorem eraseSlaves_moves (hl : sc.may .leave) (lost : List Nat) (pool : List Nat)
    (hp : st.pool = pool) : Moves sc st (pool.foldl (fun st i => st.eraseSlave i lost) st) := by
  induction pool generalizing st with
  | nil => exact .refl
  | cons i pool ih =>
    refine (Move.erase hl (hp ▸ List.mem_cons_self)).moves.trans (ih ?_)
    simp [eraseSlave, perform, setMachine, hp]

theorem controlPopulation_of_stopped (hs : st.stopped = true) (count : Int) (env : Supply) :
    st.controlPopulation count env = { st with poolTarget := count.toNat } := by
  simp [controlPopulation, rebalanceSlaves, hs]

theorem stop_moves (hs : sc.may .stop) (hl : sc.may .leave) (hp : sc.may .publish)
    (ht : sc.may .tune) (lost : List Nat) : Moves sc st (st.stop lost) := by
  have h₁ : Moves sc st { st with published := false, stopped := true, poolTarget := 0 } :=
    ((Move.publish hp).moves.trans (Move.stop hs).moves).trans (Move.tune ht).moves
  unfold stop
  rw [controlPopulation_of_stopped rfl]
  exact (h₁.trans (eraseSlaves_moves hl lost _ rfl)).trans (Move.tune ht).moves

/-! ## Steps -/

/-- The step keeps to the scope. -/
def Scope.covers (sc : Scope) (st : Engine) : Act → Prop
  | .enqueue env _ _ =>
    sc.may .accept ∧ sc.may .reject ∧ sc.may .reply ∧ sc.may .sealing ∧ sc.bears env.slaves.lost ∧
      sc.bears env.slaves'.lost ∧ sc.admits st env
  | .rebalanceEvents env | .revoked _ env => sc.may .take ∧ ∀ e ∈ st.queue, sc.allows (env e)
  | .rebalanceSlaves env => sc.may .sealing ∧ sc.bears env.lost
  | .controlPopulation _ env | .spawnRateTimeout env =>
    sc.may .tune ∧ sc.may .sealing ∧ sc.bears env.lost
  | .handshake _ _ => sc.may .wake ∧ sc.may .publish
  | .cleanup _ _ _ _ _ => sc.may .leave ∧ sc.may .tune ∧ sc.may .publish
  | .despawnForce _ _ => sc.may .leave ∧ sc.may .publish
  | .despawnGraceful _ lost => sc.may .sealing ∧ sc.bears lost
  | .slave i a => sc.slave (st.machine i) a
  | .workerFrame _ _ _ _ lost | .workerDiscard _ _ _ _ lost | .clientEnd _ lost
  | .clientDiscard _ _ lost | .requestTimeout _ _ _ lost => sc.bears lost
  | .stop _ => sc.may .stop ∧ sc.may .leave ∧ sc.may .publish ∧ sc.may .tune
  | .rehash _ => True

theorem effect_moves {a : Act} (he : st.enabled a = true) (hc : sc.covers st a) :
    Moves sc st (st.effect a) := by
  cases a with
  | enqueue env system mute =>
    obtain ⟨ha, hj, hr, hs, hl, hl', henv⟩ := hc
    exact onEnqueue_moves ha hj hr hs hl hl' henv system mute
  | rebalanceEvents env =>
    exact (Move.take fun _ => hc.1).moves.trans (rebalanceEvents_moves hc.2)
  | revoked i env =>
    have he' : (st.machine i).enabled .runRebalance = true := by simp_all [enabled]
    exact (Move.revoked hc.1 he').moves.trans (rebalanceEvents_moves hc.2)
  | rebalanceSlaves env =>
    exact (Move.take (by simp)).moves.trans (rebalanceSlaves_moves hc.1 hc.2)
  | controlPopulation count env =>
    exact (Move.tune hc.1).moves.trans (rebalanceSlaves_moves hc.2.1 hc.2.2)
  | spawnRateTimeout env =>
    have h : Moves sc st { st with poolTarget := st.poolTarget, backoff := false } :=
      (Move.tune hc.1).moves
    exact (h.trans Move.rest.moves).trans (rebalanceSlaves_moves hc.2.1 hc.2.2)
  | handshake i throws => exact onHandshake_moves hc.1 hc.2 i throws
  | cleanup i ec now₁ now₂ lost =>
    have he' : (st.machine i).enabled (.runCleanup ec) = true := by simp_all [enabled]
    exact ((death_moves hc.1 hc.2.1 he' now₁ now₂ lost).trans
      (maybeUnpublish_moves hc.2.2)).trans Move.post.moves
  | despawnGraceful i lost => exact despawnGraceful_moves hc.1 hc.2 i
  | despawnForce i lost => exact despawnForce_moves hc.1 hc.2 i lost
  | slave i a =>
    simp only [enabled, Bool.and_eq_true, decide_eq_true_eq] at he
    exact (Move.slave he.1.1 he.1.2 he.2 hc).moves
  | workerFrame i c msg throws lost =>
    exact .of_flows (workerFrame_flows hc (by simp_all [enabled]) msg throws)
  | workerDiscard i c ec throws lost =>
    exact .of_flows (workerDiscard_flows hc (by simp_all [enabled]) ec throws)
  | clientEnd e lost => exact .of_flows (clientFinalize_flows hc e)
  | clientDiscard e ec lost => exact .of_flows (clientDiscard_flows hc e ec)
  | requestTimeout i c throws lost =>
    have hf : (st.dispatches i c).forked = true := by simp_all [enabled]
    have hq : Flow sc st (st.perform i (.completeRequest c)) :=
      .slave rfl (by simp_all [enabled]) (by simp [Act.loses])
    refine .of_flows (hq.flows.trans (channelTimeout_flows hc ?_ throws))
    exact hf
  | stop lost => exact stop_moves hc.1 hc.2.1 hc.2.2.1 hc.2.2.2 lost
  | rehash pool => exact (Move.rehash (by simpa [enabled] using he)).moves

/-- What the environment decides for each assignment that the step may try meets `p`. -/
def attempts (st : Engine) (p : Attempt → Bool) : Act → Bool
  | .enqueue env _ _ =>
    (st.arrived :: st.queue).all fun e => p (env.events e) && p (env.events' e)
  | .rebalanceEvents env | .revoked _ env => st.queue.all fun e => p (env e)
  | _ => true

/-- A scope that leaves out nothing but faults. -/
theorem Scope.covers_of_attempts {p : Attempt → Bool} (hm : ∀ t, (∀ f, t ≠ .fault f) → sc.may t)
    (hs : ∀ m a, sc.slave m a) (hp : ∀ env f, p env = true → env.fault = some f → sc.may (.fault f))
    {a : Act} (h : st.attempts p a = true) : sc.covers st a := by
  have hb : ∀ lost, sc.bears lost := fun lost _ => hm _ (by simp)
  have ha : ∀ env, p env = true → sc.allows env := fun env he => ⟨fun f => hp env f he, hb _⟩
  cases a with
  | enqueue env system mute =>
    simp only [attempts, List.all_eq_true, Bool.and_eq_true] at h
    refine ⟨hm _ (by simp), hm _ (by simp), hm _ (by simp), hm _ (by simp), hb _, hb _,
      fun e he => ?_⟩
    obtain ⟨h₁, h₂⟩ := h e (List.mem_cons.mpr he.symm)
    exact ⟨ha _ h₁, ha _ h₂⟩
  | rebalanceEvents env | revoked i env =>
    exact ⟨hm _ (by simp), fun e he => ha _ (List.all_eq_true.mp h e he)⟩
  | rebalanceSlaves | despawnGraceful => exact ⟨hm _ (by simp), hb _⟩
  | controlPopulation | spawnRateTimeout => exact ⟨hm _ (by simp), hm _ (by simp), hb _⟩
  | handshake | despawnForce => exact ⟨hm _ (by simp), hm _ (by simp)⟩
  | cleanup => exact ⟨hm _ (by simp), hm _ (by simp), hm _ (by simp)⟩
  | slave i a => exact hs _ _
  | workerFrame | workerDiscard | clientEnd | clientDiscard | requestTimeout => exact hb _
  | stop => exact ⟨hm _ (by simp), hm _ (by simp), hm _ (by simp), hm _ (by simp)⟩
  | rehash => trivial

theorem Move.profile {st' : Engine} (h : Move sc st st') : st'.profile = st.profile := by
  cases h with
  | flow h => cases h <;> rfl
  | _ => rfl

/-- What holds of a new engine and is kept by the moves of a scope holds in every
run whose steps keep to it. -/
theorem reachable_induct {ok : Engine → Act → Prop} {P : Engine → Prop}
    (hr : engineSystem.Reachable ok st) (hc : ∀ {st a}, ok st a → sc.covers st a)
    (h0 : ∀ {p : Profile}, p.Accepted → P (start p))
    (hm : ∀ {st st'}, P st → Move sc st st' → P st') : P st := by
  refine hr.induct ?_ ?_
  · rintro _ ⟨p, hp, rfl⟩
    exact h0 hp
  · intro st a st' h ha hs
    obtain ⟨-, he, rfl⟩ := step_eq_some.mp hs
    exact (effect_moves he (hc ha)).induct h hm

end Cocaine.Node.Engine
