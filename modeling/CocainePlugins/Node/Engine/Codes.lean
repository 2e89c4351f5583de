import CocainePlugins.Node.Slave.Codes
import CocainePlugins.Node.Engine.Pool

/-!
# Every termination has a reason

The engine terminates a slave with the code that its cleanup callback got, or
with `overseer_shutdowning` (`slave_t::ec`). So the assertions on the codes hold
as long as the callback gets an error (`Reasoned`), which every move keeps
unless a slave mutes its callback: by a shutdown with an empty code or in the
terminating state, or because the terminate message that a sealed slave should
get is lost. A worker that leaves after it was asked to is the common case.
-/

namespace Cocaine.Node.Engine

open Framework Slave

/-- No terminate message to a slave that is being sealed is lost, and no handler
of a slave mutes its callback. -/
def reasoned : Scope where
  may := (· ≠ .lose)
  slave m a := m.mutes a = false

structure Reasoned (st : Engine) : Prop where
  machines : ∀ i, Coded (st.machine i) ∧ Ordered (st.machine i)
  ec : ∀ i, (st.workers i).ec.failed = true

section Moves

variable {st st' : Engine}

theorem mutes_of_handles {i : Nat} {m : Machine} {a : Slave.Act}
    (h : reasoned.handles st i m a) : m.mutes a = false := by
  have hlose : ∀ {lost : Bool}, (lost = true → reasoned.may .lose) → lost = false := by
    intro lost hl
    by_contra ht
    exact hl (by simpa using ht) rfl
  cases a with
  | doSeal lost => rw [Machine.mutes, hlose h.2, Bool.false_and]
  | watch c lost | closeSend c lost | closeRecv c lost | closeBoth c lost =>
    rcases h with ⟨-, hl⟩ | ⟨-, hs⟩
    · rw [Machine.mutes, show lost = false from hlose hl, Bool.false_and]
    · exact hs
  | exited | runShutdown | suicide | discard | heartbeatTimeout | timeout | runCloseBoth =>
    rcases h with ⟨hq, -⟩ | ⟨-, hs⟩
    · cases hq
    · exact hs
  | _ => rfl

theorem ec_perform (i j : Nat) (a : Slave.Act) :
    ((st.perform i a).workers j).ec = (st.workers j).ec := by
  simp only [perform, setMachine, Function.update_apply]
  split
  · rename_i h
    rw [h]
  · rfl

theorem ec_place (i e j : Nat) : ((st.place i e).workers j).ec = (st.workers j).ec := by
  have h : (st.place i e).workers j =
      ((st.attempt i e true).perform i (.register ((st.machine i).counter + 1))).workers j := rfl
  rw [h, ec_perform]
  exact ec_perform i j .newChannel

/-- The code of a slave is that of its callback, once this was invoked. -/
theorem Move.ec (hm : Move reasoned st st') (h : Reasoned st) (j : Nat) :
    (st'.workers j).ec.failed = true := by
  have hp : ∀ {i a}, ((st.perform i a).workers j).ec.failed = true := by
    intro i a
    rw [ec_perform]
    exact h.ec j
  cases hm with
  | flow hf =>
    cases hf with
    | slave => exact hp
    | _ => exact h.ec j
  | attempt | leak => exact hp (a := .newChannel)
  | misplace | place =>
    rw [ec_place]
    exact h.ec j
  | doSeal | activate | slave | revoked | cleanup => exact hp
  | erase => exact hp (a := .terminate _ _)
  | @condemn i ec _ hl =>
    simp only [Function.update_apply]
    split
    · exact (h.machines i).1.called _ hl ec rfl
    · exact h.ec j
  | spawn =>
    simp only [Engine.spawn, Function.update_apply]
    split
    · exact SlaveErrors.failed_code _
    · exact h.ec j
  | _ => exact h.ec j

theorem Reasoned.move (h : Reasoned st) (hm : Move reasoned st st') : Reasoned st' := by
  refine ⟨fun j => ?_, hm.ec h⟩
  refine hm.each (P := fun _ m => Coded m ∧ Ordered m) ⟨Coded.init, Ordered.init⟩ ?_ h.machines j
  intro i m a ih he ha
  obtain ⟨hc, ho⟩ := ih
  refine ⟨hc.effect ho he (mutes_of_handles ha) ?_, ho.effect he⟩
  rintro ec lost rfl
  rw [ha.2]
  exact h.ec i

theorem Reasoned.start (p : Profile) : Reasoned (start p) := by
  unfold Engine.start maybePublish
  split <;> exact ⟨fun _ => ⟨Coded.init, Ordered.init⟩, fun _ => SlaveErrors.failed_code _⟩

end Moves

/-! ## Runs -/

/-- No slave loses its terminate message in a step that may seal it or close its
channels. -/
def delivers (st : Engine) (a : Act) : Bool :=
  st.attempts (fun env => env.lost.isEmpty) a &&
    match a with
    | .enqueue env _ _ => env.slaves.lost.isEmpty && env.slaves'.lost.isEmpty
    | .rebalanceSlaves env | .controlPopulation _ env | .spawnRateTimeout env => env.lost.isEmpty
    | .despawnGraceful _ lost | .workerFrame _ _ _ _ lost | .workerDiscard _ _ _ _ lost
    | .clientEnd _ lost | .clientDiscard _ _ lost | .requestTimeout _ _ _ lost => lost.isEmpty
    | _ => true

/-- The step is a handler of a slave that mutes the slave's callback. -/
def mutes (st : Engine) : Act → Bool
  | .slave i a => (st.machine i).mutes a
  | _ => false

def Spoken (st : Engine) (a : Act) : Prop := (st.delivers a && !st.mutes a) = true

instance (st : Engine) (a : Act) : Decidable (Spoken st a) := inferInstanceAs (Decidable (_ = _))

theorem reasoned_covers {st : Engine} {a : Act} (h : Spoken st a) : reasoned.covers st a := by
  have hb : ∀ {lost : List Nat}, lost.isEmpty = true → reasoned.bears lost :=
    fun hl hne => absurd (List.isEmpty_iff.mp hl) hne
  have hallow : ∀ {env : Attempt}, env.lost.isEmpty = true → reasoned.allows env :=
    fun hl => ⟨by simp [reasoned], hb hl⟩
  simp only [Spoken, delivers, Bool.and_eq_true, Bool.not_eq_true'] at h
  obtain ⟨⟨hat, hl⟩, hm⟩ := h
  cases a with
  | enqueue env system mute =>
    simp only [attempts, List.all_eq_true, Bool.and_eq_true] at hat hl
    refine ⟨by simp [reasoned], by simp [reasoned], by simp [reasoned], by simp [reasoned],
      hb hl.1, hb hl.2, fun e he => ?_⟩
    obtain ⟨h₁, h₂⟩ := hat e (List.mem_cons.mpr he.symm)
    exact ⟨hallow h₁, hallow h₂⟩
  | rebalanceEvents env | revoked i env =>
    exact ⟨by simp [reasoned], fun e he => hallow (List.all_eq_true.mp hat e he)⟩
  | rebalanceSlaves | despawnGraceful => exact ⟨by simp [reasoned], hb hl⟩
  | controlPopulation | spawnRateTimeout =>
    exact ⟨by simp [reasoned], by simp [reasoned], hb hl⟩
  | workerFrame | workerDiscard | clientEnd | clientDiscard | requestTimeout => exact hb hl
  | slave i a => exact hm
  | _ => simp [Scope.covers, reasoned]

/-- In every run in which no terminate message to a slave that is being sealed is
lost, and no slave that is not closed yet is shut down with an empty code or in
the terminating state: every call of `machine_t::terminate` and of
`control_t::terminate` gets an error. -/
theorem termination_reason {st : Engine} (hr : engineSystem.Reachable Spoken st) (i : Nat)
    (ec : ErrorCode)
    (h : .terminate ec ∈ (st.machine i).log ∨ .controlTerminate ec ∈ (st.machine i).log) :
    ec.failed = true := by
  have hst : Reasoned st :=
    reachable_induct hr reasoned_covers (fun _ => Reasoned.start _) Reasoned.move
  have hc := (hst.machines i).1.called
  rcases h with h | h
  · exact hc _ h ec rfl
  · exact hc _ h ec rfl

/-- One worker is sealed while it is idle and then despawned by force; another one
dies. -/
theorem termination_reason_sealed : ∃ st, engineSystem.Reachable Spoken st ∧
    (.controlTerminate SlaveErrors.slaveIsSealing.code ∈ (st.machine 0).log ∧
      SlaveErrors.slaveIsSealing.code.failed = true) ∧
    .terminate ⟨9, .system⟩ ∈ (st.machine 1).log ∧ (⟨9, .system⟩ : ErrorCode).failed = true := by
  obtain ⟨st, hr, h0, h1⟩ := engineSystem.exists_reachable Spoken
    (P := fun st => .controlTerminate SlaveErrors.slaveIsSealing.code ∈ (st.machine 0).log ∧
      .terminate ⟨9, .system⟩ ∈ (st.machine 1).log) (s := Engine.start {})
    [.controlPopulation 2 {}, .slave 0 (.prepare false), .slave 0 (.token {}),
      .slave 0 (.refresh {} .spawned), .slave 0 (.ready 1 false), .handshake 0 false,
      .despawnGraceful 0 [], .despawnForce 0 [], .slave 1 (.prepare false), .slave 1 (.token {}),
      .slave 1 (.refresh {} .spawned), .slave 1 (.exited 1 ⟨9, .system⟩),
      .cleanup 1 ⟨9, .system⟩ 0 0 []]
    ⟨_, by decide, rfl⟩ (by decide +kernel)
  exact ⟨st, hr, ⟨h0, termination_reason hr 0 _ (.inr h0)⟩, h1, termination_reason hr 1 _ (.inl h1)⟩

/-- A worker is sealed gracefully while it is idle and leaves as it was asked to;
its callback gets an empty code, with which the engine terminates the slave. And:
the isolate reports the end of a worker without an error. -/
theorem termination_without_reason :
    (∃ st, engineSystem.Reachable System.Any st ∧ .terminate .success ∈ (st.machine 0).log) ∧
    ∃ st, engineSystem.Reachable System.Any st ∧
      (st.machine 0).log = [.terminated, .terminate .success, .cleanup .success] := by
  constructor
  · exact engineSystem.exists_reachable System.Any (s := Engine.start {})
      [.enqueue {} false false, .slave 0 (.prepare false), .slave 0 (.token {}),
        .slave 0 (.refresh {} .spawned), .slave 0 (.ready 1 false), .handshake 0 false,
        .rebalanceEvents fun _ => {}, .workerFrame 0 2 .choke false [], .clientEnd 0 [],
        .despawnGraceful 0 [], .slave 0 (.suicide 0), .cleanup 0 .success 0 0 []]
      ⟨_, by decide, rfl⟩ (by decide +kernel)
  · exact engineSystem.exists_reachable System.Any (s := Engine.start {})
      [.enqueue {} false false, .slave 0 (.prepare false), .slave 0 (.token {}),
        .slave 0 (.refresh {} .spawned), .slave 0 (.exited 1 .success), .cleanup 0 .success 0 0 []]
      ⟨_, by decide, rfl⟩ (by decide +kernel)

end Cocaine.Node.Engine
