import CocainePlugins.Node.Slave.Active
import CocainePlugins.Node.Slave.Evolve

/-!
# The codes a slave is terminated with

`machine_t::terminate` and `control_t::terminate` assert that their code is an
error. The codes the machine gives itself are; the one the engine gives it is
the code of the cleanup callback, so the callback must get an error too
(`Coded`). It does not when `shutdown` is called with an empty code, or in the
terminating state, where `shutdown` clears it: these handlers `mute` the
callback, and all others keep `Coded` (`Coded.effect`).
-/

namespace Cocaine.Node.Slave

open Framework

/-- The code of a call, or of the callback. -/
def Obs.code : Obs → Option ErrorCode
  | .terminate ec | .controlTerminate ec | .cleanup ec => some ec
  | _ => none

structure Coded (m : Machine) : Prop where
  posted : ∀ ec, .cleanup ec ∈ m.posted → ec.failed = true
  called : ∀ o ∈ m.log, ∀ ec, o.code = some ec → ec.failed = true

namespace Machine

variable (m : Machine)

/-- `shutdown` would post the callback. -/
def exposed : Bool := !m.shutdowned && !m.closed

/-- `shutdown` with the code `ec` would post the callback with an empty one. -/
def clears (ec : ErrorCode) : Bool := m.exposed && (m.cur.kind == .terminate || !ec.failed)

/-- The handler shuts the slave down with an empty code for the callback. Those
that may send the terminate message shut it down when the message is lost, and
they have migrated to `terminate_t` by then. -/
def mutes : Act → Bool
  | .exited _ ec | .runShutdown ec => m.clears ec
  | .suicide _ => m.clears SlaveErrors.committedSuicide.code
  | .discard c ec =>
    ec.failed && !(m.controls c).closed && m.clears SlaveErrors.conrolIpcError.code
  | .heartbeatTimeout _ ec => !ec.failed && m.clears SlaveErrors.heartbeatTimeout.code
  | .timeout r ec lost =>
    !ec.failed &&
      match (m.objs r).kind with
      | .spawn => m.clears SlaveErrors.spawnTimeout.code
      | .handshaking => m.clears SlaveErrors.activateTimeout.code
      | .seal => lost && m.exposed
      | .terminate => m.clears SlaveErrors.teminateTimeout.code
      | _ => false
  | .doSeal lost | .runCloseBoth _ lost | .watch _ lost | .closeSend _ lost | .closeRecv _ lost
  | .closeBoth _ lost => lost && m.exposed
  | _ => false

variable {m} {m' : Machine}

theorem exposed_handOver (r : Nat) (k : Kind) : (m.handOver r k).exposed = m.exposed := by
  simp [exposed, handOver]

theorem clears_congr (hs : m'.shutdowned = m.shutdowned) (hc : m'.closed = m.closed)
    (hk : m'.cur.kind = m.cur.kind) (ec : ErrorCode) : m'.clears ec = m.clears ec := by
  rw [clears, clears, exposed, exposed, hs, hc, hk]

theorem clears_of_exposed (h : m.exposed = false) (ec : ErrorCode) : m.clears ec = false := by
  rw [clears, h, Bool.false_and]

theorem clears_of_kind (hk : m.cur.kind ≠ .terminate) {ec : ErrorCode} (he : ec.failed = true) :
    m.clears ec = false := by
  simp [clears, hk, he]

theorem shutdownCode_of_clears {ec : ErrorCode} (hx : m.exposed = true) (hc : m.clears ec = false) :
    (m.shutdownCode ec).failed = true := by
  obtain ⟨hk, he⟩ : m.cur.kind ≠ .terminate ∧ ec.failed = true := by simpa [clears, hx] using hc
  rwa [shutdownCode, if_neg hk]

end Machine

namespace Coded

variable {m m' : Machine} {ec : ErrorCode}

theorem init : Coded {} := ⟨by simp, by simp⟩

theorem congr (h : Coded m) (hp : m'.posted = m.posted) (hl : m'.log = m.log) : Coded m' := by
  refine ⟨?_, ?_⟩
  · rw [hp]
    exact h.posted
  · rw [hl]
    exact h.called

theorem take (h : Coded m) (t : Task) : Coded (m.take t) :=
  ⟨fun ec he => h.posted ec (List.mem_of_mem_erase he), h.called⟩

theorem post (h : Coded m) {t : Task} (ht : t.isCleanup = false) : Coded (m.post t) := by
  refine ⟨fun ec he => ?_, h.called⟩
  rcases List.mem_cons.mp he with rfl | he
  · cases ht
  · exact h.posted ec he

theorem note (h : Coded m) {o : Obs} (ho : ∀ ec, o.code = some ec → ec.failed = true) :
    Coded (m.note o) := by
  refine ⟨h.posted, fun o' ho' => ?_⟩
  rcases List.mem_cons.mp ho' with rfl | ho'
  · exact ho
  · exact h.called o' ho'

/-! ## Shutting down, terminating and sealing -/

theorem shutdown (h : Coded m) (hc : m.clears ec = false) : Coded (m.shutdown ec) := by
  have h₁ : Coded (m.enterInactive (m.shutdownCode ec)).dropChannels := by
    refine ⟨fun e he => h.posted e ?_, h.called⟩
    simpa [Machine.enterInactive] using he
  unfold Machine.shutdown
  split
  · exact h
  · rename_i hs
    dsimp only
    split
    · exact h₁
    · rename_i hcl
      have hx : m.exposed = true := by simp [Machine.exposed, hs, hcl]
      refine ⟨fun e he => ?_, h.called⟩
      rcases List.mem_cons.mp he with he | he
      · cases he
        exact Machine.shutdownCode_of_clears hx hc
      · exact h₁.posted e he

variable {lost : Bool}

theorem controlTerminate (h : Coded m) (c : Option Nat) (he : ec.failed = true)
    (hl : lost = true → m.exposed = false) : Coded (m.controlTerminate c ec lost) := by
  have h₁ : Coded (m.note (.controlTerminate ec)) := h.note (by simp [Obs.code, he])
  unfold Machine.controlTerminate
  split
  · exact h.congr rfl rfl
  · dsimp only
    split
    · rename_i hlost
      refine h₁.shutdown (Machine.clears_of_exposed ?_ _)
      exact hl hlost
    · exact h₁

theorem handOver (h : Coded m) (r : Nat) (k : Kind) : Coded (m.handOver r k) := by
  have h₁ : Coded ((m.setRes r {}).alloc { kind := k, res := (m.objs r).res }) := h.congr rfl rfl
  exact ((h₁.note (by simp [Obs.code])).note (by simp [Obs.code])).congr rfl rfl

theorem terminateStart (h : Coded m) (t : Nat) (he : ec.failed = true)
    (hl : lost = true → m.exposed = false) : Coded (m.terminateStart t ec lost) := by
  have h₁ : Coded (m.setTimer t (m.objs t).timer.start) := h.congr rfl rfl
  exact h₁.controlTerminate _ he hl

theorem activeTerminate (h : Coded m) (r : Nat) (he : ec.failed = true)
    (hl : lost = true → m.exposed = false) : Coded (m.activeTerminate r ec lost) := by
  exact (h.handOver r .terminate).terminateStart _ he fun hlost =>
    (Machine.exposed_handOver r .terminate).trans (hl hlost)

theorem sealTerminate (h : Coded m) (r : Nat) (he : ec.failed = true)
    (hl : lost = true → m.exposed = false) : Coded (m.sealTerminate r ec lost) := by
  have h₁ : Coded (m.cancel r) := h.congr rfl rfl
  exact h₁.activeTerminate r he hl

/-- Of a machine that is closed or was shut down. -/
theorem stateTerminate (h : Coded m) (r : Nat) (he : ec.failed = true) (hx : m.exposed = false)
    (lost : Bool) : Coded (m.stateTerminate r ec lost) := by
  have hc : Coded (m.cancel r) := h.congr rfl rfl
  have hx' : (m.cancel r).exposed = false := hx
  unfold Machine.stateTerminate
  split
  case h_1 => exact h.shutdown (Machine.clears_of_exposed hx ec)
  case h_2 | h_3 | h_4 => exact hc.shutdown (Machine.clears_of_exposed hx' ec)
  case h_5 => exact h.activeTerminate r he fun _ => hx
  case h_6 => exact h.sealTerminate r he fun _ => hx
  case h_7 => exact h

theorem terminate (h : Coded m) (he : ec.failed = true) (lost : Bool) :
    Coded (m.terminate ec lost) := by
  have h₁ : Coded (m.note (.terminate ec)) := h.note (by simp [Obs.code, he])
  have h₂ : Coded { m.note (.terminate ec) with closed := true } := h₁.congr rfl rfl
  unfold Machine.terminate
  dsimp only
  split
  · exact h₁.note (by simp [Obs.code])
  · refine (h₂.stateTerminate m.state he ?_ lost).note (by simp [Obs.code])
    simp [Machine.exposed]

theorem machineSeal (h : Coded m) (hl : lost = true → m.exposed = false) :
    Coded (m.machineSeal lost) := by
  have h₁ : Coded (m.handOver m.state .seal) := h.handOver _ _
  unfold Machine.machineSeal
  split
  · unfold Machine.activeSeal Machine.sealStart
    split
    · exact h₁.sealTerminate _ (SlaveErrors.failed_code _) fun hlost =>
        (Machine.exposed_handOver m.state .seal).trans (hl hlost)
    · exact h₁.congr rfl rfl
  · exact h

/-! ## From the token to the active state -/

theorem onRefresh (h : Coded m) (hk : m.cur.kind ≠ .terminate) (ec : ErrorCode)
    (out : Machine.SpawnOutcome) : Coded (m.onRefresh ec out) := by
  have h₁ : Coded ((m.alloc { kind := .spawn }).migrate m.fresh) := h.congr rfl rfl
  have hk₁ : ((m.alloc { kind := .spawn }).migrate m.fresh).cur.kind ≠ .terminate := by
    simp [Machine.cur]
  unfold Machine.onRefresh
  split
  · rename_i he
    exact h.shutdown (Machine.clears_of_kind hk he)
  · cases out with
    | locatorNotFound => exact h₁.shutdown (Machine.clears_of_kind hk₁ (SlaveErrors.failed_code _))
    | emptyLocatorEndpoints =>
      exact h₁.shutdown (Machine.clears_of_kind hk₁ (SlaveErrors.failed_code _))
    | isolateThrows ec => exact h₁.post rfl
    | spawnThrows ec =>
      refine post ?_ rfl
      exact h₁.congr rfl rfl
    | spawned => exact h₁.congr rfl rfl

theorem handshakingActivate (h : Coded m) (x : Nat) (session control : Option Nat) (throws : Bool) :
    Coded (m.handshakingActivate x session control throws).1 := by
  have h₁ : Coded (m.setRes x {}) := h.congr rfl rfl
  have h₂ : ∀ res, Coded ((m.setRes x {}).note (.built .active res)) :=
    fun res => h₁.note (by simp [Obs.code])
  unfold Machine.handshakingActivate
  dsimp only
  split
  · exact (h₂ _).congr rfl rfl
  · split
    · exact h₂ _
    · exact (h₂ _).congr rfl rfl

/-- The constructor of `active_t` threw: the state is still the old one. -/
theorem kind_handshakingActivate {x : Nat} {session control : Option Nat} {throws : Bool}
    (ht : (m.handshakingActivate x session control throws).2 = true) :
    (m.handshakingActivate x session control throws).1.cur.kind = m.cur.kind := by
  have h₁ : (m.setRes x {}).cur.kind = m.cur.kind := cur_kind_modify x rfl
  unfold Machine.handshakingActivate at ht ⊢
  dsimp only at ht ⊢
  split at ht
  · cases ht
  · split at ht
    · rename_i hth
      rw [if_pos hth]
      exact h₁
    · cases ht

theorem handshakingHandshake (h : Coded m) (hk : m.cur.kind ≠ .terminate) (x : Nat)
    (throws : Bool) : Coded (m.handshakingHandshake x throws).1 := by
  have h₁ : Coded (m.cancel x).newLink := h.congr rfl rfl
  have hk₁ : (m.cancel x).cur.kind = m.cur.kind := cur_kind_modify x rfl
  have h₂ := h₁.handshakingActivate x (some m.links) (some m.links) throws
  unfold Machine.handshakingHandshake
  split
  · exact h.congr rfl rfl
  · dsimp only
    split
    · rename_i ht
      refine h₂.shutdown (Machine.clears_of_kind ?_ (SlaveErrors.failed_code _))
      rw [kind_handshakingActivate ht]
      exact hk₁ ▸ hk
    · exact h₂

theorem activate (h : Coded m) (throws : Bool) : Coded (m.activate throws).1 := by
  unfold Machine.activate
  split
  · rename_i hk
    split
    · exact h.handshakingHandshake (by simp [hk]) _ throws
    · exact h.congr rfl rfl
  · rename_i hk
    exact h.handshakingHandshake (by simp [hk]) _ throws
  · exact h

theorem onReady (h : Coded m) (r : Nat) (throws : Bool) : Coded (m.onReady r throws) := by
  have h₁ : Coded ((m.cancel r).enterHandshaking r) := h.congr rfl rfl
  have h₂ : Coded (((m.cancel r).enterHandshaking r).setRes r {}) := h.congr rfl rfl
  refine congr (m := m.onSpawn r throws) ?_ rfl rfl
  unfold Machine.onSpawn
  split
  · exact h.congr rfl rfl
  · unfold Machine.onSpawned
    dsimp only
    split
    · split
      · exact (h₂.handshakingActivate _ _ _ throws).post rfl
      · exact h₂.handshakingActivate _ _ _ throws
    · split
      · exact h₁.post rfl
      · exact h₁.congr rfl rfl

/-! ## Control and channels -/

theorem destroy (h : Coded m) (r : Nat) : Coded (m.destroy r) := by
  have h₁ : Coded (m.modify r fun o => { o with res := {}, dead := true }) := h.congr rfl rfl
  unfold Machine.destroy
  dsimp only
  split <;> exact h₁.congr rfl rfl

theorem maybeNotify (h : Coded m) (c : Nat) (f : Chan → Chan)
    (hl : lost = true → m.exposed = false) : Coded ((m.setChan c f).maybeNotify c lost) := by
  have h₁ : Coded ((m.setChan c f).dropChannel c) := h.congr rfl rfl
  unfold Machine.maybeNotify Machine.revoke
  dsimp only
  split
  · split
    · rename_i hk
      have hs : (((m.setChan c f).dropChannel c).objs (m.setChan c f).state).kind = .seal := hk.1
      refine post ?_ rfl
      simp only [Machine.stateTerminate, hs]
      exact h₁.sealTerminate _ (SlaveErrors.failed_code _) hl
    · exact h₁.post rfl
  · exact h.congr rfl rfl

/-! ## Steps -/

theorem timeout (h : Coded m) {r : Nat} (he : ec.failed = false)
    (hm : m.mutes (.timeout r ec lost) = false) :
    Coded ((m.setTimer r (m.objs r).timer.complete).onTimeout r lost) := by
  have h₁ : Coded (m.setTimer r (m.objs r).timer.complete) := h.congr rfl rfl
  have hk : ((m.setTimer r (m.objs r).timer.complete).objs r).kind = (m.objs r).kind := by simp
  have hc : ∀ e, (m.setTimer r (m.objs r).timer.complete).clears e = m.clears e :=
    Machine.clears_congr rfl rfl (cur_kind_modify r rfl)
  simp only [Machine.mutes, he, Bool.not_false, Bool.true_and] at hm
  unfold Machine.onTimeout
  rw [hk]
  split
  case h_1 hkr | h_2 hkr | h_4 hkr =>
    rw [hkr] at hm
    exact h₁.shutdown ((hc _).trans hm)
  case h_3 hkr =>
    rw [hkr] at hm
    refine h₁.sealTerminate r (SlaveErrors.failed_code _) fun hl => ?_
    rw [hl] at hm
    exact hm
  case h_5 => exact h₁

/-- A handler that does not mute the callback; the engine terminates the machine
with an error. -/
theorem effect (h : Coded m) (ho : Ordered m) {a : Act} (he : m.enabled a = true)
    (hm : m.mutes a = false) (ht : ∀ ec lost, a = .terminate ec lost → ec.failed = true) :
    Coded (m.effect a) := by
  have hlost : ∀ {lost}, (lost && m.exposed) = false → lost = true → m.exposed = false := by
    rintro _ hm rfl
    exact hm
  -- The preparation is not over, so the worker is not terminating.
  have hprep : m.preparation ≠ .done → m.cur.kind ≠ .terminate := by
    intro hp hk
    have := (ho.prep hp m.state).2
    rw [← Machine.cur, hk] at this
    cases this
  cases a with
  | refresh ec out =>
    have h₁ : Coded { m with preparation := .done } := h.congr rfl rfl
    refine h₁.onRefresh ?_ ec out
    exact hprep (by simp_all [Machine.enabled])
  | abandon =>
    have h₁ : Coded { m with preparation := .done } := h.congr rfl rfl
    refine h₁.shutdown (Machine.clears_of_kind ?_ (SlaveErrors.failed_code _))
    exact hprep (by simp_all [Machine.enabled])
  | ready r throws => exact h.onReady r throws
  | exited r ec =>
    have h₁ : Coded (m.modify r fun o => { o with awaited := false }) := h.congr rfl rfl
    have hk₁ : (m.modify r fun o => { o with awaited := false }).cur.kind = m.cur.kind :=
      cur_kind_modify r rfl
    refine h₁.shutdown (.trans (Machine.clears_congr (m := m) ?_ ?_ hk₁ ec) hm) <;> rfl
  | activate throws => exact h.activate throws
  | doSeal lost => exact h.machineSeal (hlost hm)
  | terminate ec lost => exact h.terminate (ht ec lost rfl) lost
  | timeout r ec lost =>
    rcases hf : ec.failed with _ | _
    · simp only [Machine.effect, hf]
      exact h.timeout hf hm
    · simpa [Machine.effect, hf] using h
  | heartbeat c =>
    simp only [Machine.effect, Machine.onHeartbeat]
    split
    · exact h
    · exact h.congr rfl rfl
  | heartbeatTimeout c ec =>
    have h₁ : Coded (m.setControl c fun k => { k with timer := k.timer.complete }) := h.congr rfl rfl
    rcases hf : ec.failed with _ | _
    · simp only [Machine.mutes, hf, Bool.not_false, Bool.true_and] at hm
      simp only [Machine.effect, hf]
      exact h₁.shutdown hm
    · simpa [Machine.effect, hf] using h
  | discard c ec =>
    simp only [Machine.effect, Machine.controlDiscard]
    split
    · rename_i hd
      rw [Machine.mutes, hd, Bool.true_and] at hm
      exact h.shutdown hm
    · exact h
  | suicide c => exact h.shutdown hm
  | runShutdown ec => exact (h.take _).shutdown hm
  | runCleanup ec =>
    refine (h.take _).note fun ec' hec => ?_
    cases hec
    exact h.posted ec (by simpa [Machine.enabled] using he)
  | runRebalance => exact h.take _
  | runCloseBoth c lost => exact (h.take _).maybeNotify c _ (hlost hm)
  | watch c lost | closeSend c lost | closeRecv c lost | closeBoth c lost =>
    exact h.maybeNotify c _ (hlost hm)
  | destroy r => exact h.destroy r
  | _ => exact h.congr rfl rfl

end Coded

end Cocaine.Node.Slave
