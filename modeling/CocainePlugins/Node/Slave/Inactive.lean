import CocainePlugins.Node.Slave.Order

/-!
# The inactive state

Only `shutdown` looks at the `shutdowned` flag. The other handlers that migrate
the machine are kept from leaving `inactive_t` in other ways: `seal`, `terminate`
and `activate` act on the current state, which refuses them; `on_spawn` and
`handshaking_t::activate` first cancel the timer of their state and give up when
there was nothing to cancel, and `shutdown` cancels it before they do. Two
handlers have no such guard (`revives`): `on_refresh` with a token, and the
completion of the seal timer with a success code. Without them the machine that
was shut down stays inactive (`Settled`).
-/

namespace Cocaine.Node.Slave

open Framework

/-- The handlers that migrate the machine whatever its current state is. -/
def Machine.revives (m : Machine) : Act → Bool
  | .refresh ec _ => !ec.failed
  | .timeout r ec _ => (m.objs r).kind == .seal && !ec.failed
  | _ => false

/-- After a shutdown neither a token nor an expired seal timer is handled. -/
def Undisturbed (m : Machine) (a : Act) : Prop := m.shutdowned = true → m.revives a = false

instance (m : Machine) (a : Act) : Decidable (Undisturbed m a) :=
  inferInstanceAs (Decidable (_ → _))

/-- The machine is inactive exactly after a shutdown. -/
structure Settled (m : Machine) : Prop where
  inactive : m.shutdowned = true → ∃ ec, (m.objs m.state).kind = .inactive ec
  shut : ∀ r ec, (m.objs r).kind = .inactive ec → m.shutdowned = true

namespace Settled

variable {m m' : Machine}

theorem init : Settled {} := by
  constructor <;> simp

theorem congr (h : Settled m) (h1 : m'.shutdowned = m.shutdowned) (h2 : m'.state = m.state)
    (h3 : m'.objs = m.objs) : Settled m' := by
  constructor <;> simp only [h1, h2, h3]
  · exact h.inactive
  · exact h.shut

theorem post (h : Settled m) (t : Task) : Settled (m.post t) := h.congr rfl rfl rfl

theorem modify (h : Settled m) (r : Nat) {f : StateObj → StateObj}
    (hk : (f (m.objs r)).kind = (m.objs r).kind) : Settled (m.modify r f) := by
  have hkind : ∀ a, ((m.modify r f).objs a).kind = (m.objs a).kind :=
    (Function.forall_update_iff m.objs fun a o => o.kind = (m.objs a).kind).mpr ⟨hk, fun _ _ => rfl⟩
  refine ⟨fun hs => ?_, fun a ec he => h.shut a ec ((hkind a).symm.trans he)⟩
  obtain ⟨ec, he⟩ := h.inactive hs
  exact ⟨ec, (hkind m.state).trans he⟩

theorem setTimer (h : Settled m) (r : Nat) (t : Timer) : Settled (m.setTimer r t) :=
  h.modify r rfl

theorem setRes (h : Settled m) (r : Nat) (res : Resources) : Settled (m.setRes r res) :=
  h.modify r rfl

/-- The current state is another one only before a shutdown. -/
theorem live (h : Settled m) {k : Kind} (hk : (m.objs m.state).kind = k)
    (hne : ∀ ec, k ≠ .inactive ec) : m.shutdowned = false := by
  by_contra hs
  obtain ⟨ec, he⟩ := h.inactive (by simpa using hs)
  exact hne ec (hk.symm.trans he)

theorem enter (h : Settled m) (hs : m.shutdowned = false) {o : StateObj}
    (ho : ∀ ec, o.kind ≠ .inactive ec) : Settled ((m.alloc o).migrate m.fresh) := by
  refine ⟨fun hshut => ?_, ?_⟩
  · cases hs.symm.trans hshut
  · exact (Function.forall_update_iff m.objs fun _ o => ∀ ec, o.kind = .inactive ec →
      m.shutdowned = true).mpr ⟨fun ec he => absurd he (ho ec), fun a _ => h.shut a⟩

/-! ## Shutting down, terminating and sealing -/

theorem shutdown (h : Settled m) (ec : ErrorCode) : Settled (m.shutdown ec) := by
  unfold Machine.shutdown
  split
  · exact h
  · have h' : Settled (m.enterInactive (m.shutdownCode ec)) := by
      constructor <;> simp [Machine.enterInactive]
    dsimp only
    split <;> exact h'.congr rfl rfl rfl

theorem controlTerminate (h : Settled m) (c : Option Nat) (ec : ErrorCode) (lost : Bool) :
    Settled (m.controlTerminate c ec lost) := by
  have h' : Settled (m.note (.controlTerminate ec)) := h.congr rfl rfl rfl
  unfold Machine.controlTerminate
  split
  · exact h.congr rfl rfl rfl
  · dsimp only
    split
    · exact h'.shutdown _
    · exact h'

theorem handOver (h : Settled m) (hs : m.shutdowned = false) (r : Nat) {k : Kind}
    (hk : ∀ ec, k ≠ .inactive ec) : Settled (m.handOver r k) := by
  let o : StateObj := { kind := k, res := (m.objs r).res }
  have hentered : Settled (((m.setRes r {}).alloc o).migrate m.fresh) := (h.setRes r {}).enter hs hk
  exact hentered.congr rfl rfl rfl

theorem activeTerminate (h : Settled m) (hs : m.shutdowned = false) (r : Nat) (ec : ErrorCode)
    (lost : Bool) : Settled (m.activeTerminate r ec lost) :=
  ((h.handOver hs r (by simp)).setTimer _ _).controlTerminate _ ec lost

theorem sealTerminate (h : Settled m) (hs : m.shutdowned = false) (r : Nat) (ec : ErrorCode)
    (lost : Bool) : Settled (m.sealTerminate r ec lost) :=
  (h.setTimer r _).activeTerminate hs r ec lost

theorem stateTerminate (h : Settled m) (ec : ErrorCode) (lost : Bool) :
    Settled (m.stateTerminate m.state ec lost) := by
  unfold Machine.stateTerminate
  split
  case h_1 => exact h.shutdown ec
  case h_2 | h_3 | h_4 => exact (h.setTimer _ _).shutdown ec
  case h_5 hk => exact h.activeTerminate (h.live hk (by simp)) _ ec lost
  case h_6 hk => exact h.sealTerminate (h.live hk (by simp)) _ ec lost
  case h_7 => exact h

theorem terminate (h : Settled m) (ec : ErrorCode) (lost : Bool) :
    Settled (m.terminate ec lost) := by
  have h' : Settled { m.note (.terminate ec) with closed := true } := h.congr rfl rfl rfl
  unfold Machine.terminate
  dsimp only
  split
  · exact h.congr rfl rfl rfl
  · exact (h'.stateTerminate ec lost).congr rfl rfl rfl

theorem machineSeal (h : Settled m) (lost : Bool) : Settled (m.machineSeal lost) := by
  unfold Machine.machineSeal
  split
  · rename_i hk
    have hs := h.live hk (by simp)
    have h' := h.handOver hs m.state (k := .seal) (by simp)
    unfold Machine.activeSeal Machine.sealStart
    split
    · exact h'.sealTerminate hs _ _ lost
    · exact h'.setTimer _ _
  · exact h

/-! ## From the token to the active state -/

theorem onRefresh (h : Settled m) {ec : ErrorCode} (hs : m.shutdowned = true → ec.failed = true)
    (out : Machine.SpawnOutcome) : Settled (m.onRefresh ec out) := by
  unfold Machine.onRefresh
  split
  · exact h.shutdown ec
  · rename_i hec
    have h' : Settled ((m.alloc { kind := .spawn }).migrate m.fresh) :=
      h.enter (Bool.eq_false_iff.mpr fun hshut => hec (hs hshut)) (by simp)
    cases out with
    | locatorNotFound => exact h'.shutdown _
    | emptyLocatorEndpoints => exact h'.shutdown _
    | isolateThrows ec => exact h'.congr rfl rfl rfl
    | spawnThrows ec => exact (h'.setTimer m.fresh _).congr rfl rfl rfl
    | spawned =>
      have hm := h'.modify m.fresh (f := fun o => { o with
        timer := o.timer.start, awaited := true, res := { o.res with handle := some m.handles } }) rfl
      exact hm.congr rfl rfl rfl

theorem handshakingActivate (h : Settled m) (hs : m.shutdowned = false) (x : Nat)
    (session control : Option Nat) (throws : Bool) :
    Settled (m.handshakingActivate x session control throws).1 := by
  have h' : Settled ((m.setRes x {}).note (.built .active
      { handle := (m.objs x).res.handle, control := control, session := session })) :=
    (h.setRes x {}).congr rfl rfl rfl
  unfold Machine.handshakingActivate
  dsimp only
  split
  · exact h'.congr rfl rfl rfl
  · split
    · exact h'
    · exact (h'.enter hs (by simp)).congr rfl rfl rfl

theorem handshakingHandshake (h : Settled m) (hs : m.shutdowned = false) (x : Nat)
    (throws : Bool) : Settled (m.handshakingHandshake x throws).1 := by
  have h' : Settled (m.cancel x).newLink := (h.setTimer x _).congr rfl rfl rfl
  have ha := h'.handshakingActivate hs x (some m.links) (some m.links) throws
  unfold Machine.handshakingHandshake
  split
  · exact h.setTimer x _
  · dsimp only
    split
    · exact ha.shutdown _
    · exact ha

theorem activate (h : Settled m) (throws : Bool) : Settled (m.activate throws).1 := by
  unfold Machine.activate
  split
  · rename_i hk
    split
    · exact h.handshakingHandshake (h.live hk (by simp)) _ throws
    · have hl : Settled m.newLink := h.congr rfl rfl rfl
      exact hl.setRes m.state _
  · rename_i hk
    exact h.handshakingHandshake (h.live hk (by simp)) _ throws
  · exact h

theorem onSpawned (h : Settled m) (hs : m.shutdowned = false) (r : Nat) (throws : Bool) :
    Settled (m.onSpawned r throws) := by
  have h' : Settled (m.enterHandshaking r) := (h.modify r rfl).enter hs (by simp)
  have ha : ∀ session control, Settled (((m.enterHandshaking r).setRes r {}).handshakingActivate
      m.fresh session control throws).1 :=
    fun session control => (h'.setRes r {}).handshakingActivate hs _ session control throws
  unfold Machine.onSpawned
  dsimp only
  split
  · split
    · exact (ha _ _).congr rfl rfl rfl
    · exact ha _ _
  · split
    · exact h'.congr rfl rfl rfl
    · exact h'.setTimer _ _

theorem onReady (h : Settled m) (ho : Ordered m) {r : Nat} (hr : (m.objs r).kind = .spawn)
    (throws : Bool) : Settled (m.onReady r throws) := by
  refine modify ?_ r rfl
  unfold Machine.onSpawn
  split
  · exact h.setTimer r _
  · rename_i hpend
    obtain ⟨rfl, -⟩ := ho.armed r hr (by simpa using hpend)
    exact (h.setTimer m.state _).onSpawned (h.live hr (by simp)) m.state throws

theorem onTimeout (h : Settled m) {r : Nat}
    (hs : (m.objs r).kind = .seal → m.shutdowned = false) (lost : Bool) :
    Settled (m.onTimeout r lost) := by
  unfold Machine.onTimeout
  split
  case h_3 hk => exact h.sealTerminate (hs hk) r _ lost
  case h_5 => exact h
  all_goals exact h.shutdown _

/-! ## Control and channels -/

theorem destroy (h : Settled m) (r : Nat) : Settled (m.destroy r) := by
  have h' : Settled (m.modify r fun o => { o with res := {}, dead := true }) := h.modify r rfl
  unfold Machine.destroy
  dsimp only
  split <;> exact h'.congr rfl rfl rfl

theorem maybeNotify (h : Settled m) (c : Nat) (f : Chan → Chan) (lost : Bool) :
    Settled ((m.setChan c f).maybeNotify c lost) := by
  have h' : Settled ((m.setChan c f).dropChannel c) := h.congr rfl rfl rfl
  unfold Machine.maybeNotify Machine.revoke
  dsimp only
  split
  · split
    · exact (h'.stateTerminate _ lost).post _
    · exact h'.post _
  · exact h.congr rfl rfl rfl

/-! ## Steps and runs -/

theorem routine : Routine Settled where
  aside h hobjs hstate _ _ _ _ _ hshut := h.congr hshut hstate hobjs
  shutdown ec h := h.shutdown ec
  maybeNotify c f lost h := h.maybeNotify c f lost

theorem effect (h : Settled m) (ho : Ordered m) {a : Act} (he : m.enabled a = true)
    (ha : Undisturbed m a) : Settled (m.effect a) := by
  cases a with
  | refresh ec out =>
    refine onRefresh ?_ (fun hs => ?_) out
    · exact h.congr rfl rfl rfl
    · simpa [Machine.revives] using ha hs
  | abandon =>
    refine shutdown ?_ _
    exact h.congr rfl rfl rfl
  | ready r throws => exact h.onReady ho (by simp_all [Machine.enabled]) throws
  | exited r ec => exact (h.modify r rfl).shutdown ec
  | activate throws => exact h.activate throws
  | doSeal lost => exact h.machineSeal lost
  | terminate ec lost => exact h.terminate ec lost
  | expire r => exact h.setTimer r _
  | timeout r ec lost =>
    simp only [Machine.effect]
    split
    · exact h
    · refine (h.setTimer r _).onTimeout (fun hk => ?_) lost
      by_contra hs
      have := ha (by simpa using hs)
      simp_all [Machine.revives]
  | destroy r => exact h.destroy r
  | prepare | token | runCleanup => exact h.congr rfl rfl rfl
  | _ => exact Settled.routine.effect h rfl

end Settled

/-! ## After a shutdown -/

theorem Machine.shutdown_of_shutdowned {m : Machine} (hs : m.shutdowned = true) (ec : ErrorCode) :
    m.shutdown ec = m := by
  simp [Machine.shutdown, hs]

/-- `m'` is shut down and has the current state object of `m`. -/
structure Resting (m m' : Machine) : Prop where
  shut : m'.shutdowned = true
  state : m'.state = m.state

namespace Resting

variable {m m' : Machine}

theorem shutdown (h : Resting m m') (ec : ErrorCode) : Resting m (m'.shutdown ec) := by
  rw [Machine.shutdown_of_shutdowned h.shut]
  exact h

/-- `on_spawn` finds that the spawn timer is not pending. -/
theorem onReady (h : Settled m) (ho : Ordered m) (hs : m.shutdowned = true) {r : Nat}
    (hr : (m.objs r).kind = .spawn) (throws : Bool) : Resting m (m.onReady r throws) := by
  have hp : (m.objs r).timer.pending = 0 := by
    rw [Timer.pending_eq_zero]
    by_contra ha
    obtain ⟨rfl, -⟩ := ho.armed r hr (by simpa using ha)
    obtain ⟨ec, he⟩ := h.inactive hs
    rw [hr] at he
    cases he
  constructor <;> simp [Machine.onReady, Machine.onSpawn, hp, hs]

theorem terminate (h : Settled m) (hs : m.shutdowned = true) (ec : ErrorCode) (lost : Bool) :
    Resting m (m.terminate ec lost) := by
  obtain ⟨ec', hk⟩ := h.inactive hs
  unfold Machine.terminate
  dsimp only
  split
  · exact ⟨hs, rfl⟩
  · constructor <;> simp [Machine.stateTerminate, hk, hs]

theorem onTimeout (hs : m.shutdowned = true) {r : Nat} (hk : (m.objs r).kind ≠ .seal)
    (lost : Bool) : Resting m (m.onTimeout r lost) := by
  have h : Resting m m := ⟨hs, rfl⟩
  unfold Machine.onTimeout
  split
  case h_3 hk' => exact absurd hk' hk
  case h_5 => exact h
  all_goals exact h.shutdown _

theorem destroy (hs : m.shutdowned = true) (r : Nat) : Resting m (m.destroy r) := by
  unfold Machine.destroy
  dsimp only
  split <;> exact ⟨hs, rfl⟩

theorem maybeNotify (h : Settled m) (hs : m.shutdowned = true) (c : Nat) (f : Chan → Chan)
    (lost : Bool) : Resting m ((m.setChan c f).maybeNotify c lost) := by
  obtain ⟨ec, hk⟩ := h.inactive hs
  have hne : (m.setChan c f).cur.kind ≠ .seal := by simp [Machine.cur, hk]
  unfold Machine.maybeNotify
  dsimp only
  split
  · constructor <;> simp [Machine.revoke, hs, hk, Machine.cur]
  · exact ⟨hs, rfl⟩

theorem effect (h : Settled m) (ho : Ordered m) (hs : m.shutdowned = true) {a : Act}
    (he : m.enabled a = true) (ha : m.revives a = false) : Resting m (m.effect a) := by
  obtain ⟨ec', hk⟩ := h.inactive hs
  have h0 : Resting m m := ⟨hs, rfl⟩
  cases a with
  | refresh ec out =>
    simp only [Machine.revives, Bool.not_eq_false'] at ha
    simp only [Machine.effect, Machine.onRefresh, ha, if_true]
    refine shutdown ?_ ec
    exact ⟨hs, rfl⟩
  | abandon =>
    refine shutdown ?_ _
    exact ⟨hs, rfl⟩
  | ready r throws => exact onReady h ho hs (by simp_all [Machine.enabled]) throws
  | exited r ec =>
    refine shutdown ?_ ec
    exact ⟨hs, rfl⟩
  | activate throws => simpa [Machine.effect, Machine.activate, Machine.cur, hk] using h0
  | doSeal lost => simpa [Machine.effect, Machine.machineSeal, Machine.cur, hk] using h0
  | terminate ec lost => exact terminate h hs ec lost
  | timeout r ec lost =>
    simp only [Machine.effect]
    split
    · exact h0
    · rename_i hf
      have ht := onTimeout (m := m.setTimer r (m.objs r).timer.complete) hs (r := r)
        (by simp_all [Machine.revives]) lost
      exact ⟨ht.shut, ht.state⟩
  | heartbeat c =>
    simp only [Machine.effect, Machine.onHeartbeat]
    split <;> exact ⟨hs, rfl⟩
  | heartbeatTimeout c ec =>
    simp only [Machine.effect]
    split
    · exact h0
    · refine shutdown ?_ _
      exact ⟨hs, rfl⟩
  | discard c ec =>
    simp only [Machine.effect, Machine.controlDiscard]
    split
    · exact h0.shutdown _
    · exact h0
  | suicide c => exact h0.shutdown _
  | runShutdown ec =>
    refine shutdown ?_ ec
    exact ⟨hs, rfl⟩
  | runCloseBoth c lost =>
    have ht : Settled (m.take (.closeBoth c)) := h.congr rfl rfl rfl
    obtain ⟨h1, h2⟩ := maybeNotify ht hs c _ lost
    exact ⟨h1, h2⟩
  | watch c lost => exact maybeNotify h hs c _ lost
  | closeSend c lost => exact maybeNotify h hs c _ lost
  | closeRecv c lost => exact maybeNotify h hs c _ lost
  | closeBoth c lost => exact maybeNotify h hs c _ lost
  | destroy r => exact destroy hs r
  | _ => exact ⟨hs, rfl⟩

end Resting

/-- In a run whose steps are undisturbed, the current state object is the same
from a shutdown on. -/
theorem inactive_absorbing {m m' : Machine} (hr : machineSystem.Reachable Undisturbed m)
    (hi : m.inactive = true) (hp : machineSystem.Path Undisturbed m m') :
    m'.state = m.state ∧ m'.inactive = true := by
  have h : Ordered m ∧ Settled m := by
    refine hr.induct (P := fun m => Ordered m ∧ Settled m) ?_ ?_
    · rintro m rfl
      exact ⟨Ordered.init, Settled.init⟩
    · rintro m a m' ⟨ho, h⟩ ha hs
      obtain ⟨-, he, rfl⟩ := Machine.step_eq_some.mp hs
      exact ⟨ho.effect he, h.effect ho he ha⟩
  obtain ⟨ec, hk⟩ := Machine.inactive_iff.mp hi
  have hs := h.2.shut m.state ec hk
  obtain ⟨-, h', hs', heq⟩ := hp.induct (P := fun t => Ordered t ∧ Settled t ∧ Resting m t)
    ⟨h.1, h.2, hs, rfl⟩ (by
      rintro t a u ⟨ho, ht, hrest⟩ ha hst
      obtain ⟨-, he, rfl⟩ := Machine.step_eq_some.mp hst
      have hu := Resting.effect ht ho hrest.shut he (ha hrest.shut)
      exact ⟨ho.effect he, ht.effect ho he ha, hu.shut, hu.state.trans hrest.state⟩)
  exact ⟨heq, Machine.inactive_iff.mpr (h'.inactive hs')⟩

theorem inactive_absorbing_terminated : ∃ m, machineSystem.Reachable Undisturbed m ∧
    m.inactive = true ∧ ∃ m', machineSystem.Path Undisturbed m m' ∧
      m'.state = m.state ∧ m'.inactive = true := by
  obtain ⟨m, hr, hi, m', hm', -⟩ := machineSystem.exists_reachable Undisturbed
    (P := fun m => m.inactive = true ∧ ∃ m' ∈ machineSystem.run Undisturbed m
      [.ready 1 false, .exited 1 {}], True)
    [.prepare false, .token {}, .refresh {} .spawned,
      .terminate SlaveErrors.overseerShutdowning.code false] rfl (by decide +kernel)
  have hp : machineSystem.Path Undisturbed m m' := .of_run _ hm'
  exact ⟨m, hr, hi, m', hp, inactive_absorbing hr hi hp⟩

/-- A token that arrives after a shutdown, and a seal timer that had expired
before it. -/
theorem inactive_left :
    (∃ m, machineSystem.Reachable System.Any m ∧ m.inactive = true ∧
      ∃ m' ∈ machineSystem.step m (.refresh {} .spawned), m'.cur.kind = .spawn) ∧
    (∃ m, machineSystem.Reachable System.Any m ∧ m.inactive = true ∧
      ∃ m' ∈ machineSystem.step m (.timeout 4 {} false), m'.cur.kind = .terminate) := by
  constructor
  · exact machineSystem.exists_reachable System.Any
      [.prepare false, .token {}, .terminate SlaveErrors.overseerShutdowning.code false] rfl
      (by decide +kernel)
  · exact machineSystem.exists_reachable System.Any
      [.prepare false, .token {}, .refresh {} .spawned, .ready 1 false, .activate false,
        .newChannel, .register 2, .watch 2 false, .doSeal false, .expire 4, .suicide 0] rfl
      (by decide +kernel)

end Cocaine.Node.Slave
