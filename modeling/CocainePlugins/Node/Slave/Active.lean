import CocainePlugins.Node.Slave.Evolve
import CocainePlugins.Node.Slave.Order

/-!
# Becoming active and ceasing to be

A machine becomes active in two handlers: the worker's handshake, which tells
the engine so, and the isolate's readiness when the handshake came first
(`wakes`). It ceases to be by a shutdown, when it is sealed, or when it is
terminated. `Dims` is what the other handlers have in common.
-/

namespace Cocaine.Node.Slave

open Framework

theorem cur_kind_modify {m : Machine} (r : Nat) {f : StateObj → StateObj}
    (hk : (f (m.objs r)).kind = (m.objs r).kind) : (m.modify r f).cur.kind = m.cur.kind := by
  simp only [Machine.cur, Machine.modify, Function.update_apply]
  split
  · rename_i h
    rw [hk, ← h]
  · rfl

/-- `m'` is active only if `m` was, and not if it was shut down in between. -/
structure Dims (m m' : Machine) : Prop where
  rise : m'.active = true → m.active = true
  fell : m.shutdowned = false → m'.shutdowned = true → m'.active = false

namespace Dims

variable {m m' m'' : Machine}

theorem trans (h : Dims m m') (h' : Dims m' m'') : Dims m m'' where
  rise ha := h.rise (h'.rise ha)
  fell hs hs'' := by
    rcases hm : m'.shutdowned with _ | _
    · exact h'.fell hm hs''
    · have := h.fell hs hm
      by_contra ha
      simp [h'.rise (by simpa using ha)] at this

theorem frame (hk : m'.cur.kind = m.cur.kind) (hs : m'.shutdowned = m.shutdowned) : Dims m m' where
  rise := by simp [Machine.active, hk]
  fell h h' := by simp [← hs, h'] at h

theorem refl (m : Machine) : Dims m m := frame rfl rfl

theorem modify (r : Nat) {f : StateObj → StateObj} (hk : (f (m.objs r)).kind = (m.objs r).kind) :
    Dims m (m.modify r f) :=
  frame (cur_kind_modify r hk) rfl

theorem setTimer (r : Nat) (t : Timer) : Dims m (m.setTimer r t) := modify r rfl

theorem enter {o : StateObj} (ho : o.kind ≠ .active) : Dims m ((m.alloc o).migrate m.fresh) where
  rise := by simp [Machine.active, Machine.cur, ho]
  fell _ _ := by simp [Machine.active, Machine.cur, ho]

theorem shutdown (ec : ErrorCode) : Dims m (m.shutdown ec) := by
  have h : (m.enterInactive (m.shutdownCode ec)).active = false := by
    simp [Machine.enterInactive, Machine.active, Machine.cur]
  unfold Machine.shutdown
  split
  · exact .refl m
  · dsimp only
    split <;> exact ⟨fun ha => absurd (h.symm.trans ha) (by simp), fun _ _ => h⟩

theorem of_inner (h : Inner false m m') : Dims m m' := by
  induction h with
  | refl m => exact .refl m
  | modify hk => exact modify _ hk
  | enter ho => exact enter fun ha => absurd (ho ha) (by simp)
  | links | crash | note | post => exact frame rfl rfl
  | shutdown ec => exact .shutdown ec
  | trans _ _ ih ih' => exact ih.trans ih'

theorem terminate (ec : ErrorCode) (lost : Bool) : Dims m (m.terminate ec lost) := by
  have h : Dims m { m.note (.terminate ec) with closed := true } := frame rfl rfl
  obtain ⟨m₁, hin, heq⟩ := m.terminate_inner ec lost
  rw [heq]
  exact (h.trans (of_inner hin)).trans (frame rfl rfl)

theorem maybeNotify (c : Nat) (f : Chan → Chan) (lost : Bool) :
    Dims m ((m.setChan c f).maybeNotify c lost) := by
  have h : Dims m ((m.setChan c f).dropChannel c) := frame rfl rfl
  unfold Machine.maybeNotify
  dsimp only
  split
  · exact h.trans (of_inner (.revoke c lost))
  · exact frame rfl rfl

end Dims

/-! ## Activation -/

/-- The isolate's readiness finds the handshake already received. -/
def Machine.wakes (m : Machine) : Act → Bool
  | .ready r throws => (m.objs r).timer.armed && (m.objs r).res.control.isSome && !throws
  | _ => false

section Activation

variable {m : Machine}

theorem shutdowned_handshakingActivate (x : Nat) (session control : Option Nat) (throws : Bool) :
    (m.handshakingActivate x session control throws).1.shutdowned = m.shutdowned := by
  unfold Machine.handshakingActivate
  dsimp only
  split
  · rfl
  · split <;> rfl

variable {throws : Bool}

theorem active_handshakingActivate {x : Nat} {session control : Option Nat}
    (h : (m.handshakingActivate x session control throws).1.active = true) :
    m.active = true ∨ control.isSome = true ∧ throws = false := by
  have hr : Dims m (m.setRes x {}) := .modify x rfl
  unfold Machine.handshakingActivate at h
  dsimp only at h
  split at h
  · exact .inl (hr.rise h)
  · split at h
    · exact .inl (hr.rise h)
    · rename_i ht
      exact .inr ⟨rfl, by simpa using ht⟩

/-- An attempt to activate that threw ends with a shutdown. -/
theorem active_handshakingHandshake {x : Nat}
    (h : (m.handshakingHandshake x throws).1.active = true) :
    m.active = true ∨ (m.handshakingHandshake x throws).2 = true := by
  unfold Machine.handshakingHandshake at h ⊢
  split at h
  · exact .inl ((Dims.setTimer x _).rise h)
  · dsimp only at h ⊢
    rename_i hp
    rw [if_neg hp]
    split at h
    · have ha := active_handshakingActivate ((Dims.shutdown _).rise h)
      rcases ha with ha | ⟨-, ht⟩
      · exact .inl ((Dims.trans (.setTimer x _) (.frame rfl rfl)).rise ha)
      · rename_i h2
        simp [Machine.handshakingActivate, ht] at h2
    · rename_i h2
      rw [if_neg h2]
      exact .inr rfl

theorem active_activate (h : (m.activate throws).1.active = true) :
    m.active = true ∨ (m.activate throws).2 = true := by
  unfold Machine.activate at h ⊢
  split at h
  · split at h
    · exact active_handshakingHandshake h
    · exact .inr rfl
  · exact active_handshakingHandshake h
  · exact .inl h

theorem active_onReady {r : Nat} (h : (m.onReady r throws).active = true) :
    m.active = true ∨ m.wakes (.ready r throws) = true := by
  have h' : (m.onSpawn r throws).active = true := (Dims.modify r rfl).rise h
  unfold Machine.onSpawn at h'
  split at h'
  · exact .inl ((Dims.setTimer r _).rise h')
  · rename_i hp
    have harm : (m.objs r).timer.armed = true := by simpa using hp
    have hd : Dims m ((m.cancel r).enterHandshaking r) :=
      ((Dims.setTimer r _).trans (.modify r rfl)).trans (.enter (by simp))
    unfold Machine.onSpawned at h'
    dsimp only at h'
    split at h'
    · rename_i c hc
      have ha : (((m.cancel r).enterHandshaking r).setRes r {}).active = true ∨ throws = false := by
        split at h'
        · exact (active_handshakingActivate h').imp id And.right
        · exact (active_handshakingActivate h').imp id And.right
      rcases ha with ha | ht
      · exact .inl ((hd.trans (.modify r rfl)).rise ha)
      · have hc' : (m.objs r).res.control = some c := by simpa using hc
        simp [Machine.wakes, harm, hc', ht]
    · split at h'
      · exact .inl (hd.rise h')
      · exact .inl ((hd.trans (.setTimer _ _)).rise h')

theorem shutdowned_onReady (r : Nat) (throws : Bool) :
    (m.onReady r throws).shutdowned = m.shutdowned := by
  unfold Machine.onReady Machine.onSpawn
  split
  · rfl
  · unfold Machine.onSpawned
    dsimp only
    split
    · split <;> exact shutdowned_handshakingActivate _ _ _ throws
    · split <;> rfl

/-- A worker's handshake that shuts the slave down does not activate it. -/
theorem fell_activate (hs : m.shutdowned = false)
    (h : (m.activate throws).1.shutdowned = true) : (m.activate throws).1.active = false := by
  have key : ∀ x, (m.handshakingHandshake x throws).1.shutdowned = true →
      (m.handshakingHandshake x throws).1.active = false := by
    intro x hx
    have hp : ((m.cancel x).newLink.handshakingActivate x (some m.links) (some m.links)
        throws).1.shutdowned = false := (shutdowned_handshakingActivate _ _ _ throws).trans hs
    unfold Machine.handshakingHandshake at hx ⊢
    split at hx
    · simp [hs] at hx
    · rename_i hn
      rw [if_neg hn]
      dsimp only at hx ⊢
      split at hx
      · rename_i ht
        rw [if_pos ht]
        exact (Dims.shutdown _).fell hp hx
      · rw [hp] at hx
        cases hx
  unfold Machine.activate at h ⊢
  split at h
  · split at h
    · exact key _ h
    · simp [hs] at h
  · exact key _ h
  · simp [hs] at h

end Activation

/-! ## Steps -/

section Steps

variable {m : Machine} {a : Act}

theorem Dims.effect (ha : a.activates = false) : Dims m (m.effect a) := by
  rcases ho : a.outer with _ | _
  · obtain ⟨l, -, hb⟩ := m.before_eq a
    have h : Inner false (m.before a) (m.effect a) := ha ▸ Inner.effect ho
    have hbefore : Dims m (m.before a) := by
      rw [hb]
      exact frame rfl rfl
    exact hbefore.trans (of_inner h)
  · cases a with
    | terminate ec lost => exact .terminate ec lost
    | runCloseBoth c lost =>
      have h : Dims m (m.take (.closeBoth c)) := frame rfl rfl
      exact h.trans (maybeNotify c _ lost)
    | watch c lost | closeSend c lost | closeRecv c lost | closeBoth c lost =>
      exact maybeNotify c _ lost
    | runCleanup | newChannel | register | arm | expireRequest | completeRequest =>
      exact frame rfl rfl
    | _ => cases ho

theorem fell_effect (hs : m.shutdowned = false) (h : (m.effect a).shutdowned = true) :
    (m.effect a).active = false := by
  rcases ha : a.activates with _ | _
  · exact (Dims.effect ha).fell hs h
  · cases a with
    | activate throws => exact fell_activate hs h
    | ready r throws =>
      have := (shutdowned_onReady r throws).symm.trans h
      simp [hs] at this
    | _ => cases ha

theorem active_shutdown {m : Machine} (h : m.active = true) (ec : ErrorCode) :
    (m.shutdown ec).active = true ∨ m.shutdowned = false ∧ (m.shutdown ec).shutdowned = true := by
  unfold Machine.shutdown
  split
  · exact .inl h
  · rename_i hs
    refine .inr ⟨by simpa using hs, ?_⟩
    dsimp only
    split <;> rfl

/-- A change of a channel does not terminate a machine that is active. -/
theorem active_maybeNotify {m : Machine} (h : m.active = true) (c : Nat) (f : Chan → Chan)
    (lost : Bool) : ((m.setChan c f).maybeNotify c lost).active = true := by
  have hk : (m.setChan c f).cur.kind = .active := Machine.active_iff.mp h
  have hne : (m.setChan c f).cur.kind ≠ .seal := by rw [hk]; simp
  unfold Machine.maybeNotify Machine.revoke
  dsimp only
  split
  · rw [if_neg fun h => hne h.1]
    exact h
  · exact h

/-- An active machine stays so until it is shut down, sealed or terminated. -/
theorem active_effect (ho : Ordered m) (he : m.enabled a = true) (hm : m.active = true)
    (hd : ∀ lost, a ≠ .doSeal lost) (ht : ∀ ec lost, a ≠ .terminate ec lost) :
    (m.effect a).active = true ∨ m.shutdowned = false ∧ (m.effect a).shutdowned = true := by
  have hk : (m.objs m.state).kind = .active := Machine.active_iff.mp hm
  have hlate : (m.objs m.state).kind.late = true := by rw [hk]; rfl
  have hprep : m.preparation = .done := by
    by_contra hp
    simp [(ho.prep hp m.state).2] at hlate
  have hseal : ∀ r, (m.objs r).kind ≠ .seal := by
    intro r hr
    have := ho.sealed r (.inl hr)
    simp [hk, Kind.over] at this
  have hmod : ∀ (r : Nat) (f : StateObj → StateObj), (f (m.objs r)).kind = (m.objs r).kind →
      (m.modify r f).active = true :=
    fun r f hf => Machine.active_iff.mpr ((cur_kind_modify r hf).trans hk)
  cases a with
  | doSeal lost => exact absurd rfl (hd lost)
  | terminate ec lost => exact absurd rfl (ht ec lost)
  | prepare | token | refresh | abandon => simp [Machine.enabled, hprep] at he
  | ready r throws =>
    -- An armed spawn timer would belong to the current state.
    have hr : (m.objs r).timer.armed = false := by
      by_contra ha
      have hs : (m.objs r).kind = .spawn := by simp_all [Machine.enabled]
      simp [(ho.armed r hs (by simpa using ha)).2] at hlate
    have hc : (m.cancel r).active = true := hmod r _ rfl
    left
    simp only [Machine.effect, Machine.onReady, Machine.onSpawn, Timer.pending_eq_zero, hr, if_true]
    exact Machine.active_iff.mpr ((cur_kind_modify r rfl).trans (Machine.active_iff.mp hc))
  | exited r ec => exact active_shutdown (hmod r _ rfl) ec
  | activate throws =>
    left
    simpa [Machine.effect, Machine.activate, Machine.cur, hk] using hm
  | expire r => exact .inl (hmod r _ rfl)
  | timeout r ec lost =>
    have hc : (m.setTimer r (m.objs r).timer.complete).active = true := hmod r _ rfl
    simp only [Machine.effect]
    split
    · exact .inl hm
    · unfold Machine.onTimeout
      split
      case h_3 hs => exact absurd (by simpa using hs) (hseal r)
      case h_5 => exact .inl hc
      all_goals exact active_shutdown hc _
  | heartbeat c =>
    left
    simp only [Machine.effect, Machine.onHeartbeat]
    split <;> exact hm
  | heartbeatTimeout c ec =>
    simp only [Machine.effect]
    split
    · exact .inl hm
    · exact active_shutdown (m := m.setControl c _) hm _
  | discard c ec =>
    simp only [Machine.effect, Machine.controlDiscard]
    split
    · exact active_shutdown hm _
    · exact .inl hm
  | suicide c => exact active_shutdown hm _
  | runShutdown ec => exact active_shutdown (m := m.take (.shutdown ec)) hm _
  | runCloseBoth c lost => exact .inl (active_maybeNotify (m := m.take (.closeBoth c)) hm c _ lost)
  | watch c lost | closeSend c lost | closeRecv c lost | closeBoth c lost =>
    exact .inl (active_maybeNotify hm c _ lost)
  | destroy r =>
    have hc : (m.modify r fun o => { o with res := {}, dead := true }).active = true := hmod r _ rfl
    left
    simp only [Machine.effect, Machine.destroy]
    split <;> exact hc
  | _ => exact .inl hm

end Steps

end Cocaine.Node.Slave
