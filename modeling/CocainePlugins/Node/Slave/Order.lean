import CocainePlugins.Node.Slave.Step

/-!
# The order of the states

A slave is prepared, spawned, handshaken and then active, sealed or terminating,
in this order and each at most once, whatever handlers run late: while the spawn
timer is armed nothing later exists, and once a `seal_t` or a `terminate_t` was
made the machine is never active again. `Ordered` holds in every run
(`Ordered.effect`).
-/

namespace Cocaine.Node.Slave

open Framework

/-- The states after `spawn_t` that hold what the isolate and the worker gave. -/
def Kind.late : Kind → Bool
  | .handshaking | .active | .seal | .terminate => true
  | _ => false

/-- The states that are not left for an active one. -/
def Kind.over : Kind → Bool
  | .seal | .terminate | .inactive _ => true
  | _ => false

structure Ordered (m : Machine) : Prop where
  /-- While a spawn timer is armed its `spawn_t` is current and nothing later was
  made. -/
  armed : ∀ r, (m.objs r).kind = .spawn → (m.objs r).timer.armed = true →
    r = m.state ∧ ∀ r', (m.objs r').kind.late = false
  split : ∀ r h, (m.objs r).handshaking = some h → (m.objs r).timer.armed = false
  prep : m.preparation ≠ .done → ∀ r, (m.objs r).kind ≠ .spawn ∧ (m.objs r).kind.late = false
  /-- After sealing or terminating began the machine does not go back. -/
  sealed : ∀ r, (m.objs r).kind = .seal ∨ (m.objs r).kind = .terminate →
    (m.objs m.state).kind.over = true

namespace Ordered

variable {m m' : Machine}

theorem init : Ordered {} := by
  constructor <;> simp [Kind.late]

theorem congr (h : Ordered m) (h1 : m'.state = m.state) (h2 : m'.objs = m.objs)
    (h3 : m'.preparation = m.preparation) : Ordered m' := by
  constructor <;> simp only [h1, h2, h3]
  · exact h.armed
  · exact h.split
  · exact h.prep
  · exact h.sealed

/-- The timer of `r` may be started: it is late, or it is current and nothing late was made. -/
structure Armable (m : Machine) (r : Nat) : Prop where
  whole : (m.objs r).handshaking = none
  place : (m.objs r).kind.late = true ∨ r = m.state ∧ ∀ r', (m.objs r').kind.late = false

/-- The classes stay. A timer is armed that was or may be, and a `spawn_t` that is split now has no
armed timer. -/
theorem resemble (h : Ordered m) (hk : ∀ r, (m'.objs r).kind = (m.objs r).kind)
    (ha : ∀ r, (m'.objs r).timer.armed = true → (m.objs r).timer.armed = true ∨ Armable m r)
    (hs : ∀ r x, (m'.objs r).handshaking = some x →
      (m.objs r).handshaking = some x ∨ (m'.objs r).timer.armed = false)
    (hstate : m'.state = m.state) (hprep : m'.preparation = m.preparation) : Ordered m' := by
  refine ⟨fun r hspawn harmed => ?_, fun r x hx => ?_, fun hp r => ?_, fun r hr => ?_⟩
  · rw [hk] at hspawn
    have hplace : r = m.state ∧ ∀ r', (m.objs r').kind.late = false := by
      obtain hold | hnew := ha r harmed
      · exact h.armed r hspawn hold
      · refine hnew.place.resolve_left ?_
        rw [hspawn]
        exact Bool.false_ne_true
    simpa only [hk, hstate] using hplace
  · obtain hold | hnew := hs r x hx
    · by_contra hne
      obtain harmed | harmable := ha r (by simpa using hne)
      · cases (h.split r x hold).symm.trans harmed
      · cases hold.symm.trans harmable.whole
    · exact hnew
  · rw [hk]
    exact h.prep (hprep ▸ hp) r
  · rw [hk] at hr
    rw [hk, hstate]
    exact h.sealed r hr

variable {f : StateObj → StateObj}

theorem change (h : Ordered m) (r : Nat) (hk : (f (m.objs r)).kind = (m.objs r).kind)
    (ha : (f (m.objs r)).timer.armed = true → (m.objs r).timer.armed = true ∨ Armable m r)
    (hs : ∀ x, (f (m.objs r)).handshaking = some x →
      (m.objs r).handshaking = some x ∨ (f (m.objs r)).timer.armed = false) :
    Ordered (m.modify r f) := by
  refine h.resemble ?_ ?_ ?_ rfl rfl
  · exact (Function.forall_update_iff m.objs fun r o => o.kind = (m.objs r).kind).mpr
      ⟨hk, fun _ _ => rfl⟩
  · exact (Function.forall_update_iff m.objs fun r o =>
      o.timer.armed = true → (m.objs r).timer.armed = true ∨ Armable m r).mpr
      ⟨ha, fun _ _ harmed => .inl harmed⟩
  · exact (Function.forall_update_iff m.objs fun r o => ∀ x, o.handshaking = some x →
      (m.objs r).handshaking = some x ∨ o.timer.armed = false).mpr
      ⟨hs, fun _ _ _ hx => .inl hx⟩

theorem modify (h : Ordered m) (r : Nat) (hk : (f (m.objs r)).kind = (m.objs r).kind)
    (ha : (f (m.objs r)).timer.armed = true → (m.objs r).timer.armed = true)
    (hs : (f (m.objs r)).handshaking = (m.objs r).handshaking) : Ordered (m.modify r f) :=
  h.change r hk (fun harmed => .inl (ha harmed)) fun _ hx => .inl (hs ▸ hx)

theorem setTimer (h : Ordered m) (r : Nat) {t : Timer}
    (ht : t.armed = true → (m.objs r).timer.armed = true) : Ordered (m.setTimer r t) :=
  h.modify r rfl ht rfl

theorem cancel (h : Ordered m) (r : Nat) : Ordered (m.cancel r) := h.setTimer r (by simp)

variable {r : Nat}

theorem arm (h : Ordered m) (hr : (m.objs r).kind.late = true)
    (hn : (m.objs r).handshaking = none) : Ordered (m.setTimer r (m.objs r).timer.start) :=
  h.change r rfl (fun _ => .inr ⟨hn, .inl hr⟩) fun _ hx => .inl hx

theorem enter (h : Ordered m) {o : StateObj}
    (hu : ∀ r, (m.objs r).kind = .spawn → (m.objs r).timer.armed = false)
    (hidle : o.timer.armed = false)
    (hprep : m.preparation ≠ .done → o.kind ≠ .spawn ∧ o.kind.late = false)
    (hover : ∀ r, (m.objs r).kind = .seal ∨ (m.objs r).kind = .terminate → o.kind.over = true) :
    Ordered ((m.alloc o).migrate m.fresh) := by
  have hcur : (((m.alloc o).migrate m.fresh).objs m.fresh) = o := Function.update_self ..
  refine ⟨?_, ?_, fun hp => ?_, ?_⟩
  · refine (Function.forall_update_iff m.objs fun r o' => o'.kind = .spawn → o'.timer.armed = true →
      r = m.fresh ∧ ∀ r', (((m.alloc o).migrate m.fresh).objs r').kind.late = false).mpr
      ⟨fun _ harmed => ?_, fun r _ hk harmed => ?_⟩
    · cases hidle.symm.trans harmed
    · cases (hu r hk).symm.trans harmed
  · exact (Function.forall_update_iff m.objs fun r o' => ∀ x, o'.handshaking = some x →
      o'.timer.armed = false).mpr ⟨fun _ _ => hidle, fun r _ => h.split r⟩
  · exact (Function.forall_update_iff m.objs fun _ o' => o'.kind ≠ .spawn ∧ o'.kind.late = false).mpr
      ⟨hprep hp, fun r _ => h.prep hp r⟩
  · refine (Function.forall_update_iff m.objs fun _ o' => o'.kind = .seal ∨ o'.kind = .terminate →
      (((m.alloc o).migrate m.fresh).objs m.fresh).kind.over = true).mpr
      ⟨fun hk => ?_, fun r _ hk => ?_⟩
    · rw [hcur]
      obtain hk | hk := hk
      · rw [hk]
        rfl
      · rw [hk]
        rfl
    · rw [hcur]
      exact hover r hk

/-- Once something late was made no spawn timer is armed. -/
theorem unarmed_of_late (h : Ordered m) (hr : (m.objs r).kind.late = true) {r' : Nat}
    (hk : (m.objs r').kind = .spawn) : (m.objs r').timer.armed = false := by
  by_contra harmed
  cases hr.symm.trans ((h.armed r' hk (by simpa using harmed)).2 r)

/-- Only the current state may have an armed spawn timer, so none is left when that is cancelled. -/
theorem unarmed_cancel (h : Ordered m) (hk : ((m.cancel m.state).objs r).kind = .spawn) :
    ((m.cancel m.state).objs r).timer.armed = false := by
  by_contra harmed
  obtain ⟨rfl, -⟩ := (h.cancel m.state).armed r hk (by simpa using harmed)
  simp at harmed

theorem handOver (h : Ordered m) (hr : (m.objs r).kind.late = true) {k : Kind}
    (hk : k = .seal ∨ k = .terminate) : Ordered (m.handOver r k) := by
  have hm : Ordered (m.setRes r {}) := h.modify r rfl id rfl
  have hr' : ((m.setRes r {}).objs r).kind.late = true := by simpa using hr
  have hentered : Ordered (((m.setRes r {}).alloc { kind := k, res := (m.objs r).res }).migrate
      m.fresh) := by
    refine hm.enter (fun r' => hm.unarmed_of_late hr') rfl (fun hp => ?_) fun _ _ => ?_
    · cases hr.symm.trans (h.prep hp r).2
    · obtain rfl | rfl := hk
      · rfl
      · rfl
  exact hentered.congr rfl rfl rfl

/-! ## Shutting down, terminating and sealing -/

theorem shutdown (h : Ordered m) (ec : ErrorCode) : Ordered (m.shutdown ec) := by
  unfold Machine.shutdown
  split
  · exact h
  · have hs : Ordered { m with shutdowned := true } := h.congr rfl rfl rfl
    have h' : Ordered (m.enterInactive (m.shutdownCode ec)) :=
      (hs.cancel m.state).enter (fun r => hs.unarmed_cancel) rfl (fun _ => ⟨by simp, rfl⟩)
        fun _ _ => rfl
    dsimp only
    split <;> exact h'.congr rfl rfl rfl

theorem controlTerminate (h : Ordered m) (c : Option Nat) (ec : ErrorCode) (lost : Bool) :
    Ordered (m.controlTerminate c ec lost) := by
  have h' : Ordered (m.note (.controlTerminate ec)) := h.congr rfl rfl rfl
  unfold Machine.controlTerminate
  split
  · exact h.congr rfl rfl rfl
  · dsimp only
    split
    · exact h'.shutdown _
    · exact h'

theorem activeTerminate (h : Ordered m) (hr : (m.objs r).kind.late = true)
    (ec : ErrorCode) (lost : Bool) : Ordered (m.activeTerminate r ec lost) := by
  refine controlTerminate ((h.handOver hr (.inr rfl)).arm ?_ ?_) _ ec lost
  · simp [Machine.handOver, Kind.late]
  · simp [Machine.handOver]

theorem sealTerminate (h : Ordered m) (hr : (m.objs r).kind.late = true)
    (ec : ErrorCode) (lost : Bool) : Ordered (m.sealTerminate r ec lost) := by
  refine (h.cancel r).activeTerminate ?_ ec lost
  simpa using hr

theorem stateTerminate (h : Ordered m) (r : Nat) (ec : ErrorCode) (lost : Bool) :
    Ordered (m.stateTerminate r ec lost) := by
  unfold Machine.stateTerminate
  split
  case h_1 => exact h.shutdown ec
  case h_2 | h_3 | h_4 => exact (h.cancel _).shutdown ec
  case h_5 hk => exact h.activeTerminate (by rw [hk]; rfl) ec lost
  case h_6 hk => exact h.sealTerminate (by rw [hk]; rfl) ec lost
  case h_7 => exact h

theorem terminate (h : Ordered m) (ec : ErrorCode) (lost : Bool) :
    Ordered (m.terminate ec lost) := by
  have h' : Ordered { m.note (.terminate ec) with closed := true } := h.congr rfl rfl rfl
  unfold Machine.terminate
  dsimp only
  split
  · exact h.congr rfl rfl rfl
  · exact (h'.stateTerminate m.state ec lost).congr rfl rfl rfl

theorem machineSeal (h : Ordered m) (lost : Bool) : Ordered (m.machineSeal lost) := by
  unfold Machine.machineSeal
  split
  · rename_i hk
    have hl : (m.objs m.state).kind.late = true := by rw [← Machine.cur, hk]; rfl
    have h' := h.handOver hl (k := .seal) (.inl rfl)
    have hn : ((m.handOver m.state .seal).objs m.fresh).kind.late = true := by
      simp [Machine.handOver, Kind.late]
    unfold Machine.activeSeal Machine.sealStart
    split
    · exact h'.sealTerminate hn _ lost
    · exact h'.arm hn (by simp [Machine.handOver])
  · exact h

/-! ## From the token to the active state -/

/-- A step of the preparation, which was not done. -/
theorem prepare (h : Ordered m) (hp : m.preparation ≠ .done) (p : Preparation) :
    Ordered { m with preparation := p } :=
  { h with prep := fun _ => h.prep hp }

theorem onRefresh (h : Ordered m) (hp : m.preparation ≠ .done) (ec : ErrorCode)
    (out : Machine.SpawnOutcome) : Ordered ({ m with preparation := .done }.onRefresh ec out) := by
  have hd := h.prepare hp .done
  unfold Machine.onRefresh
  split
  · exact hd.shutdown ec
  · have h' : Ordered (({ m with preparation := .done }.alloc { kind := .spawn }).migrate m.fresh) := by
      refine hd.enter (fun r hk => absurd hk (h.prep hp r).1) rfl (fun hne => absurd rfl hne) ?_
      -- The machine may be shut down by now, but nothing was sealed.
      intro r hk
      have hlate : (m.objs r).kind.late = false := (h.prep hp r).2
      obtain hk | hk := hk
      · rw [show (m.objs r).kind = .seal from hk] at hlate
        cases hlate
      · rw [show (m.objs r).kind = .terminate from hk] at hlate
        cases hlate
    have harmable : Armable (({ m with preparation := .done }.alloc { kind := .spawn }).migrate m.fresh)
        m.fresh := by
      refine ⟨by simp, .inr ⟨rfl, ?_⟩⟩
      exact (Function.forall_update_iff m.objs fun _ o => o.kind.late = false).mpr
        ⟨rfl, fun r _ => (h.prep hp r).2⟩
    cases out with
    | locatorNotFound => exact h'.shutdown _
    | emptyLocatorEndpoints => exact h'.shutdown _
    | isolateThrows ec => exact h'.congr rfl rfl rfl
    | spawnThrows ec =>
      have ht := h'.change m.fresh (f := fun o => { o with timer := o.timer.start }) rfl
        (fun _ => .inr harmable) fun _ hx => .inl hx
      exact ht.congr rfl rfl rfl
    | spawned =>
      have ht := h'.change m.fresh (f := fun o => { o with
        timer := o.timer.start, awaited := true, res := { o.res with handle := some m.handles } }) rfl
        (fun _ => .inr harmable) fun _ hx => .inl hx
      exact ht.congr rfl rfl rfl

/-- The machine may become active: it is still to be, and no spawn timer is armed. -/
structure Awaiting (m : Machine) : Prop where
  cur : (m.objs m.state).kind.over = false
  done : m.preparation = .done
  unarmed : ∀ r, (m.objs r).kind = .spawn → (m.objs r).timer.armed = false

namespace Awaiting

theorem modify (hw : Awaiting m) (r : Nat) (hk : (f (m.objs r)).kind = (m.objs r).kind)
    (ha : (f (m.objs r)).timer.armed = true → (m.objs r).timer.armed = true) :
    Awaiting (m.modify r f) := by
  have hkind : ∀ r', ((m.modify r f).objs r').kind = (m.objs r').kind :=
    (Function.forall_update_iff m.objs fun r o => o.kind = (m.objs r).kind).mpr ⟨hk, fun _ _ => rfl⟩
  refine ⟨?_, hw.done, ?_⟩
  · exact (congrArg Kind.over (hkind m.state)).trans hw.cur
  · refine (Function.forall_update_iff m.objs fun r o => o.kind = .spawn → o.timer.armed = false).mpr
      ⟨fun hspawn => ?_, fun r' _ => hw.unarmed r'⟩
    by_contra harmed
    cases (hw.unarmed r (hk.symm.trans hspawn)).symm.trans (ha (by simpa using harmed))

theorem enter (hw : Awaiting m) {o : StateObj} (hover : o.kind.over = false)
    (hidle : o.timer.armed = false) : Awaiting ((m.alloc o).migrate m.fresh) := by
  refine ⟨?_, hw.done, ?_⟩
  · show (Function.update m.objs m.fresh o m.fresh).kind.over = false
    rw [Function.update_self]
    exact hover
  · exact (Function.forall_update_iff m.objs fun r o => o.kind = .spawn → o.timer.armed = false).mpr
      ⟨fun _ => hidle, fun r _ => hw.unarmed r⟩

theorem ordered (hw : Awaiting m) (h : Ordered m) {o : StateObj} (hidle : o.timer.armed = false) :
    Ordered ((m.alloc o).migrate m.fresh) := by
  refine h.enter hw.unarmed hidle (fun hp => absurd hw.done hp) fun r hk => ?_
  cases hw.cur.symm.trans (h.sealed r hk)

end Awaiting

theorem handshakingActivate (h : Ordered m) (hw : Awaiting m) (x : Nat)
    (session control : Option Nat) (throws : Bool) :
    Ordered (m.handshakingActivate x session control throws).1 := by
  have hm : Ordered (m.setRes x {}) := h.modify x rfl id rfl
  have hwm : Awaiting (m.setRes x {}) := hw.modify x rfl id
  unfold Machine.handshakingActivate
  dsimp only
  split
  · exact hm.congr rfl rfl rfl
  · split
    · exact hm.congr rfl rfl rfl
    · rename_i c _
      have hentered := hwm.ordered hm (o := { kind := .active, res :=
        { handle := (m.objs x).res.handle, control := some c, session := session } }) rfl
      exact hentered.congr rfl rfl rfl

theorem handshakingHandshake (h : Ordered m) (hw : Awaiting m) (x : Nat) (throws : Bool) :
    Ordered (m.handshakingHandshake x throws).1 := by
  have h' : Ordered (m.cancel x).newLink := (h.cancel x).congr rfl rfl rfl
  have hwx : Awaiting (m.cancel x) :=
    hw.modify x (f := fun o => { o with timer := (m.objs x).timer.cancel }) rfl (by simp)
  have hw' : Awaiting (m.cancel x).newLink := ⟨hwx.cur, hwx.done, hwx.unarmed⟩
  have ha := h'.handshakingActivate hw' x (some m.links) (some m.links) throws
  unfold Machine.handshakingHandshake
  split
  · exact h.cancel x
  · dsimp only
    split
    · exact ha.shutdown _
    · exact ha

theorem activate (h : Ordered m) (throws : Bool) : Ordered (m.activate throws).1 := by
  unfold Machine.activate
  split
  · rename_i hk
    have hs : (m.objs m.state).kind = .spawn := hk
    split
    · rename_i x hx
      refine h.handshakingHandshake ⟨by rw [hs]; rfl, ?_, fun r hr => ?_⟩ x throws
      · by_contra hp
        exact (h.prep hp m.state).1 hs
      · -- An armed spawn state is the current one, which `on_spawn` has already left.
        by_contra ha
        obtain ⟨rfl, -⟩ := h.armed r hr (by simpa using ha)
        exact ha (h.split _ x hx)
    · have hm : Ordered m.newLink := h.congr rfl rfl rfl
      exact hm.modify m.state (f := fun o => { o with res := { m.cur.res with
        control := some m.links, session := some m.links } }) rfl id rfl
  · rename_i hk
    have hl : (m.objs m.state).kind = .handshaking := hk
    refine h.handshakingHandshake ⟨by rw [hl]; rfl, ?_, fun r hr => ?_⟩ m.state throws
    · by_contra hp
      have := (h.prep hp m.state).2
      simp [hl, Kind.late] at this
    · by_contra ha
      have := (h.armed r hr (by simpa using ha)).2 m.state
      simp [hl, Kind.late] at this
  · exact h

theorem onSpawned (h : Ordered m) (hw : Awaiting m) (hr : (m.objs r).timer.armed = false)
    (throws : Bool) : Ordered (m.onSpawned r throws) := by
  have hm := h.change r (f := fun o => { o with
    res := { o.res with handle := none }, handshaking := some m.fresh }) rfl .inl fun _ _ => .inr hr
  have hwm := hw.modify r (f := fun o => { o with
    res := { o.res with handle := none }, handshaking := some m.fresh }) rfl id
  have h' : Ordered (m.enterHandshaking r) := hwm.ordered hm rfl
  have hw' : Awaiting ((m.enterHandshaking r).setRes r {}) := (hwm.enter rfl rfl).modify r rfl id
  have ha : ∀ session control, Ordered (((m.enterHandshaking r).setRes r {}).handshakingActivate
      m.fresh session control throws).1 :=
    fun session control => (h'.modify r rfl id rfl).handshakingActivate hw' _ session control throws
  unfold Machine.onSpawned
  dsimp only
  split
  · split
    · exact (ha _ _).congr rfl rfl rfl
    · exact ha _ _
  · split
    · exact h'.congr rfl rfl rfl
    · exact h'.arm (by simp [Machine.enterHandshaking, Kind.late])
        (by simp [Machine.enterHandshaking])

theorem onReady (h : Ordered m) (hr : (m.objs r).kind = .spawn) (throws : Bool) :
    Ordered (m.onReady r throws) := by
  refine modify ?_ r rfl id rfl
  unfold Machine.onSpawn
  split
  · exact h.cancel r
  · rename_i hpend
    obtain ⟨rfl, -⟩ := h.armed r hr (by simpa using hpend)
    refine (h.cancel m.state).onSpawned ⟨?_, ?_, fun r' => h.unarmed_cancel⟩ (by simp) throws
    · simp [hr, Kind.over]
    · by_contra hp
      exact (h.prep hp m.state).1 hr

theorem onTimeout (h : Ordered m) (r : Nat) (lost : Bool) : Ordered (m.onTimeout r lost) := by
  unfold Machine.onTimeout
  split
  case h_3 hk => exact h.sealTerminate (by rw [hk]; rfl) _ lost
  case h_5 => exact h
  all_goals exact h.shutdown _

/-! ## Control and channels -/

theorem destroy (h : Ordered m) (r : Nat) : Ordered (m.destroy r) := by
  have h' : Ordered (m.modify r fun o => { o with res := {}, dead := true }) :=
    h.modify r rfl id rfl
  unfold Machine.destroy
  dsimp only
  split <;> exact h'.congr rfl rfl rfl

theorem maybeNotify (h : Ordered m) (c : Nat) (f : Chan → Chan) (lost : Bool) :
    Ordered ((m.setChan c f).maybeNotify c lost) := by
  have h' : Ordered ((m.setChan c f).dropChannel c) := h.congr rfl rfl rfl
  unfold Machine.maybeNotify Machine.revoke
  dsimp only
  split
  · split
    · exact (h'.stateTerminate _ _ lost).congr rfl rfl rfl
    · exact h'.congr rfl rfl rfl
  · exact h.congr rfl rfl rfl

/-! ## Steps -/

theorem routine : Routine Ordered where
  aside h hobjs hstate _ _ _ _ hprep _ := h.congr hstate hobjs hprep
  shutdown ec h := h.shutdown ec
  maybeNotify c f lost h := h.maybeNotify c f lost

theorem effect (h : Ordered m) {a : Act} (he : m.enabled a = true) : Ordered (m.effect a) := by
  cases a with
  | prepare throws => exact h.prepare (by simp_all [Machine.enabled]) _
  | token ec => exact h.prepare (by simp_all [Machine.enabled]) _
  | refresh ec out => exact h.onRefresh (by simp_all [Machine.enabled]) ec out
  | abandon => exact (h.prepare (by simp_all [Machine.enabled]) _).shutdown _
  | ready r throws => exact h.onReady (by simp_all [Machine.enabled]) throws
  | exited r ec => exact (h.modify r rfl id rfl).shutdown ec
  | activate throws => exact h.activate throws
  | doSeal lost => exact h.machineSeal lost
  | terminate ec lost => exact h.terminate ec lost
  | expire r => exact h.setTimer r (by simp)
  | timeout r ec lost =>
    simp only [Machine.effect]
    split
    · exact h
    · exact (h.setTimer r (t := (m.objs r).timer.complete) (by simp)).onTimeout r lost
  | destroy r => exact h.destroy r
  | runCleanup ec => exact h.congr rfl rfl rfl
  | _ => exact Ordered.routine.effect h rfl

end Ordered

end Cocaine.Node.Slave
