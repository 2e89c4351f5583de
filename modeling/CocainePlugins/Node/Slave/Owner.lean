import CocainePlugins.Node.Slave.Step

/-!
# Who owns the worker

The isolate's handle, the control channel and the session move from state object
to state object, and the object they leave stays in the heap. `Owned` says that
each of them is in one place and that the current `active_t` or `seal_t` has
them, which is what makes a transition out of it legal. Only the completion of
the seal timer acts on an object that need not be current (`Unspent`).
-/

namespace Cocaine.Node.Slave

open Framework

/-- The classes that hand their resources over. -/
def Kind.yields : Kind → Bool
  | .active | .seal => true
  | _ => false

/-- Single ownership, with what the transitions of the run so far did. -/
structure SingleOwner (m : Machine) : Prop where
  handle : ∀ r r' x, (m.objs r).res.handle = some x → (m.objs r').res.handle = some x → r = r'
  control : ∀ r r' x, (m.objs r).res.control = some x → (m.objs r').res.control = some x → r = r'
  session : ∀ r r' x, (m.objs r).res.session = some x → (m.objs r').res.session = some x → r = r'
  /-- Every `active_t`, `seal_t` and `terminate_t` got a control channel and a
  session. -/
  built : ∀ k res, .built k res ∈ m.log → res.control.isSome = true ∧ res.session.isSome = true
  /-- No object was handed over twice. -/
  handed : ∀ r, m.log.count (.handed r) ≤ 1

/-- The handler of an expired seal timer whose `seal_t` has given up its control
channel. -/
def Machine.stale (m : Machine) : Act → Bool
  | .timeout r ec _ => (m.objs r).kind == .seal && !ec.failed && (m.objs r).res.control.isNone
  | _ => false

def Unspent (m : Machine) (a : Act) : Prop := m.stale a = false

instance (m : Machine) (a : Act) : Decidable (Unspent m a) := inferInstanceAs (Decidable (_ = _))

structure Owned (m : Machine) : Prop where
  handle : ∀ r r' x, (m.objs r).res.handle = some x → (m.objs r').res.handle = some x → r = r'
  control : ∀ r r' x, (m.objs r).res.control = some x → (m.objs r').res.control = some x → r = r'
  handles : ∀ r x, (m.objs r).res.handle = some x → x < m.handles
  links : ∀ r x, (m.objs r).res.control = some x → x < m.links
  /-- A control channel and its session go together. -/
  paired : ∀ r, (m.objs r).res.session = (m.objs r).res.control
  /-- The current state can be sealed or terminated. -/
  ready : (m.objs m.state).kind.yields = true → (m.objs m.state).res.control.isSome = true
  fresh : ∀ r, m.fresh ≤ r → (m.objs r).res = {} ∧ (m.objs r).kind = .preparation
  state : m.state < m.fresh
  built : ∀ k res, .built k res ∈ m.log → res.control.isSome = true ∧ res.session = res.control
  spent : ∀ r, .handed r ∈ m.log →
    r < m.fresh ∧ (m.objs r).kind.yields = true ∧ (m.objs r).res.control = none
  handed : ∀ r, m.log.count (.handed r) ≤ 1

variable {r : Nat}

/-- A partial injection is one still when a value that no other argument has is put at `r`. -/
theorem injective_of_change {f g : Nat → Option Nat}
    (h : ∀ a b x, f a = some x → f b = some x → a = b) (hother : ∀ a, a ≠ r → g a = f a)
    (hr : ∀ x, g r = some x → ∀ a, a ≠ r → f a ≠ some x) :
    ∀ a b x, g a = some x → g b = some x → a = b := by
  intro a b x ha hb
  by_cases har : a = r
  · by_cases hbr : b = r
    · rw [har, hbr]
    · rw [har] at ha
      rw [hother b hbr] at hb
      exact absurd hb (hr x ha b hbr)
  · rw [hother a har] at ha
    by_cases hbr : b = r
    · rw [hbr] at hb
      exact absurd ha (hr x hb a har)
    · rw [hother b hbr] at hb
      exact h a b x ha hb

namespace Owned

variable {m m' : Machine}

theorem init : Owned {} := by
  constructor <;> simp [Kind.yields]

theorem singleOwner (h : Owned m) : SingleOwner m where
  handle := h.handle
  control := h.control
  session r r' x := by
    rw [h.paired, h.paired]
    exact h.control r r' x
  built k res hb := by
    obtain ⟨h1, h2⟩ := h.built k res hb
    rw [h2]
    exact ⟨h1, h1⟩
  handed := h.handed

/-- Of the state objects only their classes and their resources matter. -/
theorem resemble (h : Owned m) (hk : ∀ r, (m'.objs r).kind = (m.objs r).kind)
    (hr : ∀ r, (m'.objs r).res = (m.objs r).res) (hstate : m'.state = m.state)
    (hfresh : m'.fresh = m.fresh) (hhandles : m'.handles = m.handles) (hlinks : m'.links = m.links)
    (hlog : m'.log = m.log) : Owned m' := by
  constructor <;> simp only [hk, hr, hstate, hfresh, hhandles, hlinks, hlog]
  · exact h.handle
  · exact h.control
  · exact h.handles
  · exact h.links
  · exact h.paired
  · exact h.ready
  · exact h.fresh
  · exact h.state
  · exact h.built
  · exact h.spent
  · exact h.handed

theorem congr (h : Owned m) (h1 : m'.objs = m.objs) (h2 : m'.state = m.state)
    (h3 : m'.fresh = m.fresh) (h4 : m'.handles = m.handles) (h5 : m'.links = m.links)
    (h6 : m'.log = m.log) : Owned m' :=
  h.resemble (fun r => by rw [h1]) (fun r => by rw [h1]) h2 h3 h4 h5 h6

theorem post (h : Owned m) (t : Task) : Owned (m.post t) := h.congr rfl rfl rfl rfl rfl rfl

theorem modify (h : Owned m) (r : Nat) {f : StateObj → StateObj}
    (hk : (f (m.objs r)).kind = (m.objs r).kind) (hr : (f (m.objs r)).res = (m.objs r).res) :
    Owned (m.modify r f) := by
  refine h.resemble (fun r' => ?_) (fun r' => ?_) rfl rfl rfl rfl rfl
  · by_cases hne : r' = r
    · subst hne
      simpa using hk
    · simp [hne]
  · by_cases hne : r' = r
    · subst hne
      simpa using hr
    · simp [hne]

theorem setTimer (h : Owned m) (r : Nat) (t : Timer) : Owned (m.setTimer r t) :=
  h.modify r rfl rfl

/-- What the state object `r` may hold: nothing that another one has. -/
structure Apart (objs : Nat → StateObj) (r handles links : Nat) (res : Resources) : Prop where
  handle : ∀ x, res.handle = some x → x < handles ∧ ∀ a, a ≠ r → (objs a).res.handle ≠ some x
  control : ∀ x, res.control = some x → x < links ∧ ∀ a, a ≠ r → (objs a).res.control ≠ some x
  paired : res.session = res.control

theorem Apart.empty (objs : Nat → StateObj) (r handles links : Nat) : Apart objs r handles links {} :=
  ⟨by simp, by simp, rfl⟩

variable {o : StateObj}

/-- One state object is replaced, and another one may become current. -/
theorem replace (h : Owned m)
    (hobjs : m'.objs = Function.update m.objs r o) (hapart : Apart m.objs r m'.handles m'.links o.res)
    (hready : (m'.objs m'.state).kind.yields = true → (m'.objs m'.state).res.control.isSome = true)
    (hr : m'.fresh ≤ r → o.res = {} ∧ o.kind = .preparation) (hstate : m'.state < m'.fresh)
    (hfresh : m.fresh ≤ m'.fresh) (hhandles : m.handles ≤ m'.handles) (hlinks : m.links ≤ m'.links)
    (hspent : .handed r ∈ m.log → o.kind.yields = true ∧ o.res.control = none)
    (hlog : m'.log = m.log) : Owned m' := by
  have hself : m'.objs r = o := by rw [hobjs, Function.update_self]
  have hother : ∀ a, a ≠ r → m'.objs a = m.objs a := fun a ha => by
    rw [hobjs, Function.update_of_ne ha]
  refine ⟨?_, ?_, ?_, ?_, ?_, hready, fun a ha => ?_, hstate, ?_, fun a ha => ?_, ?_⟩
  · refine injective_of_change h.handle (fun a ha => by rw [hother a ha]) ?_
    rw [hself]
    exact fun x hx => (hapart.handle x hx).2
  · refine injective_of_change h.control (fun a ha => by rw [hother a ha]) ?_
    rw [hself]
    exact fun x hx => (hapart.control x hx).2
  · rw [hobjs]
    exact (Function.forall_update_iff m.objs fun _ o => ∀ x, o.res.handle = some x →
      x < m'.handles).mpr ⟨fun x hx => (hapart.handle x hx).1,
        fun a _ x hx => Nat.lt_of_lt_of_le (h.handles a x hx) hhandles⟩
  · rw [hobjs]
    exact (Function.forall_update_iff m.objs fun _ o => ∀ x, o.res.control = some x →
      x < m'.links).mpr ⟨fun x hx => (hapart.control x hx).1,
        fun a _ x hx => Nat.lt_of_lt_of_le (h.links a x hx) hlinks⟩
  · rw [hobjs]
    exact (Function.forall_update_iff m.objs fun _ o => o.res.session = o.res.control).mpr
      ⟨hapart.paired, fun a _ => h.paired a⟩
  · by_cases hne : a = r
    · subst hne
      rw [hself]
      exact hr ha
    · rw [hother a hne]
      exact h.fresh a (Nat.le_trans hfresh ha)
  · rw [hlog]
    exact h.built
  · rw [hlog] at ha
    obtain ⟨hlt, hk, hc⟩ := h.spent a ha
    refine ⟨Nat.lt_of_lt_of_le hlt hfresh, ?_⟩
    by_cases hne : a = r
    · subst hne
      rw [hself]
      exact hspent ha
    · rw [hother a hne]
      exact ⟨hk, hc⟩
  · rw [hlog]
    exact h.handed

/-- Giving up what a state object holds, unless it is the current one and may be sealed. -/
theorem release (h : Owned m) (hr : r = m.state → (m.objs r).kind.yields = false)
    {f : StateObj → StateObj} (hk : (f (m.objs r)).kind = (m.objs r).kind)
    (hf : (f (m.objs r)).res = {}) : Owned (m.modify r f) := by
  refine h.replace rfl (hf ▸ .empty ..) ?_ ?_ h.state (Nat.le_refl _) (Nat.le_refl _)
    (Nat.le_refl _) ?_ rfl
  · by_cases hne : m.state = r
    · intro hy
      simp [hne, hk, hr hne.symm] at hy
    · simpa [hne] using h.ready
  · exact fun hle => ⟨hf, hk.trans (h.fresh r hle).2⟩
  · exact fun hmem => ⟨(congrArg Kind.yields hk).trans (h.spent r hmem).2.1, by rw [hf]⟩

theorem note (h : Owned m) {o : Obs} (hb : ∀ k res, o ≠ .built k res) (hh : ∀ r, o ≠ .handed r) :
    Owned (m.note o) :=
  { h with
    built := fun k res hmem => h.built k res ((List.mem_cons.mp hmem).resolve_left (hb k res).symm)
    spent := fun r hmem => h.spent r ((List.mem_cons.mp hmem).resolve_left (hh r).symm)
    handed := fun r => by
      show (o :: m.log).count (.handed r) ≤ 1
      rw [List.count_cons_of_ne (hh r)]
      exact h.handed r }

theorem alloc (h : Owned m) (ho : Apart m.objs m.fresh m.handles m.links o.res)
    (hk : o.kind.yields = true → o.res.control.isSome = true) :
    Owned ((m.alloc o).migrate m.fresh) := by
  refine h.replace rfl ho ?_ ?_ (Nat.lt_succ_self _) (Nat.le_succ _) (Nat.le_refl _)
    (Nat.le_refl _) ?_ rfl
  · simpa using hk
  · exact fun hle => absurd hle (Nat.not_succ_le_self _)
  · exact fun hmem => absurd (h.spent _ hmem).1 (Nat.lt_irrefl _)

theorem enter (h : Owned m) (ho : o.res = {}) (hk : o.kind.yields = false) :
    Owned ((m.alloc o).migrate m.fresh) := by
  refine h.alloc (ho ▸ .empty ..) fun hy => ?_
  cases hk.symm.trans hy

/-! ## Shutting down, terminating and sealing -/

theorem shutdown (h : Owned m) (ec : ErrorCode) : Owned (m.shutdown ec) := by
  have h' : Owned (m.enterInactive (m.shutdownCode ec)) := by
    have hs : Owned { m with shutdowned := true } := h.congr rfl rfl rfl rfl rfl rfl
    exact (hs.setTimer _ _).enter rfl rfl
  unfold Machine.shutdown
  split
  · exact h
  · dsimp only
    split <;> exact h'.congr rfl rfl rfl rfl rfl rfl

theorem controlTerminate (h : Owned m) (c : Option Nat) (ec : ErrorCode) (lost : Bool) :
    Owned (m.controlTerminate c ec lost) := by
  have h' : Owned (m.note (.controlTerminate ec)) := h.note (by simp) (by simp)
  unfold Machine.controlTerminate
  split
  · exact h.congr rfl rfl rfl rfl rfl rfl
  · dsimp only
    split
    · exact h'.shutdown _
    · exact h'

theorem noteBuilt (h : Owned m) (k : Kind) {res : Resources} (hc : res.control.isSome = true)
    (hs : res.session = res.control) : Owned (m.note (.built k res)) :=
  { h with
    built := fun k' res' hmem => by
      rcases List.mem_cons.mp hmem with heq | hmem
      · cases heq
        exact ⟨hc, hs⟩
      · exact h.built k' res' hmem
    spent := fun r hmem => h.spent r ((List.mem_cons.mp hmem).resolve_left (by simp))
    handed := fun r => by
      show (Obs.built k res :: m.log).count (.handed r) ≤ 1
      rw [List.count_cons_of_ne (by simp)]
      exact h.handed r }

theorem noteHanded (h : Owned m) (hr : r < m.fresh)
    (hk : (m.objs r).kind.yields = true) (hc : (m.objs r).res.control = none)
    (hnew : .handed r ∉ m.log) : Owned (m.note (.handed r)) :=
  { h with
    built := fun k res hmem => h.built k res ((List.mem_cons.mp hmem).resolve_left (by simp))
    spent := fun a hmem => by
      rcases List.mem_cons.mp hmem with heq | hmem
      · cases heq
        exact ⟨hr, hk, hc⟩
      · exact h.spent a hmem
    handed := fun a => by
      show (Obs.handed r :: m.log).count (.handed a) ≤ 1
      by_cases hne : a = r
      · refine Nat.le_of_eq ?_
        rw [hne, List.count_cons_self, List.count_eq_zero.mpr hnew]
      · rw [List.count_cons_of_ne (by simpa using Ne.symm hne)]
        exact h.handed a }

theorem handle_freed (h : Owned m) (ho : o.res.handle = none) {x : Nat}
    (hx : (m.objs r).res.handle = some x) (a : Nat) :
    (Function.update m.objs r o a).res.handle ≠ some x :=
  (Function.forall_update_iff m.objs fun _ o => o.res.handle ≠ some x).mpr
    ⟨by simp [ho], fun a ha hax => ha (h.handle a r x hax hx)⟩ a

theorem control_freed (h : Owned m) (ho : o.res.control = none) {x : Nat}
    (hx : (m.objs r).res.control = some x) (a : Nat) :
    (Function.update m.objs r o a).res.control ≠ some x :=
  (Function.forall_update_iff m.objs fun _ o => o.res.control ≠ some x).mpr
    ⟨by simp [ho], fun a ha hax => ha (h.control a r x hax hx)⟩ a

theorem handOver (h : Owned m) (hk : (m.objs r).kind.yields = true)
    (hr : (m.objs r).res.control.isSome = true) (k : Kind) : Owned (m.handOver r k) := by
  have hlt : r < m.fresh := by
    by_contra hge
    rw [(h.fresh r (Nat.le_of_not_lt hge)).2] at hk
    cases hk
  have hnew : .handed r ∉ m.log := by
    intro hmem
    rw [(h.spent r hmem).2.2] at hr
    cases hr
  -- In between, the new state object is current and empty still.
  have hfreed : Owned { m.setRes r {} with state := m.fresh, fresh := m.fresh + 1 } := by
    refine h.replace rfl (.empty ..) ?_ ?_ (Nat.lt_succ_self _) (Nat.le_succ _) (Nat.le_refl _)
      (Nat.le_refl _) ?_ rfl
    · simp [Nat.ne_of_gt hlt, (h.fresh m.fresh (Nat.le_refl _)).2, Kind.yields]
    · exact fun hle => absurd (Nat.lt_of_lt_of_le hlt (Nat.le_succ _)) (Nat.not_lt.mpr hle)
    · exact fun hmem => absurd hmem hnew
  have hmoved : Owned (((m.setRes r {}).alloc { kind := k, res := (m.objs r).res }).migrate
      m.fresh) := by
    refine hfreed.replace rfl ⟨fun x hx => ?_, fun x hx => ?_, h.paired r⟩ ?_ ?_ (Nat.lt_succ_self _)
      (Nat.le_refl _) (Nat.le_refl _) (Nat.le_refl _) ?_ rfl
    · exact ⟨h.handles r x hx, fun a _ => h.handle_freed rfl hx a⟩
    · exact ⟨h.links r x hx, fun a _ => h.control_freed rfl hx a⟩
    · simp [hr]
    · exact fun hle => absurd hle (Nat.not_succ_le_self _)
    · exact fun hmem => absurd (h.spent _ hmem).1 (Nat.lt_irrefl _)
  have hbuilt := hmoved.noteBuilt k hr (h.paired r)
  have hne : r ≠ m.fresh := Nat.ne_of_lt hlt
  have hhanded := hbuilt.noteHanded (r := r) (Nat.lt_succ_of_lt hlt) (by simpa [hne] using hk)
    (by simp [hne]) (by simpa using hnew)
  exact hhanded.congr rfl rfl rfl rfl rfl rfl

theorem activeTerminate (h : Owned m) (hk : (m.objs r).kind.yields = true)
    (hr : (m.objs r).res.control.isSome = true) (ec : ErrorCode) (lost : Bool) :
    Owned (m.activeTerminate r ec lost) :=
  ((h.handOver hk hr .terminate).setTimer _ _).controlTerminate _ ec lost

theorem sealTerminate (h : Owned m) (hk : (m.objs r).kind.yields = true)
    (hr : (m.objs r).res.control.isSome = true) (ec : ErrorCode) (lost : Bool) :
    Owned (m.sealTerminate r ec lost) := by
  refine (h.setTimer r _).activeTerminate ?_ ?_ ec lost
  · simpa using hk
  · simpa using hr

theorem stateTerminate (h : Owned m) (ec : ErrorCode) (lost : Bool) :
    Owned (m.stateTerminate m.state ec lost) := by
  have hy : ∀ {k}, (m.objs m.state).kind = k → k.yields = true → (m.objs m.state).kind.yields = true :=
    fun hk hy => hk ▸ hy
  unfold Machine.stateTerminate
  split
  case h_1 => exact h.shutdown ec
  case h_2 | h_3 | h_4 => exact (h.setTimer _ _).shutdown ec
  case h_5 hk => exact h.activeTerminate (hy hk rfl) (h.ready (hy hk rfl)) ec lost
  case h_6 hk => exact h.sealTerminate (hy hk rfl) (h.ready (hy hk rfl)) ec lost
  case h_7 => exact h

theorem terminate (h : Owned m) (ec : ErrorCode) (lost : Bool) : Owned (m.terminate ec lost) := by
  have hn : Owned (m.note (.terminate ec)) := h.note (by simp) (by simp)
  have h' : Owned { m.note (.terminate ec) with closed := true } := hn.congr rfl rfl rfl rfl rfl rfl
  unfold Machine.terminate
  dsimp only
  split
  · exact hn.note (by simp) (by simp)
  · exact (h'.stateTerminate ec lost).note (by simp) (by simp)

theorem machineSeal (h : Owned m) (lost : Bool) : Owned (m.machineSeal lost) := by
  unfold Machine.machineSeal
  split
  · rename_i hk
    have hy : (m.objs m.state).kind.yields = true := by rw [← Machine.cur, hk]; rfl
    have h' := h.handOver hy (h.ready hy) .seal
    unfold Machine.activeSeal Machine.sealStart
    split
    · refine h'.sealTerminate ?_ ?_ _ lost
      · simp [Machine.handOver, Kind.yields]
      · simpa [Machine.handOver] using h.ready hy
    · exact h'.setTimer _ _
  · exact h

/-! ## From the token to the active state -/

theorem onRefresh (h : Owned m) (ec : ErrorCode) (out : Machine.SpawnOutcome) :
    Owned (m.onRefresh ec out) := by
  unfold Machine.onRefresh
  split
  · exact h.shutdown ec
  · have h' : Owned ((m.alloc { kind := .spawn }).migrate m.fresh) := h.enter rfl rfl
    cases out with
    | locatorNotFound => exact h'.shutdown _
    | emptyLocatorEndpoints => exact h'.shutdown _
    | isolateThrows ec => exact h'.congr rfl rfl rfl rfl rfl rfl
    | spawnThrows ec => exact (h'.setTimer m.fresh _).congr rfl rfl rfl rfl rfl rfl
    | spawned =>
      refine h'.replace (r := m.fresh) rfl ⟨fun x hx => ?_, by simp, by simp⟩ ?_ ?_ h'.state
        (Nat.le_refl _) (Nat.le_succ _) (Nat.le_refl _) ?_ rfl
      · cases hx
        exact ⟨Nat.lt_succ_self _, fun a _ hax => Nat.lt_irrefl _ (h'.handles a _ hax)⟩
      · simp [Machine.spawn, Kind.yields]
      · exact fun hle => absurd hle (Nat.not_succ_le_self _)
      · exact fun hmem => absurd (h.spent _ hmem).1 (Nat.lt_irrefl _)

theorem newLink (h : Owned m) : Owned m.newLink :=
  { h with links := fun r x hx => Nat.lt_succ_of_lt (h.links r x hx) }

/-- `handshaking_t::activate` with a control channel that no state object has. -/
theorem handshakingActivate (h : Owned m) (hk : (m.objs m.state).kind.yields = false) {c : Nat}
    (hc : c < m.links) (hf : ∀ r, (m.objs r).res.control ≠ some c) (x : Nat) (throws : Bool) :
    Owned (m.handshakingActivate x (some c) (some c) throws).1 := by
  have hfreed : Owned (m.setRes x {}) := h.release (fun hx => hx ▸ hk) rfl rfl
  have hbuilt : Owned ((m.setRes x {}).note (.built .active
      { handle := (m.objs x).res.handle, control := some c, session := some c })) :=
    hfreed.noteBuilt .active rfl rfl
  unfold Machine.handshakingActivate
  dsimp only
  split
  · exact hbuilt
  · have hentered := hbuilt.alloc (o := { kind := .active, res :=
        { handle := (m.objs x).res.handle, control := some c, session := some c } })
      ⟨fun y hy => ⟨h.handles x y hy, fun a _ => h.handle_freed rfl hy a⟩, fun y hy => ?_, rfl⟩
      fun _ => rfl
    · exact hentered.congr rfl rfl rfl rfl rfl rfl
    · cases hy
      refine ⟨hc, fun a _ => ?_⟩
      exact (Function.forall_update_iff m.objs fun _ o => o.res.control ≠ some c).mpr
        ⟨by simp, fun a _ => hf a⟩ a

theorem handshakingHandshake (h : Owned m) (hk : (m.objs m.state).kind.yields = false) (x : Nat)
    (throws : Bool) : Owned (m.handshakingHandshake x throws).1 := by
  have hx : Owned (m.cancel x) := h.setTimer x _
  have hkind : ∀ a, ((m.cancel x).objs a).kind = (m.objs a).kind :=
    (Function.forall_update_iff m.objs fun a o => o.kind = (m.objs a).kind).mpr ⟨rfl, fun _ _ => rfl⟩
  have ha : Owned ((m.cancel x).newLink.handshakingActivate x (some m.links) (some m.links)
      throws).1 := by
    refine hx.newLink.handshakingActivate ?_ ?_ ?_ x throws
    · exact (congrArg Kind.yields (hkind m.state)).trans hk
    · simp
    · intro r hr
      have := hx.links r m.links hr
      simp at this
  unfold Machine.handshakingHandshake
  split
  · exact hx
  · dsimp only
    split
    · exact ha.shutdown _
    · exact ha

theorem activate (h : Owned m) (throws : Bool) : Owned (m.activate throws).1 := by
  unfold Machine.activate
  split
  · rename_i hk
    split
    · exact h.handshakingHandshake (by simp_all [Machine.cur, Kind.yields]) _ throws
    · refine h.newLink.replace rfl ⟨fun x hx => ?_, fun x hx => ?_, rfl⟩ (by simp) ?_ h.state
        (Nat.le_refl _) (Nat.le_refl _) (Nat.le_refl _) ?_ rfl
      · exact ⟨h.handles m.state x hx, fun a ha hax => ha (h.handle a m.state x hax hx)⟩
      · cases hx
        exact ⟨Nat.lt_succ_self _, fun a _ hax => Nat.lt_irrefl _ (h.links a _ hax)⟩
      · exact fun hle => absurd h.state (Nat.not_lt.mpr hle)
      · intro hmem
        have hy := (h.spent _ hmem).2.1
        rw [show (m.objs m.state).kind = .spawn from hk] at hy
        cases hy
  · rename_i hk
    exact h.handshakingHandshake (by simp_all [Machine.cur, Kind.yields]) _ throws
  · exact h

theorem onSpawned (h : Owned m) (hr : r < m.fresh) (throws : Bool) :
    Owned (m.onSpawned r throws) := by
  have hm : Owned (m.modify r fun o => { o with
      res := { o.res with handle := none }, handshaking := some m.fresh }) := by
    refine h.replace rfl ⟨by simp, fun x hx => ?_, h.paired r⟩ ?_ ?_ h.state (Nat.le_refl _)
      (Nat.le_refl _) (Nat.le_refl _) (fun hmem => (h.spent r hmem).2) rfl
    · exact ⟨h.links r x hx, fun a ha hax => ha (h.control a r x hax hx)⟩
    · have hready := h.ready
      by_cases hs : m.state = r
      · rw [hs] at hready
        simpa [hs] using hready
      · simpa [hs] using hready
    · exact fun hle => absurd hr (Nat.not_lt.mpr hle)
  have h' : Owned (m.enterHandshaking r) := by
    refine hm.alloc ⟨fun x hx => ?_, by simp, rfl⟩ fun hy => ?_
    · exact ⟨h.handles r x hx, fun a _ => h.handle_freed rfl hx a⟩
    · cases hy
  unfold Machine.onSpawned
  dsimp only
  split
  · rename_i c hc
    have hne : r ≠ m.fresh := by omega
    have hm : Owned ((m.enterHandshaking r).setRes r {}) := h'.release (fun hx => absurd hx hne) rfl rfl
    have hu : ∀ r', (((m.enterHandshaking r).setRes r {}).objs r').res.control ≠ some c := by
      intro r'
      by_cases hr' : r' = r
      · simp [hr']
      · by_cases hf : r' = m.fresh
        · simp [Machine.enterHandshaking, hf, hne.symm]
        · simpa [Machine.enterHandshaking, hr', hf] using fun hx => hr' (h.control r' r c hx hc)
    have ha := hm.handshakingActivate (by simp [Machine.enterHandshaking, Kind.yields, hne.symm]) (h.links r c hc) hu
      m.fresh throws
    rw [h.paired r, hc]
    split
    · exact ha.congr rfl rfl rfl rfl rfl rfl
    · exact ha
  · split
    · exact h'.congr rfl rfl rfl rfl rfl rfl
    · exact h'.setTimer _ _

theorem onReady (h : Owned m) (hr : (m.objs r).kind = .spawn) (throws : Bool) :
    Owned (m.onReady r throws) := by
  have hlt : r < m.fresh := by
    by_contra hge
    have := (h.fresh r (by omega)).2
    simp [hr] at this
  refine modify ?_ r rfl rfl
  unfold Machine.onSpawn
  split
  · exact h.setTimer r _
  · exact (h.setTimer r _).onSpawned hlt throws

theorem onTimeout (h : Owned m)
    (hs : (m.objs r).kind = .seal → (m.objs r).res.control.isSome = true) (lost : Bool) :
    Owned (m.onTimeout r lost) := by
  unfold Machine.onTimeout
  split
  case h_3 hk => exact h.sealTerminate (by rw [hk]; rfl) (hs hk) _ lost
  case h_5 => exact h
  all_goals exact h.shutdown _

/-! ## Control and channels -/

theorem destroy (h : Owned m) (hr : r ≠ m.state) : Owned (m.destroy r) := by
  have h' : Owned (m.modify r fun o => { o with res := {}, dead := true }) :=
    h.release (fun hx => absurd hx hr) rfl rfl
  unfold Machine.destroy
  dsimp only
  split <;> exact h'.congr rfl rfl rfl rfl rfl rfl

theorem maybeNotify (h : Owned m) (c : Nat) (f : Chan → Chan) (lost : Bool) :
    Owned ((m.setChan c f).maybeNotify c lost) := by
  unfold Machine.maybeNotify Machine.revoke
  dsimp only
  split
  · have h' : Owned ((m.setChan c f).dropChannel c) := h.congr rfl rfl rfl rfl rfl rfl
    split
    · exact (h'.stateTerminate _ lost).post _
    · exact h'.post _
  · exact h.congr rfl rfl rfl rfl rfl rfl

/-! ## Steps and runs -/

theorem routine : Routine Owned where
  aside h hobjs hstate hfresh hhandles hlinks hlog _ _ :=
    h.congr hobjs hstate hfresh hhandles hlinks hlog
  shutdown ec h := h.shutdown ec
  maybeNotify c f lost h := h.maybeNotify c f lost

theorem effect (h : Owned m) {a : Act} (he : m.enabled a = true) (ha : Unspent m a) :
    Owned (m.effect a) := by
  cases a with
  | refresh ec out =>
    refine onRefresh ?_ ec out
    exact h.congr rfl rfl rfl rfl rfl rfl
  | abandon =>
    refine shutdown ?_ _
    exact h.congr rfl rfl rfl rfl rfl rfl
  | ready r throws => exact h.onReady (by simp_all [Machine.enabled]) throws
  | exited r ec => exact (h.modify r rfl rfl).shutdown ec
  | activate throws => exact h.activate throws
  | doSeal lost => exact h.machineSeal lost
  | terminate ec lost => exact h.terminate ec lost
  | expire r => exact h.setTimer r _
  | timeout r ec lost =>
    simp only [Machine.effect]
    split
    · exact h
    · rename_i hf
      refine (h.setTimer r _).onTimeout (fun hk => ?_) lost
      have hs : (m.objs r).kind = .seal := by simpa using hk
      simpa [Unspent, Machine.stale, hs, hf] using ha
  | runCleanup ec =>
    refine note ?_ (by simp) (by simp)
    exact h.congr rfl rfl rfl rfl rfl rfl
  | destroy r => exact h.destroy (by simp_all [Machine.enabled, Machine.dangling])
  | prepare | token => exact h.congr rfl rfl rfl rfl rfl rfl
  | _ => exact Owned.routine.effect h rfl

end Owned

/-- Single ownership in every run that handles an expired seal timer only while
its `seal_t` has the control channel. -/
theorem single_owner {m : Machine} (hr : machineSystem.Reachable Unspent m) : SingleOwner m := by
  refine Owned.singleOwner (hr.induct ?_ ?_)
  · rintro m rfl
    exact Owned.init
  · intro m a m' h ha hs
    obtain ⟨-, he, rfl⟩ := Machine.step_eq_some.mp hs
    exact h.effect he ha

theorem single_owner_sealed : ∃ m, machineSystem.Reachable Unspent m ∧
    m.cur.kind = .terminate ∧ SingleOwner m := by
  obtain ⟨m, hr, hk⟩ := machineSystem.exists_reachable Unspent
    (P := fun m => m.cur.kind = .terminate)
    [.prepare false, .token {}, .refresh {} .spawned, .ready 1 false, .activate false,
      .newChannel, .register 2, .watch 2 false, .doSeal false, .expire 4, .timeout 4 {} false]
    rfl (by decide +kernel)
  exact ⟨m, hr, hk, single_owner hr⟩

/-- The last channel is revoked after the seal timer has expired: `seal_t` is
terminated twice, the second time without resources. -/
theorem sealed_twice : ∃ m, machineSystem.Reachable System.Any m ∧
    .built .terminate {} ∈ m.log ∧ m.log.count (.handed 4) = 2 ∧ ¬SingleOwner m := by
  obtain ⟨m, hr, hb, hc⟩ := machineSystem.exists_reachable System.Any
    (P := fun m => .built .terminate {} ∈ m.log ∧ m.log.count (.handed 4) = 2)
    [.prepare false, .token {}, .refresh {} .spawned, .ready 1 false, .activate false,
      .newChannel, .register 2, .watch 2 false, .doSeal false, .expire 4, .closeBoth 2 false,
      .timeout 4 {} false]
    rfl (by decide +kernel)
  refine ⟨m, hr, hb, hc, fun h => ?_⟩
  have := h.handed 4
  omega

end Cocaine.Node.Slave
