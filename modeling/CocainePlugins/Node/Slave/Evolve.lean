import CocainePlugins.Node.Slave.Step

/-!
# What a handler may change

`Inner m m'` says what the bodies of the handlers are made of; each function has one
lemma, and what all the parts keep is proved once for all of them. `Evolves m m'` is
what they have in common, whatever state the machine is in: channels leave the map but
none enters it, handlers are posted but none is taken back, the `closed` flag is left
alone, and a cleanup is posted exactly when the shutdown flag goes up in a machine that
is not closed.
-/

namespace Cocaine.Node.Slave

open Framework

def Task.isCleanup : Task → Bool
  | .cleanup _ => true
  | _ => false

/-- Recorded inside a handler, not of a call from outside or of the cleanup. -/
def Obs.internal : Obs → Bool
  | .built _ _ | .handed _ | .controlTerminate _ => true
  | _ => false

/-- What the bodies of the handlers are made of, the channels' own calls apart: changes of
the state objects, migrations to new ones, changes of the control channels, records, posts,
and `shutdown`. Only if `wakes` holds there may be an `active_t` among the new ones. -/
inductive Inner (wakes : Bool) : Machine → Machine → Prop where
  | refl (m : Machine) : Inner wakes m m
  | modify {m : Machine} {r : Nat} {f : StateObj → StateObj}
      (hk : (f (m.objs r)).kind = (m.objs r).kind) : Inner wakes m (m.modify r f)
  | enter {m : Machine} {o : StateObj} (ho : o.kind = .active → wakes = true) :
      Inner wakes m ((m.alloc o).migrate m.fresh)
  | links {m : Machine} {p k l h} : Inner wakes m { m with
      preparation := p, controls := k, links := l, handles := h }
  | crash {m : Machine} : Inner wakes m { m with crashed := true }
  | note {m : Machine} {o : Obs} (ho : o.internal = true) : Inner wakes m (m.note o)
  | post {m : Machine} {t : Task} (ht : t.isCleanup = false) : Inner wakes m (m.post t)
  | shutdown {m : Machine} (ec : ErrorCode) : Inner wakes m (m.shutdown ec)
  | trans {m m' m'' : Machine} : Inner wakes m m' → Inner wakes m' m'' → Inner wakes m m''

namespace Inner

variable {wakes : Bool} {m : Machine}

theorem setTimer (r : Nat) (t : Timer) : Inner wakes m (m.setTimer r t) := modify rfl

theorem setRes (r : Nat) (res : Resources) : Inner wakes m (m.setRes r res) := modify rfl

theorem newLink : Inner wakes m m.newLink := links

/-! ## Terminating and sealing -/

theorem controlTerminate (c : Option Nat) (ec : ErrorCode) (lost : Bool) :
    Inner wakes m (m.controlTerminate c ec lost) := by
  have hn : Inner wakes m (m.note (.controlTerminate ec)) := note rfl
  unfold Machine.controlTerminate
  split
  · exact crash
  · dsimp only
    split
    · exact hn.trans (.shutdown _)
    · exact hn

theorem handOver (r : Nat) {k : Kind} (hk : k ≠ .active) : Inner wakes m (m.handOver r k) := by
  have h : Inner wakes (m.setRes r {}) (((m.setRes r {}).alloc
      { kind := k, res := (m.objs r).res }).migrate m.fresh) := enter fun ha => absurd ha hk
  exact (((setRes r {}).trans h).trans (note rfl)).trans (note rfl)

theorem activeTerminate (r : Nat) (ec : ErrorCode) (lost : Bool) :
    Inner wakes m (m.activeTerminate r ec lost) :=
  ((handOver r (by simp)).trans (setTimer _ _)).trans (controlTerminate _ ec lost)

theorem sealTerminate (r : Nat) (ec : ErrorCode) (lost : Bool) :
    Inner wakes m (m.sealTerminate r ec lost) :=
  (setTimer r _).trans (activeTerminate r ec lost)

theorem stateTerminate (r : Nat) (ec : ErrorCode) (lost : Bool) :
    Inner wakes m (m.stateTerminate r ec lost) := by
  unfold Machine.stateTerminate
  split
  case h_1 => exact .shutdown ec
  case h_2 | h_3 | h_4 => exact (setTimer r _).trans (.shutdown ec)
  case h_5 => exact .activeTerminate r ec lost
  case h_6 => exact .sealTerminate r ec lost
  case h_7 => exact .refl m

theorem machineSeal (lost : Bool) : Inner wakes m (m.machineSeal lost) := by
  unfold Machine.machineSeal
  split
  · refine (handOver m.state (k := .seal) (by simp)).trans ?_
    unfold Machine.activeSeal Machine.sealStart
    split
    · exact .sealTerminate _ _ lost
    · exact setTimer _ _
  · exact .refl m

/-! ## From the token to the active state -/

theorem onRefresh (ec : ErrorCode) (out : Machine.SpawnOutcome) :
    Inner wakes m (m.onRefresh ec out) := by
  have h : Inner wakes m ((m.alloc { kind := .spawn }).migrate m.fresh) := enter (by simp)
  unfold Machine.onRefresh
  split
  · exact .shutdown ec
  · refine h.trans ?_
    cases out with
    | locatorNotFound => exact .shutdown _
    | emptyLocatorEndpoints => exact .shutdown _
    | isolateThrows ec => exact post rfl
    | spawnThrows ec => exact (setTimer m.fresh _).trans (post rfl)
    | spawned =>
      have hs : Inner wakes ((m.alloc { kind := .spawn }).migrate m.fresh) _ := modify
        (r := m.fresh) (f := fun o => { o with
          timer := o.timer.start, awaited := true, res := { o.res with handle := some m.handles } }) rfl
      exact hs.trans links

theorem handshakingActivate (x : Nat) (session control : Option Nat) (throws : Bool) :
    Inner true m (m.handshakingActivate x session control throws).1 := by
  have h (res : Resources) : Inner true m ((m.setRes x {}).note (.built .active res)) :=
    (setRes x {}).trans (note rfl)
  unfold Machine.handshakingActivate
  dsimp only
  split
  · exact (h _).trans crash
  · split
    · exact h _
    · exact ((h _).trans (enter fun _ => rfl)).trans links

theorem handshakingHandshake (x : Nat) (throws : Bool) :
    Inner true m (m.handshakingHandshake x throws).1 := by
  have h : Inner true m (m.cancel x).newLink := (setTimer x _).trans newLink
  unfold Machine.handshakingHandshake
  split
  · exact setTimer x _
  · dsimp only
    split
    · exact (h.trans (handshakingActivate x _ _ throws)).trans (.shutdown _)
    · exact h.trans (handshakingActivate x _ _ throws)

theorem activate (throws : Bool) : Inner true m (m.activate throws).1 := by
  unfold Machine.activate
  split
  · split
    · exact handshakingHandshake _ throws
    · exact newLink.trans (setRes _ _)
  · exact handshakingHandshake _ throws
  · exact .refl m

theorem enterHandshaking (r : Nat) : Inner wakes m (m.enterHandshaking r) :=
  trans (modify rfl) (enter (by simp))

theorem onReady (r : Nat) (throws : Bool) : Inner true m (m.onReady r throws) := by
  refine trans ?_ (modify rfl)
  unfold Machine.onSpawn
  split
  · exact setTimer r _
  · refine (setTimer r (m.objs r).timer.cancel).trans ?_
    have h : Inner true (m.cancel r) ((m.cancel r).enterHandshaking r) := enterHandshaking r
    unfold Machine.onSpawned
    dsimp only
    split
    · have h' := h.trans (setRes r {})
      split
      · exact (h'.trans (handshakingActivate _ _ _ throws)).trans (post rfl)
      · exact h'.trans (handshakingActivate _ _ _ throws)
    · split
      · exact h.trans (post rfl)
      · exact h.trans (setTimer _ _)

theorem onTerminate (r : Nat) (ec : ErrorCode) : Inner wakes m (m.onTerminate r ec) :=
  trans (modify rfl) (.shutdown ec)

theorem onTimeout (r : Nat) (lost : Bool) : Inner wakes m (m.onTimeout r lost) := by
  unfold Machine.onTimeout
  split
  case h_3 => exact .sealTerminate r _ lost
  case h_5 => exact .refl m
  all_goals exact .shutdown _

/-! ## Control -/

theorem destroy (r : Nat) : Inner wakes m (m.destroy r) := by
  have h : Inner wakes m (m.modify r fun o => { o with res := {}, dead := true }) := modify rfl
  unfold Machine.destroy
  dsimp only
  split
  case h_4 => exact h.trans crash
  case h_5 => exact h
  all_goals exact h.trans links

/-- What `revoke` does once it has erased the channel. -/
theorem revoke (c : Nat) (lost : Bool) : Inner false (m.dropChannel c) (m.revoke c lost) := by
  unfold Machine.revoke
  dsimp only
  split
  · exact (stateTerminate _ _ lost).trans (post rfl)
  · exact post rfl

end Inner

/-! ## Steps -/

/-- The posted handler that the step runs. -/
def Act.task : Act → Option Task
  | .runShutdown ec => some (.shutdown ec)
  | .runCloseBoth c _ => some (.closeBoth c)
  | .runCleanup ec => some (.cleanup ec)
  | .runRebalance => some .rebalanceEvents
  | _ => none

/-- The machine without the posted handler that the step runs. -/
def Machine.before (m : Machine) (a : Act) : Machine :=
  match a.task with
  | some t => m.take t
  | none => m

/-- The steps that have to do with the channels, or that close the machine or invoke the
callback. -/
def Act.outer : Act → Bool
  | .terminate _ _ | .runCleanup _ | .runCloseBoth _ _ | .newChannel | .register _ | .arm _
  | .watch _ _ | .closeSend _ _ | .closeRecv _ _ | .closeBoth _ _ | .expireRequest _
  | .completeRequest _ => true
  | _ => false

/-- The two handlers that may activate the machine. -/
def Act.activates : Act → Bool
  | .activate _ | .ready _ _ => true
  | _ => false

theorem Inner.effect {m : Machine} {a : Act} (ha : a.outer = false) :
    Inner a.activates (m.before a) (m.effect a) := by
  cases a with
  | terminate | runCleanup | runCloseBoth | newChannel | register | arm | watch | closeSend
  | closeRecv | closeBoth | expireRequest | completeRequest => cases ha
  | prepare throws => exact links
  | token ec => exact links
  | refresh ec out => exact links.trans (.onRefresh ec out)
  | abandon => exact links.trans (.shutdown _)
  | ready r throws => exact .onReady r throws
  | exited r ec => exact .onTerminate r ec
  | activate throws => exact .activate throws
  | doSeal lost => exact .machineSeal lost
  | expire r => exact setTimer r _
  | timeout r ec lost =>
    simp only [Machine.effect]
    split
    · exact .refl m
    · exact (setTimer r _).trans (.onTimeout r lost)
  | heartbeat c =>
    simp only [Machine.effect, Machine.onHeartbeat]
    split
    · exact .refl m
    · exact links
  | expireHeartbeat c => exact links
  | heartbeatTimeout c ec =>
    simp only [Machine.effect]
    split
    · exact .refl m
    · exact links.trans (.shutdown _)
  | discard c ec =>
    simp only [Machine.effect, Machine.controlDiscard]
    split
    · exact .shutdown _
    · exact .refl m
  | suicide c => exact .shutdown _
  | runShutdown ec => exact .shutdown ec
  | runRebalance => exact .refl _
  | destroy r => exact .destroy r

theorem Machine.terminate_inner (m : Machine) (ec : ErrorCode) (lost : Bool) :
    ∃ m₁, Inner false { m.note (.terminate ec) with closed := true } m₁ ∧
      m.terminate ec lost = m₁.note .terminated := by
  unfold Machine.terminate
  dsimp only
  split
  · rename_i hc
    exact ⟨_, .refl _, by simp [hc]⟩
  · exact ⟨_, .stateTerminate m.state ec lost, rfl⟩

/-! ## What they have in common -/

/-- The steps that do more than `Evolves` allows: they close the machine, invoke
the callback, or put a channel into the map. -/
def Act.special : Act → Bool
  | .terminate _ _ | .runCleanup _ | .register _ => true
  | _ => false

structure Evolves (m m' : Machine) : Prop where
  closed : m'.closed = m.closed
  crashed : m.crashed = true → m'.crashed = true
  counter : m.counter ≤ m'.counter
  channels : m'.channels.Sublist m.channels
  shut : m.shutdowned = true → m'.shutdowned = true
  posted : ∃ l, m'.posted = l ++ m.posted ∧
    l.countP Task.isCleanup = if m'.shutdowned && !m.shutdowned && !m.closed then 1 else 0
  log : ∃ l, m'.log = l ++ m.log ∧ ∀ o ∈ l, o.internal = true
  /-- A channel that left the map leaves a `rebalance_events` behind, unless the
  slave was shut down. -/
  freed : m'.load < m.load →
    .rebalanceEvents ∈ m'.posted ∨ m.shutdowned = false ∧ m'.shutdowned = true

namespace Evolves

variable {m m' m'' : Machine}

theorem refl (m : Machine) : Evolves m m where
  closed := rfl
  crashed := id
  counter := Nat.le_refl _
  channels := .refl _
  shut := id
  posted := ⟨[], rfl, by simp⟩
  log := ⟨[], rfl, by simp⟩
  freed h := absurd h (Nat.lt_irrefl _)

theorem trans (h : Evolves m m') (h' : Evolves m' m'') : Evolves m m'' where
  closed := h'.closed.trans h.closed
  crashed hc := h'.crashed (h.crashed hc)
  counter := Nat.le_trans h.counter h'.counter
  channels := h'.channels.trans h.channels
  shut hs := h'.shut (h.shut hs)
  posted := by
    obtain ⟨l, hl, hc⟩ := h.posted
    obtain ⟨l', hl', hc'⟩ := h'.posted
    refine ⟨l' ++ l, by rw [hl', hl, List.append_assoc], ?_⟩
    have h1 := h.shut
    have h2 := h'.shut
    rw [List.countP_append, hc, hc', h.closed]
    -- The flag goes up in the first part, in the second, or not at all.
    rcases hm : m.shutdowned <;> rcases hm' : m'.shutdowned <;> rcases hm'' : m''.shutdowned <;>
      simp_all
  log := by
    obtain ⟨l, hl, hi⟩ := h.log
    obtain ⟨l', hl', hi'⟩ := h'.log
    refine ⟨l' ++ l, by rw [hl', hl, List.append_assoc], ?_⟩
    intro o ho
    rcases List.mem_append.mp ho with ho | ho
    · exact hi' o ho
    · exact hi o ho
  freed hlt := by
    rcases Nat.lt_or_ge m'.load m.load with hlt' | hge
    · rcases h.freed hlt' with hp | ⟨hs, hs'⟩
      · obtain ⟨l, hl, -⟩ := h'.posted
        exact .inl (hl ▸ List.mem_append_right l hp)
      · exact .inr ⟨hs, h'.shut hs'⟩
    · rcases h'.freed (by omega) with hp | ⟨hs, hs'⟩
      · exact .inl hp
      · refine .inr ⟨?_, hs'⟩
        by_contra hm
        simp [h.shut (by simpa using hm)] at hs

/-- Changes of the state objects, of the control channels, of the counters and of
the channels' own state. -/
theorem inner {o s f p k l h c} : Evolves m { m with
    objs := o, state := s, fresh := f, preparation := p, controls := k, links := l, handles := h,
    chans := c } :=
  { refl m with }

theorem crash : Evolves m { m with crashed := true } :=
  { refl m with crashed := fun _ => rfl }

theorem note {o : Obs} (ho : o.internal = true) : Evolves m (m.note o) :=
  { refl m with
    log := ⟨[o], rfl, by simpa using ho⟩ }

theorem post {t : Task} (ht : t.isCleanup = false) : Evolves m (m.post t) :=
  { refl m with
    posted := ⟨[t], rfl, by simp [ht]⟩
    freed := fun h => absurd h (Nat.lt_irrefl _) }

theorem shutdown (ec : ErrorCode) : Evolves m (m.shutdown ec) := by
  unfold Machine.shutdown
  split
  · exact .refl m
  · rename_i hs
    have hc : (m.channels.map Task.closeBoth).countP Task.isCleanup = 0 := by
      simp [List.countP_map, Function.comp_def, Task.isCleanup]
    dsimp only
    split
    · rename_i hcl
      exact {
        closed := rfl
        crashed := id
        counter := Nat.le_refl _
        channels := List.nil_sublist _
        shut := fun _ => rfl
        posted := ⟨m.channels.map .closeBoth, rfl, by simp [hc, hcl]⟩
        log := ⟨[], rfl, by simp⟩
        freed := fun _ => .inr ⟨by simpa using hs, rfl⟩ }
    · rename_i hcl
      exact {
        closed := rfl
        crashed := id
        counter := Nat.le_refl _
        channels := List.nil_sublist _
        shut := fun _ => rfl
        posted := ⟨.cleanup (m.shutdownCode ec) :: m.channels.map .closeBoth, rfl, by
          rw [List.countP_cons_of_pos rfl, hc]
          simp [hs, hcl, Machine.enterInactive]⟩
        log := ⟨[], rfl, by simp⟩
        freed := fun _ => .inr ⟨by simpa using hs, rfl⟩ }

theorem of_inner {wakes : Bool} (h : Inner wakes m m') : Evolves m m' := by
  induction h with
  | refl m => exact .refl m
  | modify | enter | links => exact inner
  | crash => exact crash
  | note ho => exact note ho
  | post ht => exact post ht
  | shutdown ec => exact .shutdown ec
  | trans _ _ ih ih' => exact ih.trans ih'

theorem revoke (c : Nat) (lost : Bool) : Evolves m (m.revoke c lost) := by
  have h : Evolves (m.dropChannel c) (m.revoke c lost) := of_inner (.revoke c lost)
  exact { h with
    channels := h.channels.trans List.erase_sublist
    freed := fun _ => .inl List.mem_cons_self }

/-- The four ways to change a channel that may notify the machine. -/
theorem maybeNotify (c : Nat) (f : Chan → Chan) (lost : Bool) :
    Evolves m ((m.setChan c f).maybeNotify c lost) := by
  have h : Evolves m (m.setChan c f) := inner
  refine h.trans ?_
  unfold Machine.maybeNotify
  dsimp only
  split
  · exact .revoke c lost
  · exact .refl _

end Evolves

theorem Evolves.effect {m : Machine} {a : Act} (ha : a.special = false) :
    Evolves (m.before a) (m.effect a) := by
  rcases ho : a.outer with _ | _
  · exact .of_inner (Inner.effect ho)
  · cases a with
    | terminate | runCleanup | register => cases ha
    | runCloseBoth c lost | watch c lost | closeSend c lost | closeRecv c lost | closeBoth c lost =>
      exact maybeNotify c _ lost
    | newChannel => exact { Evolves.refl m with counter := Nat.le_succ _ }
    | arm c | expireRequest c | completeRequest c => exact inner
    | _ => cases ho

theorem Machine.terminate_evolves (m : Machine) (ec : ErrorCode) (lost : Bool) :
    ∃ m₁, Evolves { m.note (.terminate ec) with closed := true } m₁ ∧
      m.terminate ec lost = m₁.note .terminated := by
  obtain ⟨m₁, h, heq⟩ := m.terminate_inner ec lost
  exact ⟨m₁, .of_inner h, heq⟩

theorem Machine.before_eq (m : Machine) (a : Act) :
    ∃ l, l.Sublist m.posted ∧ m.before a = { m with posted := l } := by
  unfold Machine.before
  split
  · exact ⟨_, List.erase_sublist, rfl⟩
  · exact ⟨_, .refl _, rfl⟩

section Effect

variable {m : Machine} {a : Act}

/-- Only `register` puts a channel into the map. -/
theorem Machine.channels_effect (ha : ∀ c, a ≠ .register c) :
    (m.effect a).channels.Sublist m.channels := by
  rcases hs : a.special with _ | _
  · obtain ⟨l, -, hb⟩ := m.before_eq a
    have h := (Evolves.effect (m := m) hs).channels
    rwa [hb] at h
  · cases a with
    | register c => exact absurd rfl (ha c)
    | terminate ec lost =>
      obtain ⟨m₁, h, heq⟩ := m.terminate_evolves ec lost
      rw [Machine.effect, heq]
      exact h.channels
    | runCleanup ec => exact .refl _
    | _ => cases hs

theorem Machine.load_effect (ha : ∀ c, a ≠ .register c) : (m.effect a).load ≤ m.load :=
  (channels_effect ha).length_le

/-- Only `terminate` closes the machine. -/
theorem Machine.closed_effect (ha : ∀ ec lost, a ≠ .terminate ec lost) :
    (m.effect a).closed = m.closed := by
  rcases hs : a.special with _ | _
  · obtain ⟨l, -, hb⟩ := m.before_eq a
    have h := (Evolves.effect (m := m) hs).closed
    rwa [hb] at h
  · cases a with
    | terminate ec lost => exact absurd rfl (ha ec lost)
    | register | runCleanup => rfl
    | _ => cases hs

theorem Machine.counter_effect : m.counter ≤ (m.effect a).counter := by
  rcases hs : a.special with _ | _
  · obtain ⟨l, -, hb⟩ := m.before_eq a
    have h := (Evolves.effect (m := m) hs).counter
    rwa [hb] at h
  · cases a with
    | terminate ec lost =>
      obtain ⟨m₁, h, heq⟩ := m.terminate_evolves ec lost
      rw [Machine.effect, heq]
      exact h.counter
    | register | runCleanup => exact Nat.le_refl _
    | _ => cases hs

theorem Machine.freed_effect (ha : ∀ c, a ≠ .register c) (hl : (m.effect a).load < m.load) :
    .rebalanceEvents ∈ (m.effect a).posted ∨
      m.shutdowned = false ∧ (m.effect a).shutdowned = true := by
  rcases hs : a.special with _ | _
  · obtain ⟨l, -, hb⟩ := m.before_eq a
    have h := (Evolves.effect (m := m) hs).freed
    rw [hb] at h
    exact h hl
  · cases a with
    | register c => exact absurd rfl (ha c)
    | terminate ec lost =>
      obtain ⟨m₁, h, heq⟩ := m.terminate_evolves ec lost
      rw [Machine.effect, heq] at hl ⊢
      exact h.freed hl
    | runCleanup ec => exact absurd hl (Nat.lt_irrefl _)
    | _ => cases hs

/-- A posted handler stays posted until it runs. -/
theorem Machine.mem_posted_effect {t : Task} (ha : a.task ≠ some t) (h : t ∈ m.posted) :
    t ∈ (m.effect a).posted := by
  have hb : t ∈ (m.before a).posted := by
    unfold Machine.before
    split
    · rename_i t' ht'
      refine (List.mem_erase_of_ne ?_).mpr h
      rintro rfl
      exact ha ht'
    · exact h
  rcases hs : a.special with _ | _
  · obtain ⟨l, hl, -⟩ := (Evolves.effect (m := m) hs).posted
    rw [hl]
    exact List.mem_append_right l hb
  · cases a with
    | terminate ec lost =>
      obtain ⟨m₁, hev, heq⟩ := m.terminate_evolves ec lost
      obtain ⟨l, hl, -⟩ := hev.posted
      rw [Machine.effect, heq]
      show t ∈ m₁.posted
      rw [hl]
      exact List.mem_append_right l h
    | register => exact h
    | runCleanup ec => exact hb
    | _ => cases hs

theorem Machine.rebalanceEvents_mem_effect (ha : a ≠ .runRebalance)
    (h : .rebalanceEvents ∈ m.posted) : .rebalanceEvents ∈ (m.effect a).posted := by
  refine mem_posted_effect ?_ h
  cases a <;> simp_all [Act.task]

end Effect

end Cocaine.Node.Slave
