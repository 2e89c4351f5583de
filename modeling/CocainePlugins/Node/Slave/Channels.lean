import CocainePlugins.Node.Slave.Evolve

/-!
# The channels of a slave

A channel has two dispatches: the client's, which `inject` attaches to it, and the
worker's. Each of them closes its side of the channel when it ends, or both sides when it
ends with an error: the client's when it is discarded (the client is gone, or the request
has timed out), the worker's when it cannot pass a message to the client. `shutdown` posts
a `close_both` for each channel that is in the map. The callback of the channel runs in
every call that finds it watched and closed, so also when a dispatch ends after the other
one has closed both sides.
-/

namespace Cocaine.Node.Slave

open Framework

/-! ## The dispatches and the calls of `inject` -/

/-- `client_rpc_dispatch_t::state_t`. -/
inductive ClientState where
  | opened | bound | closed
deriving DecidableEq, Repr

/-- How far `inject` is. -/
inductive Injection where
  | absent
  /-- The channel and the worker's dispatch are made. -/
  | created
  /-- The state's `inject`, or the invocation, has thrown. -/
  | refused
  | sent
  /-- The channel is in the map. -/
  | registered
  /-- The timer runs, or there was no time left. -/
  | timed
  /-- `attach` has thrown. -/
  | failed
  | attached
  /-- The channel is watched. -/
  | done
deriving DecidableEq, Repr

/-- The channel was put into the map. -/
def Injection.registers : Injection → Bool
  | .absent | .created | .refused | .sent => false
  | .registered | .timed | .failed | .attached | .done => true

structure Stream where
  client : ClientState := .opened
  /-- `client_rpc_dispatch_t::ec`. -/
  ec : ErrorCode := .success
  workerClosed : Bool := false
  stage : Injection := .absent
deriving DecidableEq, Repr

structure Session where
  machine : Machine := {}
  streams : Nat → Stream := fun _ => {}
  /-- How often the callback of each channel has run. -/
  runs : Nat → Nat := fun _ => 0

/-- Watched, with both sides closed. -/
def Chan.over (k : Chan) : Bool := !k.tx && !k.rx && k.watched

/-- The steps that are made here. -/
def Act.ofChannel : Act → Bool
  | .runCloseBoth _ _ | .newChannel | .register _ | .arm _ | .watch _ _ | .closeSend _ _
  | .closeRecv _ _ | .closeBoth _ _ | .expireRequest _ | .completeRequest _ => true
  | _ => false

namespace Session

variable (s : Session)

def setStream (c : Nat) (f : Stream → Stream) : Session :=
  { s with streams := Function.update s.streams c (f (s.streams c)) }

@[simp] theorem machine_setStream (c : Nat) (f : Stream → Stream) :
    (s.setStream c f).machine = s.machine := rfl

@[simp] theorem streams_setStream (c : Nat) (f : Stream → Stream) :
    (s.setStream c f).streams = Function.update s.streams c (f (s.streams c)) := rfl

theorem setStream_setStream (c : Nat) (f g : Stream → Stream) :
    (s.setStream c f).setStream c g = s.setStream c (g ∘ f) := by
  simp [setStream]

@[simp] def setStage (c : Nat) (stage : Injection) : Session :=
  s.setStream c fun t => { t with stage }

def perform (a : Act) : Option Session := (s.machine.step a).map fun m => { s with machine := m }

/-- A call of the channel, which runs the callback if it finds the channel over. -/
def notify (c : Nat) (a : Act) : Option Session :=
  (s.machine.step a).map fun m =>
    { s with
      machine := m
      runs := if (m.chans c).over then Function.update s.runs c (s.runs c + 1) else s.runs }

/-- The callback that `inject` gives to `attach`. -/
def clientCallback (c : Nat) (lost : Bool) : Option Session :=
  s.notify c (if (s.streams c).ec.failed then .closeBoth c lost else .closeSend c lost)

/-- `client_rpc_dispatch_t::finalize`. -/
def clientFinalize (c : Nat) (lost : Bool) : Option Session :=
  match (s.streams c).client with
  | .opened => some (s.setStream c fun t => { t with client := .closed })
  | .bound => (s.setStream c fun t => { t with client := .closed }).clientCallback c lost
  | .closed => some s

/-- `client_rpc_dispatch_t::discard`. -/
def clientDiscard (c : Nat) (ec : ErrorCode) (lost : Bool) : Option Session :=
  if ec.failed then (s.setStream c fun t => { t with ec }).clientFinalize c lost else some s

/-- `client_rpc_dispatch_t::attach`, once its stream is attached. -/
def clientAttach (c : Nat) (lost : Bool) : Option Session :=
  match (s.streams c).client with
  | .opened => some (s.setStream c fun t => { t with client := .bound })
  | .closed => s.clientCallback c lost
  | .bound => some s

/-- `worker_rpc_dispatch_t::finalize` of a dispatch that is not closed, with the callback
that `inject` gives it. -/
def workerFinalize (c : Nat) (fails lost : Bool) : Option Session :=
  (s.setStream c fun t => { t with workerClosed := true }).notify c
    (if fails then .closeBoth c lost else .closeRecv c lost)

inductive Label where
  /-- The client's dispatch is open, or it was closed before, with this code. -/
  | inject (closed : Option ErrorCode)
  | send (c : Nat) (throws : Bool)
  | register (c : Nat)
  | arm (c : Nat)
  /-- No time is left. The worker's dispatch is discarded too, by a step of its own. -/
  | expired (c : Nat) (lost : Bool)
  | attach (c : Nat) (lost : Bool)
  | attachThrows (c : Nat)
  | watch (c : Nat) (lost : Bool)
  /-- The client's choke or error. -/
  | clientClose (c : Nat) (lost : Bool)
  /-- The client is gone. -/
  | clientDiscard (c : Nat) (ec : ErrorCode) (lost : Bool)
  /-- The worker's choke or error, or its dispatch is discarded; or a message of it
  `fails` to be passed to the client. -/
  | worker (c : Nat) (fails lost : Bool)
  | expireRequest (c : Nat)
  /-- The timer's handler discards the client's dispatch. The worker's is discarded after
  it, by a step of its own. -/
  | timeout (c : Nat) (lost : Bool)
  | runCloseBoth (c : Nat) (lost : Bool)
  /-- Any other step of the machine. -/
  | act (a : Act)
deriving DecidableEq, Repr

/-- The dispatch of a channel that there is. -/
def present (c : Nat) : Bool := (s.streams c).stage != .absent

/-- The stage that a step of `inject` finds. -/
def isAt (c : Nat) (stage : Injection) : Bool := (s.streams c).stage == stage

def step : Label → Option Session
  | .inject closed =>
    (s.perform .newChannel).map fun s' => s'.setStream (s.machine.counter + 1) fun _ =>
      { client := if closed.isSome then .closed else .opened
        ec := closed.getD .success
        stage := .created }
  | .send c throws =>
    if s.isAt c .created then
      -- Every state but `active_t` throws.
      some (s.setStage c (if s.machine.active && !throws then .sent else .refused))
    else none
  | .register c =>
    if s.isAt c .sent then (s.perform (.register c)).map (·.setStage c .registered) else none
  | .arm c => if s.isAt c .registered then (s.perform (.arm c)).map (·.setStage c .timed) else none
  | .expired c lost =>
    if s.isAt c .registered then
      (s.setStage c .timed).clientDiscard c NodeErrors.timeoutError.code lost
    else none
  | .attach c lost =>
    if s.isAt c .timed then (s.setStage c .attached).clientAttach c lost else none
  | .attachThrows c => if s.isAt c .timed then some (s.setStage c .failed) else none
  | .watch c lost =>
    if s.isAt c .attached then (s.setStage c .done).notify c (.watch c lost) else none
  | .clientClose c lost => if s.present c then s.clientFinalize c lost else none
  | .clientDiscard c ec lost => if s.present c then s.clientDiscard c ec lost else none
  | .worker c fails lost =>
    if s.present c && !(s.streams c).workerClosed then s.workerFinalize c fails lost else none
  | .expireRequest c => s.perform (.expireRequest c)
  | .timeout c lost =>
    if s.present c then
      (s.perform (.completeRequest c)).bind fun s' =>
        s'.clientDiscard c NodeErrors.timeoutError.code lost
    else none
  | .runCloseBoth c lost => s.notify c (.runCloseBoth c lost)
  | .act a => if a.ofChannel then none else s.perform a

end Session

/-- A slave with its channels, from the end of `machine_t::start` on. -/
def sessionSystem : System Session Session.Label where
  init s := s = {}
  step := Session.step

/-- Both sides are closed at once only where the other dispatch has ended: the client's
dispatch is discarded after the worker's has ended, the worker's fails after the client's
has ended, and a `close_both` that `shutdown` has posted runs when both have ended and the
channel is not watched yet. -/
def Session.Calm (s : Session) : Session.Label → Prop
  | .clientDiscard c _ _ | .timeout c _ =>
    (s.streams c).client = .bound → (s.streams c).workerClosed = true
  | .attach c _ =>
    (s.streams c).client = .closed → (s.streams c).ec.failed = true →
      (s.streams c).workerClosed = true
  | .worker c true _ => (s.streams c).client = .closed
  | .runCloseBoth c _ =>
    (s.streams c).client = .closed ∧ (s.streams c).workerClosed = true ∧
      (s.machine.chans c).watched = false
  | _ => True

instance (s : Session) (a : Session.Label) : Decidable (s.Calm a) := by
  unfold Session.Calm
  split <;> infer_instance

/-! ## What the machine does to its channels -/

/-- The part of a channel that its calls change. -/
def Chan.sides (k : Chan) : Bool × Bool × Bool := (k.tx, k.rx, k.watched)

theorem Chan.over_eq {k k' : Chan} (h : k.sides = k'.sides) : k.over = k'.over := by
  obtain ⟨htx, hrx, hw⟩ : k.tx = k'.tx ∧ k.rx = k'.rx ∧ k.watched = k'.watched := by
    simpa [Chan.sides] using h
  simp only [Chan.over, htx, hrx, hw]

/-- The channels and the map are as they were, unless the machine is shut down. -/
structure Spares (m m' : Machine) : Prop where
  sides : ∀ c, (m'.chans c).sides = (m.chans c).sides
  counter : m'.counter = m.counter
  shut : m.shutdowned = true → m'.shutdowned = true
  channels : m'.shutdowned = false → m'.channels = m.channels

namespace Spares

variable {m m' m'' : Machine} {a : Act}

theorem refl (m : Machine) : Spares m m := ⟨fun _ => rfl, rfl, id, fun _ => rfl⟩

theorem trans (h : Spares m m') (h' : Spares m' m'') : Spares m m'' where
  sides c := (h'.sides c).trans (h.sides c)
  counter := h'.counter.trans h.counter
  shut hs := h'.shut (h.shut hs)
  channels hs := by
    have hs' : m'.shutdowned = false := by
      by_contra hne
      simp [h'.shut (by simpa using hne)] at hs
    exact (h'.channels hs).trans (h.channels hs')

theorem shutdown (ec : ErrorCode) : Spares m (m.shutdown ec) := by
  unfold Machine.shutdown
  split
  · exact .refl m
  · dsimp only
    split
    all_goals exact ⟨fun _ => rfl, rfl, fun _ => rfl, by simp [Machine.enterInactive]⟩

theorem timer (c : Nat) (g : Timer → Timer) :
    Spares m (m.setChan c fun k => { k with timer := g k.timer }) := by
  refine ⟨fun c' => ?_, rfl, id, fun _ => rfl⟩
  by_cases hc : c' = c
  · subst hc
    simp [Chan.sides]
  · simp [hc]

theorem of_inner {wakes : Bool} (h : Inner wakes m m') : Spares m m' := by
  induction h with
  | refl m => exact .refl m
  | shutdown ec => exact .shutdown ec
  | trans _ _ ih ih' => exact ih.trans ih'
  | modify | enter | links | crash | note | post => exact ⟨fun _ => rfl, rfl, id, fun _ => rfl⟩

theorem effect (ha : a.ofChannel = false) : Spares m (m.effect a) := by
  rcases ho : a.outer with _ | _
  · obtain ⟨l, -, hb⟩ := m.before_eq a
    have h := of_inner (Inner.effect (m := m) ho)
    rw [hb] at h
    exact ⟨h.sides, h.counter, h.shut, h.channels⟩
  · cases a with
    | terminate ec lost =>
      obtain ⟨m₁, hin, heq⟩ := m.terminate_inner ec lost
      have h := of_inner hin
      rw [Machine.effect, heq]
      exact ⟨h.sides, h.counter, h.shut, h.channels⟩
    | runCleanup ec => exact ⟨fun _ => rfl, rfl, id, fun _ => rfl⟩
    | runCloseBoth | newChannel | register | arm | watch | closeSend | closeRecv | closeBoth
    | expireRequest | completeRequest => cases ha
    | _ => cases ho

end Spares

/-- The channel `c` is changed by `f`, and leaves the map if it is over then. -/
structure Touches (c : Nat) (f : Chan → Chan) (m m' : Machine) : Prop where
  other : ∀ c', c' ≠ c → (m'.chans c').sides = (m.chans c').sides
  sides : (m'.chans c).sides = (f (m.chans c)).sides
  counter : m'.counter = m.counter
  shut : m.shutdowned = true → m'.shutdowned = true
  channels : m'.shutdowned = false → m'.channels =
    if (f (m.chans c)).over then m.channels.erase c else m.channels

theorem Touches.maybeNotify (m : Machine) (c : Nat) (f : Chan → Chan) (lost : Bool) :
    Touches c f m ((m.setChan c f).maybeNotify c lost) := by
  have hover : (f (m.chans c)).over = (!((m.setChan c f).chans c).tx &&
      !((m.setChan c f).chans c).rx && ((m.setChan c f).chans c).watched) := by
    simp [Chan.over]
  unfold Machine.maybeNotify
  dsimp only
  split
  · rename_i hc
    rw [← hover] at hc
    have hrevoke : Spares ((m.setChan c f).dropChannel c) ((m.setChan c f).revoke c lost) :=
      .of_inner (.revoke c lost)
    refine ⟨fun c' hc' => ?_, ?_, hrevoke.counter, hrevoke.shut, fun hs => ?_⟩
    · rw [hrevoke.sides c']
      simp [hc']
    · rw [hrevoke.sides c]
      simp [Chan.sides]
    · rw [hrevoke.channels hs, hc]
      rfl
  · rename_i hc
    rw [← hover] at hc
    refine ⟨fun c' hc' => ?_, ?_, rfl, id, fun _ => ?_⟩
    · simp [hc']
    · simp
    · rw [if_neg hc]
      rfl

end Cocaine.Node.Slave
