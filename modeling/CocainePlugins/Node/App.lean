import CocainePlugins.Framework.Transition
import CocainePlugins.Node.Error

/-!
# The start and the end of an application

`app_t` spools its application, and the isolate notifies a handle when it is done. The
handle passes `publish` or `cancel` to the application's loop, at once if it is notified in
the loop's thread. `publish` makes an overseer, publishes the service and then puts the
running state in place of whatever state there is; it does not look at that state. The
destructor cancels the application in its own thread, and the loop still runs what is queued
before the thread is joined.
-/

namespace Cocaine.Node

open Framework

/-! ## The application -/

namespace App

inductive State where
  | stopped (ec : ErrorCode)
  | spooling
  | running
deriving DecidableEq, Repr

/-- The future that the start callback is invoked with. -/
inductive Started where
  | ready
  | failed (ec : ErrorCode) (what : String)
deriving DecidableEq, Repr

/-- A `std::system_error`, or another exception. -/
inductive Fault where
  | system (ec : ErrorCode) (what : String)
  | other (what : String)
deriving DecidableEq, Repr

/-- The code that stands for an exception; `uncaught` for one that has none. -/
def Fault.code (uncaught : NodeErrors) : Fault → ErrorCode
  | .system ec _ => ec
  | .other _ => uncaught.code

def Fault.what : Fault → String
  | .system _ what | .other what => what

/-- The handlers that are queued on the loop. -/
inductive Job where
  | publish
  | cancel (ec : ErrorCode)
deriving DecidableEq, Repr

/-- What the loop's thread is at. -/
inductive LoopState where
  | idle
  /-- In `publish`, before the running state is made. -/
  | constructing
  /-- In `publish`, before the running state is put in its place. -/
  | installing
  /-- In `publish`, before the state is cancelled with the code of the exception. -/
  | failing (ec : ErrorCode)
deriving DecidableEq, Repr

inductive Phase where
  | created | spooled
  /-- The constructor has returned, and the loop runs. -/
  | started
  /-- The destructor has cancelled the state, and waits for the thread. -/
  | cancelled
  | joined
deriving DecidableEq, Repr

/-- A `publish` is on its way to the running state. -/
def LoopState.publishes : LoopState → Bool
  | .constructing | .installing => true
  | .idle | .failing _ => false

/-- How the constructor of the running state goes: it may throw before or after it has made
the overseer. -/
inductive Construction where
  | made (published : Bool)
  | throws (fault : Fault) (overseer : Bool)
deriving DecidableEq, Repr

end App

structure App where
  state : App.State := .stopped .success
  phase : App.Phase := .created
  queue : List App.Job := []
  loop : App.LoopState := .idle
  /-- The invocations of the start callback, newest first. -/
  results : List App.Started := []
  overseers : Nat := 0
  /-- How often the service was published. -/
  published : Nat := 0
  /-- How often the spool handle was notified. -/
  notified : Nat := 0
deriving DecidableEq, Repr

namespace App

inductive Label where
  /-- `app_state_t::spool`, and what the isolate throws. -/
  | spool (fault : Option Fault)
  | start
  | onReady (inLoop : Bool)
  | onAbort (inLoop : Bool) (ec : ErrorCode) (reason : String)
  | run
  | construct (c : Construction)
  | install
  | fail
  | spawned (publishes : Bool)
  | destroy
  | join
deriving DecidableEq, Repr

variable (s : App)

/-- `app_state_t::cancel`. -/
def cancel (ec : ErrorCode) : App := { s with state := .stopped ec }

/-- The loop's thread runs handlers. -/
def runs : Bool := s.phase == .started || s.phase == .cancelled

/-- The handle's `parent` is there. -/
def alive : Bool := s.phase == .spooled || s.runs

/-- The loop runs a handler: `publish` begins, and `cancel` is done. -/
def runJob : Job → App
  | .publish => { s with loop := .constructing }
  | .cancel ec => s.cancel ec

/-- `loop->dispatch`. -/
def dispatch (inLoop : Bool) (job : Job) : Option App :=
  if inLoop then
    if s.runs && s.loop == .idle then some (s.runJob job) else none
  else some { s with queue := s.queue ++ [job] }

/-- `spool_handle_t::on_abort`. -/
def onAbort (inLoop : Bool) (ec : ErrorCode) (reason : String) : Option App :=
  (s.dispatch inLoop (.cancel ec)).map fun s =>
    { s with results := .failed ec reason :: s.results, notified := s.notified + 1 }

/-- `spool_handle_t::on_ready`. -/
def onReady (inLoop : Bool) : Option App :=
  (s.dispatch inLoop .publish).map fun s => { s with notified := s.notified + 1 }

def step : Label → Option App
  | .spool fault =>
    if s.phase = .created then
      let s₁ : App := { s with state := .spooling, phase := .spooled }
      match fault with
      | none => some s₁
      -- The loop does not run yet.
      | some x => s₁.onAbort false (x.code .uncaughtSpoolError) x.what
    else none
  | .start => if s.phase = .spooled then some { s with phase := .started } else none
  | .onReady inLoop => if s.alive then s.onReady inLoop else none
  | .onAbort inLoop ec reason => if s.alive then s.onAbort inLoop ec reason else none
  | .run =>
    match s.queue with
    | job :: queue => if s.runs && s.loop == .idle then some ({ s with queue }.runJob job) else none
    | [] => none
  | .construct c =>
    if s.loop = .constructing then
      match c with
      | .made published =>
        some { s with
          loop := .installing
          overseers := s.overseers + 1
          published := s.published + published.toNat }
      | .throws fault overseer =>
        let ec := fault.code .uncaughtPublishError
        some { s with
          loop := .failing ec
          overseers := s.overseers + overseer.toNat
          results := .failed ec fault.what :: s.results }
    else none
  | .install =>
    if s.loop = .installing then
      some { s with state := .running, loop := .idle, results := .ready :: s.results }
    else none
  | .fail =>
    match s.loop with
    | .failing ec =>
      let s₁ : App := { s with loop := .idle }
      some (if ec.failed then s₁.cancel ec else s₁)
    | _ => none
  | .spawned publishes =>
    if s.state = .running then some { s with published := s.published + publishes.toNat } else none
  | .destroy =>
    if s.phase = .started then some { s.cancel .success with phase := .cancelled } else none
  | .join =>
    if s.phase = .cancelled ∧ s.loop = .idle ∧ s.queue = [] then some { s with phase := .joined }
    else none

/-- The runs of `publish` that are queued or have begun. -/
def pending : Nat := s.queue.count .publish + s.loop.publishes.toNat

/-- The destructor has cancelled the state. -/
def cancelled : Bool := s.phase == .cancelled || s.phase == .joined

end App

/-- An application, from its construction on. -/
def appSystem : System App App.Label where
  init s := s = {}
  step := App.step

/-- The handle is notified once, `publish` is not pending when the destructor cancels, and
`on_ready` is not called after that. -/
def App.Orderly (s : App) : App.Label → Prop
  | .onReady _ => s.notified = 0 ∧ s.phase ≠ .cancelled
  | .onAbort _ _ _ => s.notified = 0
  | .destroy => s.pending = 0
  | _ => True

instance (s : App) (a : App.Label) : Decidable (s.Orderly a) := by
  unfold App.Orderly
  split <;> infer_instance

/-! ## What a step does -/

namespace App

variable {s s' : App}

/-- What `dispatch` leaves alone. -/
structure Dispatched (s s' : App) : Prop where
  phase : s'.phase = s.phase
  results : s'.results = s.results
  notified : s'.notified = s.notified
  overseers : s'.overseers = s.overseers
  published : s'.published = s.published
  state : s'.state = .running → s.state = .running

theorem dispatched {inLoop : Bool} {job : Job} (h : s.dispatch inLoop job = some s') :
    Dispatched s s' ∧ s'.pending = s.pending + if job = .publish then 1 else 0 := by
  unfold dispatch at h
  split at h
  · split at h
    · rename_i hc
      obtain ⟨-, hidle⟩ : s.runs = true ∧ s.loop = .idle := by simpa using hc
      cases h
      cases job with
      | publish => exact ⟨⟨rfl, rfl, rfl, rfl, rfl, id⟩, by simp [runJob, pending, hidle, LoopState.publishes]⟩
      | cancel ec => exact ⟨⟨rfl, rfl, rfl, rfl, rfl, by simp [runJob, cancel]⟩, by simp [runJob, cancel, pending]⟩
    · cases h
  · cases h
    refine ⟨⟨rfl, rfl, rfl, rfl, rfl, id⟩, ?_⟩
    cases job with
    | publish =>
      simp only [pending, List.count_append, List.count_singleton_self, if_true]
      omega
    | cancel ec => simp [pending]

inductive Stepped (s : App) : Label → App → Prop where
  | spool (created : s.phase = .created) :
      Stepped s (.spool none) { s with state := .spooling, phase := .spooled }
  | spoolThrows {x : Fault} {s' : App} (created : s.phase = .created)
      (aborted : onAbort { s with state := .spooling, phase := .spooled } false
        (x.code .uncaughtSpoolError) x.what = some s') : Stepped s (.spool (some x)) s'
  | start (spooled : s.phase = .spooled) : Stepped s .start { s with phase := .started }
  | onReady {inLoop : Bool} {s' : App} (alive : s.alive = true) (ready : s.onReady inLoop = some s') :
      Stepped s (.onReady inLoop) s'
  | onAbort {inLoop : Bool} {ec : ErrorCode} {reason : String} {s' : App} (alive : s.alive = true)
      (aborted : s.onAbort inLoop ec reason = some s') : Stepped s (.onAbort inLoop ec reason) s'
  | run {job : Job} {queue : List Job} (queued : s.queue = job :: queue) (idle : s.loop = .idle) :
      Stepped s .run (runJob { s with queue } job)
  | made {published : Bool} (constructing : s.loop = .constructing) :
      Stepped s (.construct (.made published)) { s with
        loop := .installing
        overseers := s.overseers + 1
        published := s.published + published.toNat }
  | throws {fault : Fault} {overseer : Bool} (constructing : s.loop = .constructing) :
      Stepped s (.construct (.throws fault overseer)) { s with
        loop := .failing (fault.code .uncaughtPublishError)
        overseers := s.overseers + overseer.toNat
        results := .failed (fault.code .uncaughtPublishError) fault.what :: s.results }
  | install (installing : s.loop = .installing) :
      Stepped s .install { s with state := .running, loop := .idle, results := .ready :: s.results }
  | fail {ec : ErrorCode} (failing : s.loop = .failing ec) :
      Stepped s .fail (if ec.failed then cancel { s with loop := .idle } ec else { s with loop := .idle })
  | spawned {publishes : Bool} (running : s.state = .running) :
      Stepped s (.spawned publishes) { s with published := s.published + publishes.toNat }
  | destroy (started : s.phase = .started) :
      Stepped s .destroy { s.cancel .success with phase := .cancelled }
  | join (cancelled : s.phase = .cancelled) : Stepped s .join { s with phase := .joined }

theorem stepped {a : Label} (h : s.step a = some s') : Stepped s a s' := by
  cases a with
  | spool fault =>
    simp only [step] at h
    split at h
    · rename_i hp
      cases fault with
      | none =>
        cases h
        exact .spool hp
      | some x => exact .spoolThrows hp h
    · cases h
  | onReady inLoop =>
    obtain ⟨hc, h⟩ := Option.ite_none_right_eq_some.mp h
    exact .onReady hc h
  | onAbort inLoop ec reason =>
    obtain ⟨hc, h⟩ := Option.ite_none_right_eq_some.mp h
    exact .onAbort hc h
  | run =>
    simp only [step] at h
    split at h
    · rename_i job queue hq
      obtain ⟨hc, rfl⟩ := of_guard h
      obtain ⟨-, hidle⟩ : s.runs = true ∧ s.loop = .idle := by simpa using hc
      exact .run hq hidle
    · cases h
  | construct c =>
    simp only [step] at h
    split at h
    · rename_i hl
      cases c with
      | made published =>
        cases h
        exact .made hl
      | throws fault overseer =>
        cases h
        exact .throws hl
    · cases h
  | fail =>
    simp only [step] at h
    split at h
    · rename_i ec hl
      cases h
      exact .fail hl
    · cases h
  | start =>
    obtain ⟨hc, rfl⟩ := of_guard h
    exact .start hc
  | install =>
    obtain ⟨hc, rfl⟩ := of_guard h
    exact .install hc
  | spawned publishes =>
    obtain ⟨hc, rfl⟩ := of_guard h
    exact .spawned hc
  | destroy =>
    obtain ⟨hc, rfl⟩ := of_guard h
    exact .destroy hc
  | join =>
    obtain ⟨hc, rfl⟩ := of_guard h
    exact .join hc.1

theorem pending_of_publishes (h : s.loop.publishes = true) :
    s.pending = s.queue.count .publish + 1 := by
  simp [pending, h]

theorem pending_of_not (h : s.loop.publishes = false) : s.pending = s.queue.count .publish := by
  simp [pending, h]

/-- A notification is worth one run of `publish` or one invocation of the callback, and none
is pending after the destructor has cancelled. -/
structure Tame (s : App) : Prop where
  created : s.phase = .created → s.notified = 0
  once : s.notified ≤ 1
  worth : s.results.length + s.pending ≤ s.notified
  down : s.cancelled = true → s.pending = 0 ∧ s.state ≠ .running

namespace Tame

theorem onAbort (h : Tame s) {inLoop : Bool} {ec : ErrorCode} {reason : String}
    (hn : s.notified = 0) (hp : s.phase ≠ .created) (hs : s.onAbort inLoop ec reason = some s') :
    Tame s' := by
  obtain ⟨s₁, hs₁, rfl⟩ := Option.map_eq_some_iff.mp hs
  obtain ⟨hd, hpend⟩ := dispatched hs₁
  have hpend : s₁.pending = s.pending := by simpa using hpend
  have hworth := h.worth
  refine ⟨fun hc => absurd (hd.phase.symm.trans hc) hp, ?_, ?_, fun hc => ?_⟩
  · simp [hd.notified, hn]
  · show (.failed ec reason :: s₁.results).length + s₁.pending ≤ s₁.notified + 1
    rw [hpend, hd.results, hd.notified, List.length_cons]
    omega
  · have hc' : s.cancelled = true := by
      simpa [cancelled, hd.phase] using hc
    obtain ⟨hzero, hne⟩ := h.down hc'
    exact ⟨hpend.trans hzero, fun hr => hne (hd.state hr)⟩

theorem onReady (h : Tame s) {inLoop : Bool} (hn : s.notified = 0) (hp : s.phase ≠ .created)
    (hc : s.cancelled = false) (hs : s.onReady inLoop = some s') : Tame s' := by
  obtain ⟨s₁, hs₁, rfl⟩ := Option.map_eq_some_iff.mp hs
  obtain ⟨hd, hpend⟩ := dispatched hs₁
  have hpend : s₁.pending = s.pending + 1 := by simpa using hpend
  have hworth := h.worth
  refine ⟨fun hx => absurd (hd.phase.symm.trans hx) hp, ?_, ?_, fun hx => ?_⟩
  · simp [hd.notified, hn]
  · show s₁.results.length + s₁.pending ≤ s₁.notified + 1
    rw [hpend, hd.results, hd.notified]
    omega
  · have hx' : s.cancelled = true := by simpa [cancelled, hd.phase] using hx
    rw [hc] at hx'
    cases hx'

/-- A step of the loop, or of what was published: what is pending goes on, or has invoked the
callback. -/
theorem carry (h : Tame s) (hphase : s'.phase = s.phase) (hn : s'.notified = s.notified)
    (hw : s'.results.length + s'.pending = s.results.length + s.pending)
    (hp : s'.pending ≤ s.pending) (hst : s.cancelled = true → s'.state ≠ .running) : Tame s' := by
  have hworth := h.worth
  refine ⟨fun hx => ?_, ?_, ?_, fun hc => ?_⟩
  · rw [hn]
    exact h.created (hphase ▸ hx)
  · rw [hn]
    exact h.once
  · rw [hn, hw]
    exact hworth
  · have hc' : s.cancelled = true := by simpa [cancelled, hphase] using hc
    have hzero := (h.down hc').1
    exact ⟨by omega, hst hc'⟩

theorem run (h : Tame s) {job : Job} {queue : List Job} (hq : s.queue = job :: queue)
    (hl : s.loop = .idle) : Tame (runJob { s with queue } job) := by
  cases job with
  | publish =>
    have hpend : (runJob { s with queue } .publish).pending = s.pending := by
      rw [pending_of_publishes rfl, pending_of_not (by rw [hl]; rfl), hq, List.count_cons_self]
      rfl
    exact h.carry rfl rfl (by rw [hpend]; rfl) (Nat.le_of_eq hpend) fun hc => (h.down hc).2
  | cancel ec =>
    have hpend : (runJob { s with queue } (.cancel ec)).pending = s.pending := by
      simp [runJob, cancel, pending, hq]
    exact h.carry rfl rfl (by rw [hpend]; rfl) (Nat.le_of_eq hpend) (by simp [runJob, cancel])

theorem finish (h : Tame s) (hl : s.loop.publishes = true) (hl' : s'.loop.publishes = false)
    (hq : s'.queue = s.queue) (hphase : s'.phase = s.phase) (hn : s'.notified = s.notified)
    (hr : s'.results.length = s.results.length + 1) : Tame s' := by
  have hpend := pending_of_publishes hl
  have hpend' : s'.pending = s.queue.count .publish := by rw [pending_of_not hl', hq]
  refine h.carry hphase hn (by omega) (by omega) fun hc => ?_
  -- Nothing is pending in an application that was cancelled.
  have hzero := (h.down hc).1
  omega

theorem fail (h : Tame s) {ec : ErrorCode} (hl : s.loop = .failing ec) :
    Tame (if ec.failed then cancel { s with loop := .idle } ec else { s with loop := .idle }) := by
  have hpend : (App.pending { s with loop := .idle }) = s.pending := by
    rw [pending_of_not rfl, pending_of_not (by rw [hl]; rfl)]
  split
  · exact h.carry rfl rfl (congrArg _ hpend) (Nat.le_of_eq hpend) (by simp [cancel])
  · exact h.carry rfl rfl (congrArg _ hpend) (Nat.le_of_eq hpend) fun hc => (h.down hc).2

theorem step (h : Tame s) {a : Label} (hok : s.Orderly a) (hs : s.step a = some s') : Tame s' := by
  have hspooled : s.phase = .created → Tame { s with state := .spooling, phase := .spooled } :=
    fun hp => ⟨by simp, h.once, h.worth, by simp [cancelled]⟩
  cases stepped hs with
  | spool hp => exact hspooled hp
  | spoolThrows hp hx => exact (hspooled hp).onAbort (h.created hp) (by simp) hx
  | start hp => exact ⟨by simp, h.once, h.worth, by simp [cancelled]⟩
  | onReady ha hx =>
    refine h.onReady hok.1 ?_ ?_ hx
    · rintro hc
      simp [alive, runs, hc] at ha
    · have hne := hok.2
      cases hc : s.phase with
      | cancelled => exact absurd hc hne
      | joined => simp [alive, runs, hc] at ha
      | created | spooled | started => simp [cancelled, hc]
  | onAbort ha hx =>
    refine h.onAbort hok ?_ hx
    rintro hc
    simp [alive, runs, hc] at ha
  | run hq hl => exact h.run hq hl
  | @made published hl =>
    have hpend : App.pending { s with
        loop := .installing
        overseers := s.overseers + 1
        published := s.published + published.toNat } = s.pending := by
      rw [pending_of_publishes rfl, pending_of_publishes (by rw [hl]; rfl)]
    exact h.carry rfl rfl (congrArg _ hpend) (Nat.le_of_eq hpend) fun hc => (h.down hc).2
  | throws hl => exact h.finish (by rw [hl]; rfl) rfl rfl rfl rfl rfl
  | install hl => exact h.finish (by rw [hl]; rfl) rfl rfl rfl rfl rfl
  | fail hl => exact h.fail hl
  | spawned hr => exact ⟨h.created, h.once, h.worth, h.down⟩
  | destroy hp => exact ⟨by simp, h.once, h.worth, fun _ => ⟨hok, by simp [cancel]⟩⟩
  | join hp => exact ⟨by simp, h.once, h.worth, fun _ => h.down (by simp [cancelled, hp])⟩

/-- Nothing is made or published once the destructor has cancelled. -/
theorem quiet (h : Tame s) (hc : s.cancelled = true) {a : Label} (hs : s.step a = some s') :
    s'.cancelled = true ∧ s'.overseers = s.overseers ∧ s'.published = s.published := by
  obtain ⟨hpend, hne⟩ := h.down hc
  have hloop : s.loop.publishes = false := by
    cases hl : s.loop.publishes with
    | false => rfl
    | true => simp [pending, hl] at hpend
  have hphase : s.phase = .cancelled ∨ s.phase = .joined := by simpa [cancelled] using hc
  have hafter : ∀ p, s.phase = p → p = .cancelled ∨ p = .joined := by
    rintro _ rfl
    exact hphase
  cases stepped hs with
  | spool hp | spoolThrows hp _ | start hp | destroy hp => simpa using hafter _ hp
  | onReady _ hx | onAbort _ hx =>
    obtain ⟨s₁, hs₁, rfl⟩ := Option.map_eq_some_iff.mp hx
    obtain ⟨hd, -⟩ := dispatched hs₁
    exact ⟨by simpa [cancelled, hd.phase] using hc, hd.overseers, hd.published⟩
  | @run job _ _ _ => cases job <;> exact ⟨hc, rfl, rfl⟩
  | made hl | throws hl | install hl => simp [hl, LoopState.publishes] at hloop
  | fail hl => split <;> exact ⟨hc, rfl, rfl⟩
  | spawned hr => exact absurd hr hne
  | join _ => exact ⟨by simp [cancelled], rfl, rfl⟩

end Tame

theorem tame (hr : appSystem.Reachable Orderly s) : Tame s := by
  refine hr.induct (P := Tame) ?_ fun h hok hs => h.step hok hs
  rintro _ rfl
  exact ⟨fun _ => rfl, Nat.zero_le 1, Nat.le_refl 0, by simp [cancelled]⟩

/-- The start callback is invoked at most once, and once the destructor has cancelled the
state, the application does not run, no overseer is made and no service is published. -/
theorem cancelled_stays_down (hr : appSystem.Reachable Orderly s) : s.results.length ≤ 1 ∧
    (s.cancelled = true → ∀ t, appSystem.Path Orderly s t →
      t.state ≠ .running ∧ t.overseers = s.overseers ∧ t.published = s.published) := by
  have h := tame hr
  refine ⟨?_, fun hc t hp => ?_⟩
  · have hworth := h.worth
    have honce := h.once
    omega
  · have hkeep : Tame t ∧ t.cancelled = true ∧ t.overseers = s.overseers ∧
        t.published = s.published := by
      refine hp.induct (P := fun t => Tame t ∧ t.cancelled = true ∧ t.overseers = s.overseers ∧
        t.published = s.published) ⟨h, hc, rfl, rfl⟩ ?_
      rintro u a v ⟨hu, hcu, ho, hpub⟩ hok hs
      obtain ⟨hcv, ho', hpub'⟩ := hu.quiet hcu hs
      exact ⟨hu.step hok hs, hcv, ho'.trans ho, hpub'.trans hpub⟩
    exact ⟨(hkeep.1.down hkeep.2.1).2, hkeep.2.2⟩

/-- An application that runs and is destroyed. -/
theorem cancelled_stays_down_running : ∃ s, appSystem.Reachable Orderly s ∧
    s.cancelled = true ∧ s.results = [.ready] ∧ s.results.length ≤ 1 := by
  obtain ⟨s, hr, hs⟩ := appSystem.exists_reachable Orderly
    (P := fun s => s.cancelled = true ∧ s.results = [.ready])
    [.spool none, .start, .onReady true, .construct (.made true), .install, .destroy, .join] rfl
    (by decide +kernel)
  exact ⟨s, hr, hs.1, hs.2, (cancelled_stays_down hr).1⟩

/-- The handle was notified, and the destructor has cancelled before the loop runs the
`publish` that is queued. -/
def overtaken : App where
  phase := .cancelled
  queue := [.publish]
  notified := 1

theorem cancelled_runs_again : appSystem.Reachable System.Any overtaken ∧
    overtaken.cancelled = true ∧ ∃ t, appSystem.Path System.Any overtaken t ∧
      t.state = .running ∧ t.overseers = 1 ∧ t.published = 1 := by
  have hr : appSystem.Reachable System.Any overtaken :=
    .of_run [.spool none, .start, .onReady false, .destroy] rfl (by decide +kernel)
  obtain ⟨t, ht, hP⟩ : ∃ t ∈ appSystem.run System.Any overtaken
      [.run, .construct (.made true), .install],
      t.state = .running ∧ t.overseers = 1 ∧ t.published = 1 := by decide +kernel
  exact ⟨hr, rfl, t, .of_run _ ht, hP⟩

end App

end Cocaine.Node
