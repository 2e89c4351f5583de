import CocainePlugins.Framework.Transition
import CocainePlugins.Framework.Waits
import CocainePlugins.Node.Engine.Enqueue

/-!
# The backoff between failures of slaves

`on_slave_death` arms a timer when a slave has failed, unless one is armed already, and
`rebalance_slaves` spawns nothing as long as there is one. The delay doubles up to 32
seconds if the last failure is less than 32 seconds old, and starts again at one second
otherwise. The time since the last failure contains the last delay, so that a failure
after the longest delay is always too late. `rebalance_slaves` runs on any thread and
looks at the timer once, before it spawns. Times are in nanoseconds since the epoch.
-/

namespace Cocaine.Node

open Framework

structure Backoff where
  now : Nat := 0
  stopped : Bool := false
  timer : Option Nat := none
  made : Nat := 0
  /-- The waits whose `on_spawn_rate_timeout` has not run yet. -/
  waits : List (Wait Unit) := []
  lastFailed : Nat := 0
  /-- In seconds. -/
  lastTimeout : Nat := 1
  /-- The calls of `rebalance_slaves` that have found no timer and have not returned. -/
  passed : Nat := 0
  /-- The delays of the timers, the latest first. -/
  delays : List Nat := []
  /-- The time at which the latest timer expires. -/
  due : Option Nat := none
  /-- The slaves that were spawned while there was a timer. -/
  hasty : Nat := 0
deriving DecidableEq, Repr

namespace Backoff

def second : Nat := 1000000000

variable (st : Backoff)

def reset : Backoff :=
  match st.timer with
  | none => st
  | some t => { st with timer := none, waits := Waits.abort st.waits t }

def nextTimeout : Nat :=
  if st.now - st.lastFailed < 32 * second then min (st.lastTimeout * 2) 32 else 1

/-- Arms a new timer, `late` after the time was compared. -/
def arm (late : Nat) : Backoff :=
  let timeout := st.nextTimeout
  let due := st.now + late + timeout * second
  { st with
    timer := some st.made
    made := st.made + 1
    waits := { handler := (), timer := st.made, due := due } :: st.waits
    lastTimeout := timeout
    delays := timeout :: st.delays
    due := some due }

/-- `on_slave_death` with an error; `late` and `later` pass between its looks at the
clock. -/
def onSlaveDeath (late later : Nat) : Backoff :=
  let st₁ := if st.timer.isSome then st else st.arm late
  { st₁ with lastFailed := st.now + late + later, now := st.now + late + later }

/-- What `on_spawn_rate_timeout` does before it rebalances; it ignores its code. -/
def onSpawnRateTimeout (i : Nat) : Backoff := { st with waits := st.waits.eraseIdx i }.reset

/-- `rebalance_slaves` up to its look at the timer. -/
def rebalance : Backoff :=
  if st.stopped || st.timer.isSome then st else { st with passed := st.passed + 1 }

/-- A call of `rebalance_slaves` spawns a slave. -/
def spawn : Backoff := { st with hasty := st.hasty + st.timer.isSome.toNat }

/-- The destructor of `overseer_t`. -/
def stop : Backoff := { st with stopped := true }.reset

inductive Label where
  | tick (n : Nat)
  | failure (late later : Nat)
  /-- The time of a wait has come. -/
  | expire (i : Nat)
  | timeout (i : Nat)
  | rebalance
  | spawn
  /-- A call of `rebalance_slaves` returns or throws. -/
  | leave
  | stop
deriving DecidableEq, Repr

def step (st : Backoff) : Label → Option Backoff
  | .tick n => some { st with now := st.now + n }
  | .failure late later => some (st.onSlaveDeath late later)
  | .expire i =>
    match st.waits[i]? with
    | some w => if w.pending ∧ w.due ≤ st.now then some { st with waits := Waits.expire st.waits i } else none
    | none => none
  | .timeout i =>
    match st.waits[i]? with
    | some w => if w.pending then none else some (st.onSpawnRateTimeout i)
    | none => none
  | .rebalance => some st.rebalance
  | .spawn => if 0 < st.passed then some st.spawn else none
  | .leave => if 0 < st.passed then some { st with passed := st.passed - 1 } else none
  | .stop => some st.stop

end Backoff

/-- The clock may stand at any time first. -/
def backoffSystem : System Backoff Backoff.Label where
  init st := ∃ now, st = { now := now }
  step := Backoff.step

namespace Backoff

/-! ## What a step does -/

theorem reset_eq (st : Backoff) : ∃ ws, st.reset = { st with timer := none, waits := ws } ∧
    ∀ w ∈ ws, w.pending = true → w ∈ st.waits ∧ st.timer ≠ some w.timer := by
  unfold reset
  split
  · rename_i ht
    exact ⟨st.waits, by rw [← ht], fun w hw _ => ⟨hw, by simp [ht]⟩⟩
  · rename_i t ht
    refine ⟨Waits.abort st.waits t, rfl, fun w hw hp => ?_⟩
    obtain ⟨w, hmem, rfl⟩ := List.mem_map.mp hw
    obtain ⟨-, hne⟩ := Wait.pending_abort.mp hp
    rw [Wait.abort_of_ne hne]
    exact ⟨hmem, fun h => hne (Option.some.inj (h.symm.trans ht))⟩

inductive Stepped (st : Backoff) : Label → Backoff → Prop where
  | tick {n : Nat} : Stepped st (.tick n) { st with now := st.now + n }
  | arms {late later : Nat} : st.timer = none → Stepped st (.failure late later)
      { st.arm late with lastFailed := st.now + late + later, now := st.now + late + later }
  | finds {late later t : Nat} : st.timer = some t → Stepped st (.failure late later)
      { st with lastFailed := st.now + late + later, now := st.now + late + later }
  | expire {i : Nat} : Stepped st (.expire i) { st with waits := Waits.expire st.waits i }
  /-- The timer is destroyed, by its handler or at the end. -/
  | drops {a : Label} {ws : List (Wait Unit)} {stopped : Bool} :
      (∀ w ∈ ws, w.pending = true → w ∈ st.waits ∧ st.timer ≠ some w.timer) →
      Stepped st a { st with stopped := stopped, timer := none, waits := ws }
  | returns : Stepped st .rebalance st
  | passes : st.timer = none → Stepped st .rebalance { st with passed := st.passed + 1 }
  | spawn : 0 < st.passed → Stepped st .spawn st.spawn
  | leave : Stepped st .leave { st with passed := st.passed - 1 }

theorem stepped {st st' : Backoff} {a : Label} (h : st.step a = some st') : Stepped st a st' := by
  cases a with
  | tick n =>
    cases h
    exact .tick
  | failure late later =>
    cases h
    unfold onSlaveDeath
    cases ht : st.timer with
    | none => exact .arms ht
    | some t => exact .finds ht
  | expire i =>
    simp only [step] at h
    split at h
    · obtain ⟨-, rfl⟩ := of_guard h
      exact .expire
    · cases h
  | timeout i =>
    simp only [step] at h
    split at h
    · split at h
      · cases h
      · cases h
        obtain ⟨ws, heq, hws⟩ := reset_eq { st with waits := st.waits.eraseIdx i }
        rw [onSpawnRateTimeout, heq]
        exact .drops fun w hw hp => ⟨List.mem_of_mem_eraseIdx (hws w hw hp).1, (hws w hw hp).2⟩
    · cases h
  | rebalance =>
    cases h
    unfold rebalance
    split
    · exact .returns
    · rename_i hc
      exact .passes (by simp_all)
  | spawn =>
    obtain ⟨hc, rfl⟩ := of_guard h
    exact .spawn hc
  | leave =>
    obtain ⟨-, rfl⟩ := of_guard h
    exact .leave
  | stop =>
    cases h
    obtain ⟨ws, heq, hws⟩ := reset_eq { st with stopped := true }
    rw [stop, heq]
    exact .drops hws

variable {st st' : Backoff} {a : Label}

/-! ## One timer -/

/-- Only the timer that is there has a pending wait, and it has one. -/
structure Single (st : Backoff) : Prop where
  owner : ∀ w ∈ st.waits, w.pending = true → st.timer = some w.timer
  single : st.waits.countP Wait.pending ≤ 1

theorem Single.none_pending (h : Single st) (ht : st.timer = none) :
    st.waits.countP Wait.pending = 0 :=
  List.countP_eq_zero.mpr fun w hw hp => nomatch ht.symm.trans (h.owner w hw hp)

theorem Single.step (hs : Single st) (h : Stepped st a st') : Single st' := by
  cases h with
  | arms ht =>
    have hnone := hs.none_pending ht
    refine ⟨fun w hw hp => ?_, ?_⟩
    · rcases List.mem_cons.mp hw with rfl | hw
      · rfl
      · exact absurd hp (List.countP_eq_zero.mp hnone w hw)
    · show (_ :: st.waits).countP Wait.pending ≤ 1
      rw [List.countP_cons, hnone]
      split <;> omega
  | @expire i =>
    refine ⟨fun w hw hp => ?_, Nat.le_trans (Waits.countP_pending_expire i) hs.single⟩
    rcases Waits.mem_expire hw with hw | ⟨v, -, rfl⟩
    · exact hs.owner w hw hp
    · cases hp
  | @drops _ ws _ hws =>
    have hnone : ∀ w ∈ ws, ¬w.pending = true := fun w hw hp =>
      (hws w hw hp).2 (hs.owner w (hws w hw hp).1 hp)
    refine ⟨fun w hw hp => absurd hp (hnone w hw), ?_⟩
    exact Nat.le_trans (Nat.le_of_eq (List.countP_eq_zero.mpr hnone)) (Nat.zero_le 1)
  | _ => exact ⟨hs.owner, hs.single⟩

/-! ## The delays -/

theorem nextTimeout_le (st : Backoff) : st.nextTimeout ≤ 32 := by
  unfold nextTimeout
  split <;> omega

/-- The delays are at most 32 seconds, and the last failure is in the past. -/
structure Bounded (st : Backoff) : Prop where
  delays : ∀ d ∈ st.delays, d ≤ 32
  lastTimeout : st.lastTimeout ≤ 32
  lastFailed : st.lastFailed ≤ st.now

theorem Bounded.step (hb : Bounded st) (h : Stepped st a st') : Bounded st' := by
  obtain ⟨hd, ht, hf⟩ := hb
  cases h with
  | tick => exact ⟨hd, ht, Nat.le_add_right_of_le hf⟩
  | arms => exact ⟨List.forall_mem_cons.mpr ⟨st.nextTimeout_le, hd⟩, st.nextTimeout_le, Nat.le_refl _⟩
  | finds => exact ⟨hd, ht, Nat.le_refl _⟩
  | _ => exact ⟨hd, ht, hf⟩

/-- Each failure that arms a timer comes at most a second after the last timer's time, and
if that timer's delay was more than 16 seconds, less than 32 seconds after the last
failure. -/
def Loops (st : Backoff) : Label → Prop
  | .failure _ _ => st.timer = none →
    (∀ due, st.due = some due → st.now ≤ due + second) ∧
    (st.lastTimeout ≤ 16 ∨ st.now - st.lastFailed < 32 * second)
  | _ => True

/-- The delays rise, and the last timer was not armed after the last failure. -/
structure Rising (st : Backoff) : Prop where
  rising : st.delays.Pairwise (fun later earlier => earlier ≤ later)
  top : ∀ d ∈ st.delays, d ≤ st.lastTimeout
  due : st.delays ≠ [] → ∃ due, st.due = some due ∧ due ≤ st.lastFailed + st.lastTimeout * second

theorem Rising.le_nextTimeout (hr : Rising st) (hb : Bounded st) (hd : st.delays ≠ [])
    (hsoon : ∀ due, st.due = some due → st.now ≤ due + second)
    (hwindow : st.lastTimeout ≤ 16 ∨ st.now - st.lastFailed < 32 * second) :
    st.lastTimeout ≤ st.nextTimeout := by
  obtain ⟨due, hdue, hle⟩ := hr.due hd
  have hnow := hsoon due hdue
  have hlt : st.now - st.lastFailed < 32 * second := by
    rcases hwindow with h | h
    · have : st.lastTimeout * second ≤ 16 * second := Nat.mul_le_mul_right _ h
      unfold second at *
      omega
    · exact h
  have := hb.lastTimeout
  rw [nextTimeout, if_pos hlt]
  omega

theorem Rising.step (hr : Rising st) (hb : Bounded st) (hok : Loops st a) (h : Stepped st a st') :
    Rising st' := by
  cases h with
  | @arms late later ht =>
    obtain ⟨hsoon, hwindow⟩ := hok ht
    have htop : ∀ d ∈ st.delays, d ≤ st.nextTimeout := by
      intro d hd
      exact Nat.le_trans (hr.top d hd) (hr.le_nextTimeout hb (List.ne_nil_of_mem hd) hsoon hwindow)
    refine ⟨List.pairwise_cons.mpr ⟨htop, hr.rising⟩,
      List.forall_mem_cons.mpr ⟨Nat.le_refl _, htop⟩, fun _ => ⟨_, rfl, ?_⟩⟩
    exact Nat.add_le_add_right (Nat.le_add_right ..) _
  | @finds late later t ht =>
    refine ⟨hr.rising, hr.top, fun hd => ?_⟩
    obtain ⟨due, hdue, hle⟩ := hr.due hd
    refine ⟨due, hdue, Nat.le_trans hle (Nat.add_le_add_right ?_ _)⟩
    exact Nat.le_add_right_of_le (Nat.le_add_right_of_le hb.lastFailed)
  | _ => exact ⟨hr.rising, hr.top, hr.due⟩

/-! ## Spawning -/

/-- No failure arms a timer while a call of `rebalance_slaves` has looked for one and has
not returned. -/
def Apart (st : Backoff) : Label → Prop
  | .failure _ _ => st.timer = none → st.passed = 0
  | _ => True

/-- No slave was spawned while there was a timer, and none can be now. -/
structure Patient (st : Backoff) : Prop where
  hasty : st.hasty = 0
  passed : st.timer ≠ none → st.passed = 0

theorem Patient.step (hp : Patient st) (hok : Apart st a) (h : Stepped st a st') : Patient st' := by
  cases h with
  | arms ht => exact ⟨hp.hasty, fun _ => hok ht⟩
  | drops => exact ⟨hp.hasty, fun h => absurd rfl h⟩
  | passes ht => exact ⟨hp.hasty, fun h => absurd ht h⟩
  | spawn hpassed =>
    have ht : st.timer = none := by
      by_contra h
      exact Nat.lt_irrefl 0 (hp.passed h ▸ hpassed)
    refine ⟨?_, hp.passed⟩
    rw [Backoff.spawn, ht]
    exact hp.hasty
  | leave => exact ⟨hp.hasty, fun h => by rw [hp.passed h]⟩
  | _ => exact ⟨hp.hasty, hp.passed⟩

/-! ## The engine -/

section Engine

variable {e : Engine}

/-- An engine with this timer and these times. -/
structure Agrees (e : Engine) (st : Backoff) : Prop where
  backoff : e.backoff = st.timer.isSome
  lastFailed : e.lastFailed = st.lastFailed
  lastTimeout : e.lastTimeout = st.lastTimeout

/-- A failure does to the timer what it does in the engine. -/
theorem Agrees.startBackoff (h : Agrees e st) (hb : Bounded st) (late later : Nat) :
    Agrees (e.startBackoff st.now (st.now + late + later : Nat)) (st.onSlaveDeath late later) := by
  have hwindow : (st.now : Int) - e.lastFailed < 32000000000 ↔
      st.now - st.lastFailed < 32 * second := by
    have := hb.lastFailed
    rw [h.lastFailed]
    unfold second
    omega
  unfold Engine.startBackoff onSlaveDeath
  cases ht : st.timer with
  | none =>
    have hbackoff : e.backoff = false := by rw [h.backoff, ht, Option.isSome_none]
    refine ⟨by simp [hbackoff, arm], by simp, ?_⟩
    simp [hbackoff, arm, nextTimeout, hwindow, h.lastTimeout]
  | some t =>
    have hbackoff : e.backoff = true := by rw [h.backoff, ht, Option.isSome_some]
    exact ⟨by simp [hbackoff, ht], by simp, by simp [hbackoff, h.lastTimeout]⟩

/-- A call that finds the timer spawns nothing. -/
theorem Agrees.pool_rebalanceSlaves (h : Agrees e st) (ht : st.timer.isSome = true)
    (env : Engine.Supply) :
    (e.rebalanceSlaves env).1.pool = e.pool := by
  obtain ⟨b, l, heq⟩ := e.afterTarget_eq
  unfold Engine.rebalanceSlaves
  split
  · rfl
  · rw [if_pos (by simp [h.backoff, ht]), heq]

end Engine

/-! ## Runs -/

theorem Single.of_reachable (hr : backoffSystem.Reachable System.Any st) : Single st := by
  refine hr.induct ?_ fun hi _ hs => hi.step (stepped hs)
  rintro _ ⟨now, rfl⟩
  exact ⟨nofun, Nat.zero_le 1⟩

theorem Bounded.init {now : Nat} : Bounded { now := now } :=
  ⟨nofun, Nat.one_le_two_pow (n := 5), Nat.zero_le now⟩

theorem Bounded.of_reachable (hr : backoffSystem.Reachable System.Any st) : Bounded st := by
  refine hr.induct ?_ fun hi _ hs => hi.step (stepped hs)
  rintro _ ⟨now, rfl⟩
  exact .init

theorem Rising.of_reachable (hr : backoffSystem.Reachable Loops st) : Rising st := by
  have h : Bounded st ∧ Rising st := by
    refine hr.induct (P := fun st => Bounded st ∧ Rising st) ?_ fun ⟨hb, hrise⟩ hok hs => ?_
    · rintro _ ⟨now, rfl⟩
      exact ⟨.init, .nil, nofun, fun h => absurd rfl h⟩
    · exact ⟨hb.step (stepped hs), hrise.step hb hok (stepped hs)⟩
  exact h.2

theorem Patient.of_reachable (hr : backoffSystem.Reachable Apart st) : Patient st := by
  refine hr.induct ?_ fun hp hok hs => hp.step hok (stepped hs)
  rintro _ ⟨now, rfl⟩
  exact ⟨rfl, fun h => absurd rfl h⟩

/-- In every run the delays are at most 32 seconds, and at most one timer is pending. The
delays never fall in a run whose failures come at most a second after the last timer, if
each that follows a delay of more than 16 seconds finds the last failure less than 32
seconds old. No slave is spawned while there is a timer in a run where no failure arms
one between the look at it and the end of a call of `rebalance_slaves`. -/
theorem backoff_of_failures (hr : backoffSystem.Reachable System.Any st) :
    (∀ d ∈ st.delays, d ≤ 32) ∧ st.waits.countP Wait.pending ≤ 1 ∧
    (backoffSystem.Reachable Loops st →
      st.delays.Pairwise (fun later earlier => earlier ≤ later)) ∧
    (backoffSystem.Reachable Apart st → st.hasty = 0) := by
  refine ⟨(Bounded.of_reachable hr).delays, (Single.of_reachable hr).single, fun hl => ?_, fun ha => ?_⟩
  · exact (Rising.of_reachable hl).rising
  · exact (Patient.of_reachable ha).hasty

section Runs

/-- What the failures of a crash loop do: each finds no timer, and comes at most a second
after the last one's time. -/
def Prompt (st : Backoff) : Label → Prop
  | .failure _ _ => st.timer = none ∧ ∀ due, st.due = some due → st.now ≤ due + second
  | _ => True

instance (st : Backoff) (a : Label) : Decidable (Prompt st a) := by
  unfold Prompt
  cases a <;> infer_instance

instance (st : Backoff) (a : Label) : Decidable (Loops st a) := by
  unfold Loops
  cases a <;> infer_instance

instance (st : Backoff) (a : Label) : Decidable (Apart st a) := by
  unfold Apart
  cases a <;> infer_instance

/-- A failure, and the timer's time and handler. -/
def round (seconds : Nat) : List Label :=
  [.failure 0 0, .tick (seconds * second), .expire 0, .timeout 0, .rebalance, .spawn, .leave]

theorem backoff_of_rounds : ∃ st : Backoff, st.delays = [16, 8, 4, 2, 1] ∧
    (st.delays.Pairwise fun later earlier => earlier ≤ later) ∧ st.hasty = 0 := by
  obtain ⟨st, hr, hd⟩ := backoffSystem.exists_reachable (fun st a => Loops st a ∧ Apart st a)
    (P := fun st => st.delays = [16, 8, 4, 2, 1]) ([1, 2, 4, 8, 16].flatMap round)
    ⟨40 * second, rfl⟩ (by decide +kernel)
  obtain ⟨-, -, hrising, hhasty⟩ := backoff_of_failures hr.any
  exact ⟨st, hd, hrising (hr.mono fun _ _ h => h.1), hhasty (hr.mono fun _ _ h => h.2)⟩

/-- After the delay of 32 seconds the next one is one second. And a slave is spawned by a
call that has looked at the timer before the failure. -/
theorem backoff_collapses :
    (∃ st, backoffSystem.Reachable Prompt st ∧ st.delays = [1, 32, 16, 8, 4, 2, 1]) ∧
    ∃ st, backoffSystem.Reachable Prompt st ∧ st.timer = some 0 ∧ st.hasty = 1 := by
  constructor
  · exact backoffSystem.exists_reachable Prompt
      ([1, 2, 4, 8, 16, 32].flatMap round ++ [.failure 0 0]) ⟨40 * second, rfl⟩ (by decide +kernel)
  · exact backoffSystem.exists_reachable Prompt
      [.rebalance, .failure 0 0, .spawn] ⟨40 * second, rfl⟩ (by decide +kernel)

end Runs

end Backoff

end Cocaine.Node
