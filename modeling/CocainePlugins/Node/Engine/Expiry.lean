import CocainePlugins.Node.Engine.Flow

/-!
# The time that is left to a request

`assign` drops a request whose timeout has passed, and `inject` gives the time
that is left to the timer of the channel. The timeout is a number of
milliseconds that the client sends; on its way to a point in time it goes
through two signed 64-bit counts. `assign_drops_iff` and `inject_countdown` say
what the two functions do with the result, and `Event.expiry_spec` how far it is
from the exact time.
-/

namespace Cocaine.Node.Engine

open Framework Slave

/-- The request timeout in milliseconds, as the client or the profile gives it. -/
def Event.given (ev : Event) (p : Profile) : Nat := ev.requestTimeout.getD p.requestTimeout

/-- When the request expires, in unbounded integers. -/
def Event.due (ev : Event) (p : Profile) : Int := ev.birthstamp + ev.given p * 1000000

/-- What `inject` does about the timeout of a channel that it has registered. -/
inductive Countdown where
  /-- Both dispatches are discarded at once. -/
  | closed
  /-- The timer of the channel gets so many milliseconds. -/
  | armed (ms : Int)
deriving DecidableEq, Repr

def Countdown.of (ms : Int) : Countdown := if ms ≤ 0 then .closed else .armed ms

def Event.countdown (ev : Event) (p : Profile) (now : Int) : Countdown :=
  .of (ev.duration p now)

/-- The part of `inject` that the countdown decides. -/
def beginCountdown (st : Engine) (i c : Nat) (env : Attempt) : Countdown → Engine
  | .closed => st.channelTimeout i c env.mute env.lost
  | .armed _ => st.perform i (.arm c)

/-- `assign` drops the request. -/
def drops (st : Engine) (i e : Nat) (env : Attempt) : Prop :=
  (st.assign i e env).1.expired = e :: st.expired

/-- The assignment of the request `e` reads these values, and no deadline of the
event has passed. -/
structure Attempt.Reads (env : Attempt) (st : Engine) (e : Nat) (ev : Event) (p : Profile)
    (now : Int) : Prop where
  profile : st.profile = p
  event : (st.loads e).event = ev
  now₁ : env.now₁ = now
  deadline : ∀ d ∈ ev.deadline, env.now₂ ≤ d

/-- Every assignment at that time drops the request if and only if it is due, and
every injection counts the whole milliseconds that are left. -/
structure Event.TimedExactly (ev : Event) (p : Profile) (now : Int) : Prop where
  drops : ∀ (st : Engine) (i e : Nat) (env : Attempt), env.Reads st e ev p now →
    (st.drops i e env ↔ ev.due p < now)
  counts : ev.countdown p now = .of ((ev.due p - now).tdiv 1000000)

/-- No assignment at that time drops the request. -/
def Event.Survives (ev : Event) (p : Profile) (now : Int) : Prop :=
  ∀ (st : Engine) (i e : Nat) (env : Attempt), env.Reads st e ev p now → ¬st.drops i e env

/-! ## What the engine does with the times -/

section Effect

variable {st : Engine} {i e : Nat} {env : Attempt}

theorem expired_flows {sc : Scope} {st' : Engine} (h : Flows sc st st') :
    st'.expired = st.expired := by
  induction h with
  | refl => rfl
  | tail _ h ih =>
    refine Eq.trans ?_ ih
    cases h <;> rfl

theorem expired_inject : (st.inject i e env).1.expired = st.expired := by
  by_cases ha : st.active i = true
  · have hb : Scope.bears {} env.lost := fun _ => trivial
    rcases inject_cases ha hb e with ⟨-, hp⟩ | ⟨-, hp⟩ | ⟨hfl, -⟩
    · rw [hp]
      rfl
    · rw [hp]
      rfl
    · rw [expired_flows hfl]
      rfl
  · simp [inject, ha, setDispatch, perform, setMachine]

theorem assign_drops_iff {ev : Event} {p : Profile} {now : Int} (h : env.Reads st e ev p now) :
    st.drops i e env ↔ ev.expiry p < now := by
  obtain ⟨rfl, rfl, rfl, hd⟩ := h
  have hdrop : (st.dropEvent e env.mute).expired = e :: st.expired := by
    unfold dropEvent
    split <;> rfl
  have hkeep : (st.inject i e env).1.expired ≠ e :: st.expired := by
    rw [expired_inject]
    exact fun h => absurd (congrArg List.length h) (by simp)
  unfold drops assign
  dsimp only
  split
  · rename_i hlt
    exact iff_of_true hdrop hlt
  · rename_i hlt
    refine iff_of_false ?_ hlt
    split
    · rename_i d hev
      rw [if_neg (by have := hd d hev; omega)]
      exact hkeep
    · exact hkeep

/-- An injection that registers its channel begins the countdown. -/
theorem inject_countdown (ha : st.active i = true) (hf : env.fault = none) :
    (st.inject i e env).1 =
      (((st.place i e).beginCountdown i ((st.machine i).counter + 1) env
        ((st.loads e).event.countdown st.profile env.now₃)).clientAttach e i
          ((st.machine i).counter + 1) env.lost).perform i
            (.watch ((st.machine i).counter + 1) (env.lost.contains i)) := by
  have hbegin : (st.place i e).beginCountdown i ((st.machine i).counter + 1) env
      ((st.loads e).event.countdown st.profile env.now₃) =
      if (st.loads e).event.duration st.profile env.now₃ ≤ 0 then
        (st.place i e).channelTimeout i ((st.machine i).counter + 1) env.mute env.lost
      else (st.place i e).perform i (.arm ((st.machine i).counter + 1)) := by
    unfold Event.countdown Countdown.of
    split <;> rfl
  rw [hbegin]
  simp [inject, ha, hf, setDispatch_setDispatch, place, attempt]

end Effect

/-! ## The times as 64-bit counts -/

theorem tdiv_cases (x : Int) : 0 ≤ x ∧ x.tdiv 1000000 = x / 1000000 ∨
    x ≤ 0 ∧ x.tdiv 1000000 = -(-x / 1000000) := by
  rcases Int.le_total 0 x with h | h
  · exact .inl ⟨h, Int.tdiv_eq_ediv_of_nonneg h⟩
  · refine .inr ⟨h, ?_⟩
    rw [← Int.tdiv_eq_ediv_of_nonneg (by omega), Int.neg_tdiv, Int.neg_neg]

/-- Two counts begin the same countdown if they are close, or both are not positive. -/
theorem countdown_eq {x y : Int} (h : Countdown.of (x.tdiv 1000000) = .of (y.tdiv 1000000)) :
    x - y < 1000000 ∧ y - x < 1000000 ∨ x < 1000000 ∧ y < 1000000 := by
  have hx := tdiv_cases x
  have hy := tdiv_cases y
  unfold Countdown.of at h
  split at h
  · split at h
    · omega
    · cases h
  · split at h
    · cases h
    · rw [Countdown.armed.injEq] at h
      omega

theorem countdown_closed {x : Int} (h : x < 1000000) : Countdown.of (x.tdiv 1000000) = .closed := by
  have hx := tdiv_cases x
  unfold Countdown.of
  rw [if_pos (by omega)]

namespace Event

variable (ev : Event) (p : Profile)

/-- The computed time differs from the exact one by a multiple of `2 ^ 64`. -/
theorem expiry_spec : Fits64 (ev.expiry p) ∧ ∃ k : Int, ev.due p = ev.expiry p + k * 2 ^ 64 := by
  obtain ⟨-, a, ha⟩ := i64_spec (ev.given p)
  obtain ⟨-, b, hb⟩ := i64_spec (ev.timeout p * 1000000)
  obtain ⟨hf, c, hc⟩ := i64_spec (ev.birthstamp + i64 (ev.timeout p * 1000000))
  have ht : ev.timeout p = i64 (ev.given p) := rfl
  have he : ev.expiry p = i64 (ev.birthstamp + i64 (ev.timeout p * 1000000)) := rfl
  refine ⟨hf, a * 1000000 + b + c, ?_⟩
  unfold due
  omega

theorem le_due (hb : Fits64 ev.birthstamp) : -2 ^ 63 ≤ ev.due p := by
  unfold due
  unfold Fits64 at hb
  omega

theorem expiry_eq (h : Fits64 (ev.due p)) : ev.expiry p = ev.due p := by
  obtain ⟨hf, k, hk⟩ := ev.expiry_spec p
  unfold Fits64 at h hf
  omega

variable {ev p} {now : Int}

theorem timedExactly_of_fits (hn : Fits64 now) (hb : Fits64 ev.birthstamp) (h : Fits64 (ev.due p))
    (hd : Fits64 (ev.due p - now) ∨ ev.due p - now < 1000000 - 2 ^ 64) :
    ev.TimedExactly p now := by
  have he := ev.expiry_eq p h
  refine ⟨fun st i e env hr => ?_, ?_⟩
  · rw [assign_drops_iff hr, he]
  · unfold countdown duration
    rw [he]
    rcases hd with hd | hd
    · rw [i64_eq_self hd]
    · -- What is left wraps to less than a millisecond.
      obtain ⟨hf, k, hk⟩ := i64_spec (ev.due p - now)
      have hle := ev.le_due p hb
      unfold Fits64 at hn hf
      rw [countdown_closed (by omega), countdown_closed (by omega)]

theorem exists_reads (ev : Event) (p : Profile) (now : Int) :
    ∃ (st : Engine) (e : Nat) (env : Attempt), env.Reads st e ev p now := by
  refine ⟨{ profile := p, loads := fun _ => { event := ev } }, 0,
    { now₁ := now, now₂ := ev.deadline.getD 0 }, rfl, rfl, rfl, fun d hd => ?_⟩
  rw [Option.mem_def.mp hd]
  exact Int.le_refl d

theorem fits_of_timedExactly (hn : Fits64 now) (hb : Fits64 ev.birthstamp)
    (h : ev.TimedExactly p now) :
    Fits64 (ev.due p) ∧ (Fits64 (ev.due p - now) ∨ ev.due p - now < 1000000 - 2 ^ 64) := by
  obtain ⟨st, e, env, hr⟩ := exists_reads ev p now
  have hdrop := (assign_drops_iff (i := 0) hr).symm.trans (h.drops st 0 e env hr)
  obtain ⟨hf, k, hk⟩ := ev.expiry_spec p
  obtain ⟨hf', k', hk'⟩ := i64_spec (ev.expiry p - now)
  have hcount := countdown_eq h.counts
  have hle := ev.le_due p hb
  unfold Fits64 at *
  omega

theorem survives_iff : ev.Survives p now ↔ now ≤ ev.expiry p := by
  constructor
  · intro h
    obtain ⟨st, e, env, hr⟩ := exists_reads ev p now
    have hdrop := h st 0 e env hr
    rw [assign_drops_iff hr] at hdrop
    omega
  · intro h st i e env hr
    rw [assign_drops_iff hr]
    omega

end Event

/-- The request is dropped exactly when it is due and its channel gets exactly the
time that is left, if and only if the time at which it is due and the time left
have 64-bit counts of nanoseconds, or what is left is so long past that its count
wraps to less than a millisecond. With a longer timeout that is due at such a time
a request survives as well. -/
theorem request_timed_exactly {ev : Event} {p : Profile} {now : Int} (hb : Fits64 ev.birthstamp)
    (hn : Fits64 now) :
    (ev.TimedExactly p now ↔
      Fits64 (ev.due p) ∧ (Fits64 (ev.due p - now) ∨ ev.due p - now < 1000000 - 2 ^ 64)) ∧
    ∀ t ≤ ev.given p, Fits64 (ev.due p) →
      ({ ev with requestTimeout := some t } : Event).Survives p now → ev.Survives p now := by
  refine ⟨⟨Event.fits_of_timedExactly hn hb, fun h => Event.timedExactly_of_fits hn hb h.1 h.2⟩, ?_⟩
  intro t ht hfit hs
  have hle := Event.le_due { ev with requestTimeout := some t } p hb
  have hdue : Event.due { ev with requestTimeout := some t } p ≤ ev.due p := by
    show ev.birthstamp + (t : Int) * 1000000 ≤ ev.birthstamp + (ev.given p : Int) * 1000000
    omega
  rw [Event.survives_iff] at hs ⊢
  rw [Event.expiry_eq _ p ⟨hle, by unfold Fits64 at hfit; omega⟩] at hs
  rw [ev.expiry_eq p hfit]
  omega

/-- A timeout of one second, half a second after the request came. -/
theorem request_timed_exactly_second :
    ({ requestTimeout := some 1000 } : Event).TimedExactly {} 500000000 ∧
      ({ requestTimeout := some 1000 } : Event).countdown {} 500000000 = .armed 500 :=
  ⟨(request_timed_exactly (by decide) (by decide)).1.mpr ⟨by decide, .inl (by decide)⟩, by decide⟩

/-- A request with the longest timeout that the header can hold. -/
def longest : Event where
  requestTimeout := some (2 ^ 64 - 1)

/-- It is dropped when it comes, and a request with a timeout of a second is not. -/
theorem request_dropped_early : ¬longest.Survives {} 0 ∧ 0 < longest.due {} ∧
    ({ longest with requestTimeout := some 1000 } : Event).Survives {} 0 ∧
    ¬longest.TimedExactly {} 0 := by
  have hdue : 0 < longest.due {} := by decide
  have hearly : longest.expiry {} < 0 := by decide
  refine ⟨?_, hdue, Event.survives_iff.mpr (by decide), fun h => ?_⟩
  · rw [Event.survives_iff]
    omega
  · obtain ⟨st, e, env, hr⟩ := Event.exists_reads longest {} 0
    have hdrop := (h.drops st 0 e env hr).mp ((assign_drops_iff hr).mpr hearly)
    omega

end Cocaine.Node.Engine
