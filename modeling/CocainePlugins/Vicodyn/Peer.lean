import Mathlib.Logic.Function.Basic
import CocainePlugins.Framework.Timer
import CocainePlugins.Framework.Transition

/-!
# The connection of a peer

A peer connects, and when that fails or takes too long it connects again a second later.
`connecting` is set while a reconnection is scheduled or under way, and whoever asks for one
meanwhile is turned away. An attempt has a timer of its own; the handler of the attempt gives
way when that timer can no longer be cancelled, since the timer's handler then schedules the
reconnection.

When the engine does not take the socket, the handler schedules a reconnection with `connecting`
still set. It is turned away like everyone after it, and the peer stays without a session.
-/

namespace Cocaine.Vicodyn

open Framework

structure Peer where
  session : Bool := false
  connecting : Bool := false
  timer : Timer := {}
  /-- The calls of `connect`, the timer of each, and whether its socket is still connecting. -/
  attempts : Nat := 0
  connectTimer : Nat → Timer := fun _ => {}
  pending : Nat → Bool := fun _ => false

/-- How `async_connect` ends. -/
inductive Connected where
  /-- With an error; `last` says that the iterator is at the end of the endpoints. -/
  | failed (last : Bool)
  | attached
  /-- With a socket that `attach` throws for. -/
  | refused
deriving DecidableEq, Repr

namespace Peer

variable (s : Peer)

def scheduleReconnect : Peer :=
  if s.connecting then s
  else { s with session := false, timer := s.timer.start, connecting := true }

def connect : Peer :=
  { s with
    connecting := true
    attempts := s.attempts + 1
    connectTimer := Function.update s.connectTimer s.attempts (s.connectTimer s.attempts).start
    pending := Function.update s.pending s.attempts true }

/-- The handler of an attempt's timer. The socket's handler is still to come. -/
def onTimeout (k : Nat) : Peer :=
  scheduleReconnect { s with
    connectTimer := Function.update s.connectTimer k (s.connectTimer k).complete
    connecting := false }

/-- The handler of `async_connect`. -/
def onConnect (k : Nat) (result : Connected) : Peer :=
  let cancelled := (s.connectTimer k).pending
  let s := { s with
    pending := Function.update s.pending k false
    connectTimer := Function.update s.connectTimer k (s.connectTimer k).cancel }
  if cancelled = 0 then s
  else
    match result with
    | .failed last => if last then scheduleReconnect { s with connecting := false } else s
    | .attached => { s with connecting := false, session := true }
    | .refused => s.scheduleReconnect

/-- What `open_stream` does before it throws. -/
def openStream : Peer := if s.session then s else s.scheduleReconnect

inductive Label where
  /-- The second is over, and the handler runs. -/
  | expire
  | reconnect
  /-- The time of an attempt is over, and its handler runs. -/
  | expireAttempt (k : Nat)
  | timeout (k : Nat)
  | connected (k : Nat) (result : Connected)
  | scheduleReconnect
  | openStream
deriving DecidableEq, Repr

def step : Label → Option Peer
  | .expire => if s.timer.armed then some { s with timer := s.timer.expire } else none
  | .reconnect =>
    if 0 < s.timer.fired then some (connect { s with timer := s.timer.complete }) else none
  | .expireAttempt k =>
    if (s.connectTimer k).armed then
      some { s with connectTimer := Function.update s.connectTimer k (s.connectTimer k).expire }
    else none
  | .timeout k => if 0 < (s.connectTimer k).fired then some (s.onTimeout k) else none
  | .connected k result => if s.pending k then some (s.onConnect k result) else none
  | .scheduleReconnect => some s.scheduleReconnect
  | .openStream => some s.openStream

end Peer

/-- A peer as `register_peer` makes it. -/
def peerSystem : System Peer Peer.Label where
  init s := s = Peer.connect {}
  step := Peer.step

namespace Peer

variable {s t : Peer}

def Waiting (s : Peer) : Prop := s.timer.waits = true

/-- An attempt is under way: its time runs, or it is over and nobody has acted on that yet. -/
def Attempting (s : Peer) : Prop := ∃ k, (s.connectTimer k).waits = true

/-! ## What is outstanding -/

/-- A timer with a wait, or with its completion. -/
inductive Busy : Timer → Prop where
  | armed : Busy ⟨true, 0⟩
  | fired : Busy ⟨false, 1⟩

namespace Busy

theorem waits {t : Timer} (h : Busy t) : t.waits = true := by
  cases h with
  | armed | fired => rfl

theorem expire {t : Timer} (h : Busy t) (ha : t.armed = true) : Busy t.expire := by
  cases h with
  | armed => exact .fired
  | fired => cases ha

theorem complete {t : Timer} (h : Busy t) (hf : 0 < t.fired) : t.complete = {} := by
  cases h with
  | armed => cases hf
  | fired => rfl

theorem cancel {t : Timer} (h : Busy t) (ha : t.armed = true) : t.cancel = {} := by
  cases h with
  | armed => rfl
  | fired => cases ha

end Busy

inductive Outstanding (s : Peer) : Prop where
  | idle (connecting : s.connecting = false) (timer : s.timer = {})
      (attempts : ∀ k, s.connectTimer k = {})
  | waiting (connecting : s.connecting = true) (timer : Busy s.timer)
      (attempts : ∀ k, s.connectTimer k = {})
  | attempting (n : Nat) (connecting : s.connecting = true) (timer : s.timer = {})
      (busy : Busy (s.connectTimer n)) (others : ∀ k, k ≠ n → s.connectTimer k = {})

namespace Outstanding

/-- `connecting` says whether something is outstanding. -/
theorem connecting_iff (h : Outstanding s) : s.connecting = true ↔ s.Waiting ∨ s.Attempting := by
  cases h with
  | idle hc ht ha => simp [hc, Waiting, Attempting, ht, ha, Timer.waits]
  | waiting hc ht ha => simp [hc, Waiting, ht.waits]
  | attempting n hc ht hb ho =>
    have hn : s.Attempting := ⟨n, hb.waits⟩
    simp [hc, hn]

theorem scheduleReconnect (h : Outstanding s) : Outstanding s.scheduleReconnect := by
  simp only [Peer.scheduleReconnect]
  split
  · exact h
  · rename_i hc
    cases h with
    | idle _ ht ha =>
      refine .waiting rfl ?_ ha
      rw [ht]
      exact .armed
    | waiting hc' _ _ | attempting _ hc' _ _ _ => exact absurd hc' hc

/-- The attempt that is under way is the one whose timer waits. -/
theorem attempt (h : Outstanding s) {k : Nat} (hk : (s.connectTimer k).waits = true) :
    s.connecting = true ∧ s.timer = {} ∧ Busy (s.connectTimer k) ∧
      ∀ j, j ≠ k → s.connectTimer j = {} := by
  cases h with
  | idle _ _ ha | waiting _ _ ha =>
    rw [ha k] at hk
    cases hk
  | attempting n hc ht hb ho =>
    by_cases hn : k = n
    · rw [hn]
      exact ⟨hc, ht, hb, ho⟩
    · rw [ho k hn] at hk
      cases hk

/-- No attempt is left once the timer of the one under way is at rest. -/
theorem cleared {timers : Nat → Timer} {k : Nat} (ho : ∀ j, j ≠ k → timers j = {}) (j : Nat) :
    Function.update timers k {} j = {} := by
  by_cases hj : j = k
  · rw [hj, Function.update_self]
  · rw [Function.update_of_ne hj]
    exact ho j hj

theorem connect (h : Outstanding s) (hf : 0 < s.timer.fired) :
    Outstanding (Peer.connect { s with timer := s.timer.complete }) := by
  cases h with
  | idle _ ht _ | attempting _ _ ht _ _ =>
    rw [ht] at hf
    cases hf
  | waiting hc ht ha =>
    refine .attempting s.attempts rfl (ht.complete hf) ?_ fun k hk => ?_
    · show Busy (Function.update s.connectTimer s.attempts _ s.attempts)
      rw [Function.update_self, ha s.attempts]
      exact .armed
    · show Function.update s.connectTimer s.attempts _ k = {}
      rw [Function.update_of_ne hk]
      exact ha k

theorem onTimeout (h : Outstanding s) {k : Nat} (hf : 0 < (s.connectTimer k).fired) :
    Outstanding (s.onTimeout k) := by
  have hw : (s.connectTimer k).waits = true := by
    simp only [Timer.waits, Bool.or_eq_true, bne_iff_ne]
    exact .inr (by omega)
  obtain ⟨-, ht, hb, ho⟩ := h.attempt hw
  refine scheduleReconnect (.idle rfl ht fun j => ?_)
  show Function.update s.connectTimer k (s.connectTimer k).complete j = {}
  rw [hb.complete hf]
  exact cleared ho j

end Outstanding

/-! ## Runs in which the engine takes every socket -/

/-- A completion that is not too late brings a session, or the error of the last endpoint. -/
def Sound (s : Peer) : Label → Prop
  | .connected k result =>
    (s.connectTimer k).armed = true → result = .attached ∨ result = .failed true
  | .expire | .reconnect | .expireAttempt _ | .timeout _ | .scheduleReconnect | .openStream => True

instance (s : Peer) (a : Label) : Decidable (s.Sound a) := by
  unfold Sound
  split <;> infer_instance

namespace Outstanding

theorem onConnect (h : Outstanding s) {k : Nat} {result : Connected}
    (hok : s.Sound (.connected k result)) : Outstanding (s.onConnect k result) := by
  simp only [Peer.onConnect]
  split
  · -- The attempt's time is over: cancelling its timer changes nothing.
    rename_i hzero
    have hsame : Function.update s.connectTimer k (s.connectTimer k).cancel = s.connectTimer := by
      have hrest : (s.connectTimer k).cancel = s.connectTimer k := by
        generalize s.connectTimer k = timer at hzero
        obtain ⟨armed, fired⟩ := timer
        obtain rfl : armed = false := Timer.pending_eq_zero.mp hzero
        rfl
      rw [hrest, Function.update_eq_self]
    rw [hsame]
    cases h with
    | idle hc ht ha => exact .idle hc ht ha
    | waiting hc ht ha => exact .waiting hc ht ha
    | attempting n hc ht hb ho => exact .attempting n hc ht hb ho
  · rename_i hpending
    have harmed : (s.connectTimer k).armed = true := by
      simpa using hpending
    obtain ⟨-, ht, hb, ho⟩ := h.attempt (k := k) (by simp [Timer.waits, harmed])
    have hcleared : ∀ j, Function.update s.connectTimer k (s.connectTimer k).cancel j = {} := by
      rw [hb.cancel harmed]
      exact cleared ho
    obtain rfl | rfl := hok harmed
    · exact .idle rfl ht hcleared
    · simp only [if_true]
      refine scheduleReconnect ?_
      exact .idle rfl ht hcleared

theorem step (h : Outstanding s) {a : Label} (hok : s.Sound a) (hs : s.step a = some t) :
    Outstanding t := by
  cases a with
  | expire =>
    obtain ⟨ha, rfl⟩ := of_guard hs
    cases h with
    | idle _ ht _ | attempting _ _ ht _ _ =>
      rw [ht] at ha
      cases ha
    | waiting hc ht hattempts => exact .waiting hc (ht.expire ha) hattempts
  | reconnect =>
    obtain ⟨hf, rfl⟩ := of_guard hs
    exact h.connect hf
  | expireAttempt k =>
    obtain ⟨ha, rfl⟩ := of_guard hs
    obtain ⟨hc, ht, hb, ho⟩ := h.attempt (k := k) (by simp [Timer.waits, ha])
    refine .attempting k hc ht ?_ fun j hj => ?_
    · show Busy (Function.update s.connectTimer k _ k)
      rw [Function.update_self]
      exact hb.expire ha
    · show Function.update s.connectTimer k _ j = {}
      rw [Function.update_of_ne hj]
      exact ho j hj
  | timeout k =>
    obtain ⟨hf, rfl⟩ := of_guard hs
    exact h.onTimeout hf
  | connected k result =>
    obtain ⟨-, rfl⟩ := of_guard hs
    exact h.onConnect hok
  | scheduleReconnect =>
    cases hs
    exact h.scheduleReconnect
  | openStream =>
    cases hs
    simp only [Peer.openStream]
    split
    · exact h
    · exact h.scheduleReconnect

theorem of_reachable (hr : peerSystem.Reachable Sound s) : Outstanding s := by
  refine hr.induct (P := Outstanding) ?_ ?_
  · rintro s rfl
    refine .attempting 0 rfl rfl .armed fun k hk => ?_
    exact Function.update_of_ne hk _ _
  · intro s a t h hok hs
    exact h.step hok hs

end Outstanding

/-! ## Every run -/

/-- `connecting` is set just when something is outstanding, and otherwise a peer without a
session starts its timer when it is asked to reconnect. -/
theorem can_reconnect (hr : peerSystem.Reachable Sound s) :
    (s.connecting = true ↔ s.Waiting ∨ s.Attempting) ∧
      (s.session = false → ¬s.Waiting → ¬s.Attempting →
        ∀ t, s.step .scheduleReconnect = some t → t.timer.armed = true) := by
  have hiff := (Outstanding.of_reachable hr).connecting_iff
  refine ⟨hiff, fun _ hw ha t ht => ?_⟩
  cases ht
  have hc : ¬s.connecting = true := fun hc => (hiff.mp hc).elim hw ha
  simp only [scheduleReconnect, if_neg hc, Timer.armed_start]

/-- The first attempt is too late and the second one succeeds; then the session is given up. -/
theorem can_reconnect_late_attempt :
    ∃ s, peerSystem.Reachable Sound s ∧ s.attempts = 2 ∧ s.session = true ∧
      (s.connecting = true ↔ s.Waiting ∨ s.Attempting) := by
  obtain ⟨s, hr, hn, hs⟩ := peerSystem.exists_reachable Sound
    (P := fun s => s.attempts = 2 ∧ s.session = true)
    [.expireAttempt 0, .connected 0 .attached, .timeout 0, .openStream, .expire, .reconnect,
      .connected 1 .attached] rfl (by decide +kernel)
  exact ⟨s, hr, hn, hs, (can_reconnect hr).1⟩

/-- The engine does not take the socket: `connecting` stays set with nothing outstanding, and no
timer is started any more. -/
theorem stuck_after_attach :
    ∃ s, peerSystem.Reachable System.Any s ∧ s.connecting = true ∧ s.session = false ∧
      ¬s.Waiting ∧ ¬s.Attempting ∧
      ∃ t, s.step .scheduleReconnect = some t ∧ t.timer.armed = false := by
  refine ⟨(connect {}).onConnect 0 .refused, .of_run [.connected 0 .refused] rfl rfl, rfl, rfl,
    Bool.false_ne_true, ?_, _, rfl, rfl⟩
  rintro ⟨k, hk⟩
  have hrest : ((connect {}).onConnect 0 .refused).connectTimer k = {} :=
    Outstanding.cleared (fun j hj => Function.update_of_ne hj _ _) k
  rw [hrest] at hk
  cases hk

end Peer

end Cocaine.Vicodyn
