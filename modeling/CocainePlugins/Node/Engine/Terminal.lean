import CocainePlugins.Framework.Stream
import CocainePlugins.Node.Engine.Enqueue

/-!
# One terminal message for each request

The streams to the clients have one writer each: a request in the queue may be
told that it expired, a forked dispatch passes on what the worker says. The
engine refines the streams of `Framework.Stream` (`board`, `Move.writes`): an
injection passes the stream from the queue to the dispatch. It does not when the
session throws after the fork, for then the dispatch stays and the request is
tried again; and the caller of `enqueue` is a second writer when it reports the
failure of a call that had pushed the request.
-/

namespace Cocaine.Node.Engine

open Framework Slave

/-- Who may write to a client. -/
inductive Writer where
  | queue (e : Nat)
  | dispatch (i c : Nat)
deriving DecidableEq, Repr

def Msg.last : Msg → Bool
  | .chunk => false
  | .error | .choke => true

/-- What a dispatch may write to. -/
def Dispatch.stream (d : Dispatch) : Option Nat := if d.writes then some d.event else none

/-- The engine as a set of streams. -/
def board (st : Engine) : Board Writer Nat Msg where
  holds
    | .queue e => if e ∈ st.queue then some e else none
    | .dispatch i c => (st.dispatches i c).stream
  wire := st.wire

section Board

variable {st : Engine}

theorem board_ext {b : Board Writer Nat Msg} (hq : ∀ e, st.board.holds (.queue e) = b.holds (.queue e))
    (hd : ∀ i c, (st.dispatches i c).stream = b.holds (.dispatch i c)) (hw : st.wire = b.wire) :
    st.board = b := by
  have hh : st.board.holds = b.holds := by
    funext w
    cases w with
    | queue e => exact hq e
    | dispatch i c => exact hd i c
  cases b
  exact congr (congrArg Board.mk hh) hw

theorem board_setDispatch (i c : Nat) (d : Dispatch) :
    (st.setDispatch i c d).board = st.board.give (.dispatch i c) d.stream := by
  refine board_ext (fun e => ?_) (fun i' c' => ?_) rfl
  · rw [Board.holds_give, if_neg (by simp)]
    rfl
  · rw [Board.holds_give]
    simp only [setDispatch, Function.update_apply, Writer.dispatch.injEq]
    by_cases hi : i' = i
    · subst hi
      by_cases hc : c' = c <;> simp [hc, board]
    · simp [hi, board]

theorem board_attempt (i e : Nat) (forked : Bool) : (st.attempt i e forked).board =
    st.board.give (.dispatch i ((st.machine i).counter + 1)) (if forked then some e else none) := by
  have h : (st.attempt i e forked).board =
      (st.setDispatch i ((st.machine i).counter + 1) { event := e, forked := forked }).board := rfl
  rw [h, board_setDispatch]
  cases forked <;> rfl

theorem board_place (i e : Nat) : (st.place i e).board =
    st.board.give (.dispatch i ((st.machine i).counter + 1)) (some e) := by
  have h : (st.place i e).board = (st.attempt i e true).board := rfl
  rw [h, board_attempt, if_pos rfl]

theorem board_pop {e : Nat} {q : List Nat} (hq : st.queue = e :: q) (hnd : st.queue.Nodup) :
    ({ st with queue := q } : Engine).board = st.board.give (.queue e) none := by
  rw [hq] at hnd
  have he : e ∉ q := (List.nodup_cons.mp hnd).1
  refine board_ext (fun e' => ?_) (fun i c => ?_) rfl
  · rw [Board.holds_give]
    show (if e' ∈ q then some e' else none) =
      if Writer.queue e' = Writer.queue e then none else if e' ∈ st.queue then some e' else none
    by_cases h : e' = e
    · subst h
      simp [he]
    · simp [hq, h]
  · rw [Board.holds_give, if_neg (by simp)]
    rfl

theorem board_push (ev : Event) :
    (st.arrive ev).push.board = st.board.give (.queue st.arrived) (some st.arrived) := by
  refine board_ext (fun e => ?_) (fun i c => ?_) rfl
  · rw [Board.holds_give]
    show (if e ∈ st.queue ++ [st.arrived] then some e else none) =
      if Writer.queue e = Writer.queue st.arrived then some st.arrived
      else if e ∈ st.queue then some e else none
    by_cases h : e = st.arrived
    · subst h
      simp
    · simp [h]
  · rw [Board.holds_give, if_neg (by simp)]
    rfl

theorem stream_closed (d : Dispatch) : ({ d with closed := true } : Dispatch).stream = none := by
  simp [Dispatch.stream, Dispatch.writes]

theorem holds_dispatch {i c : Nat} (h : (st.dispatches i c).writes = true) :
    st.board.holds (.dispatch i c) = some (st.dispatches i c).event := by
  show (st.dispatches i c).stream = _
  rw [Dispatch.stream, if_pos h]

theorem holds_queue {e : Nat} (h : e ∈ st.queue) : st.board.holds (.queue e) = some e := if_pos h

end Board

/-- The scope of the runs in which the streams have one writer. -/
def solo : Scope where
  may t := t ≠ .fault .send ∧ t ≠ .fault .attach ∧ t ≠ .reply

section Refine

variable {st st' : Engine}

/-- Streams under the numbers given out between `n` and `n'`. -/
def Streams (n n' : Nat) : Board Writer Nat Msg → Board Writer Nat Msg → Prop :=
  Board.Writes Msg.last fun k => n ≤ k ∧ k < n'

theorem Streams.one {n n' : Nat} {b b' : Board Writer Nat Msg}
    (h : Board.Write b Msg.last (fun k => n ≤ k ∧ k < n') b') : Streams n n' b b' :=
  Relation.ReflTransGen.single h

theorem Flow.writes {sc : Scope} (h : Flow sc st st') (n n' : Nat) :
    Streams n n' st.board st'.board := by
  cases h with
  | slave | load => exact Relation.ReflTransGen.refl
  | @chunk i c hw => exact .one (.say (holds_dispatch hw) rfl)
  | @finish i c msg hw =>
    rw [board_setDispatch, stream_closed]
    exact .one (.finish (holds_dispatch hw))
  | @quit i c =>
    rw [board_setDispatch, stream_closed]
    exact .one .quit

/-- The streams of the engine go as those of the library. -/
theorem Move.writes (hnd : st.queue.Nodup) (hnm : ∀ k, st.board.named k → k < st.arrived)
    (hm : Move solo st st') : Streams st.arrived st'.arrived st.board st'.board := by
  cases hm with
  | flow h => exact h.writes _ _
  | @attempt i e =>
    -- An attempt that throws at the fork makes a dispatch that does not write.
    rw [board_attempt]
    exact .one .quit
  | leak h => exact absurd rfl h.1
  | misplace h => exact absurd rfl h.2.1
  | @place i e q hq =>
    rw [board_place, board_pop hq hnd]
    exact .one (.pass (holds_queue (hq ▸ List.mem_cons_self)))
  | @drop e q w hq hw =>
    have he : e ∈ st.queue := hq ▸ List.mem_cons_self
    have hpop := board_pop hq hnd
    rcases hw with rfl | rfl
    · have heq : ({ st with queue := q, expired := e :: st.expired } : Engine).board =
          st.board.give (.queue e) none := hpop
      rw [heq]
      exact .one .quit
    · have heq : ({ st with
          queue := q, expired := e :: st.expired, wire := (e, .error) :: st.wire } : Engine).board =
          (st.board.write e .error).give (.queue e) none :=
        congrArg (fun b => Board.write b e Msg.error) hpop
      rw [heq]
      exact .one (.finish (holds_queue he))
  | accept =>
    rw [board_push]
    exact .one (.join ⟨Nat.le_refl _, Nat.lt_succ_self _⟩ fun h => Nat.lt_irrefl _ (hnm _ h))
  | reply h => exact absurd rfl h.2.2
  | _ => exact Relation.ReflTransGen.refl

theorem Move.arrived_le {sc : Scope} (hm : Move sc st st') : st.arrived ≤ st'.arrived := by
  cases hm with
  | flow h => cases h <;> exact Nat.le_refl _
  | arrive | accept | refuse => exact Nat.le_succ _
  | _ => exact Nat.le_refl _

end Refine

/-! ## Runs -/

/-- Every stream has one writer, under the number of a request that has arrived. -/
structure Sole (st : Engine) : Prop where
  exclusive : Board.Exclusive Msg.last st.board
  named : ∀ k, st.board.named k → k < st.arrived
  nodup : st.queue.Nodup
  accepted : st.profile.Accepted

namespace Sole

variable {st st' : Engine}

theorem move (h : Sole st) (hm : Move solo st st') : Sole st' := by
  have hw := hm.writes h.nodup h.named
  refine ⟨hw.exclusive h.exclusive, fun k hk => ?_, ?_, hm.profile ▸ h.accepted⟩
  · rcases hw.named hk with hk | hk
    · exact Nat.lt_of_lt_of_le (h.named k hk) hm.arrived_le
    · exact hk.2
  · cases hm with
    | flow hf => cases hf <;> exact h.nodup
    | place hq | drop hq =>
      have hnd := h.nodup
      rw [hq] at hnd
      exact (List.nodup_cons.mp hnd).2
    | accept =>
      have hne : st.arrived ∉ st.queue := fun he =>
        Nat.lt_irrefl _ (h.named _ (.inl ⟨.queue st.arrived, holds_queue he⟩))
      show (st.queue ++ [st.arrived]).Nodup
      exact List.nodup_append.mpr ⟨h.nodup, by simp, fun e he e' he' heq =>
        hne ((heq.trans (List.mem_singleton.mp he')) ▸ he)⟩
    | _ => exact h.nodup

/-- A request that nobody writes to is left alone until someone takes it. -/
theorem unnamed (h : Sole st) (hm : Move solo st st') {e : Nat} (he : e < st.arrived)
    (hn : ¬st.board.named e) : ¬st'.board.named e := fun hn' => by
  rcases (hm.writes h.nodup h.named).named hn' with hk | hk
  · exact hn hk
  · exact Nat.lt_irrefl _ (Nat.lt_of_lt_of_le he hk.1)

/-- The caller of `enqueue` reports the failure of a call that pushed nothing. -/
theorem reply (h : Sole st) {e : Nat} (he : e < st.arrived) (hn : ¬st.board.named e) :
    Sole (st.emit e .error) := by
  have hq : e ∉ st.queue := fun hq => hn (.inl ⟨.queue e, holds_queue hq⟩)
  have heq : (st.emit e .error).board =
      (((st.board.give (.queue e) (some e)).write e .error).give (.queue e) none) := by
    refine board_ext (fun e' => ?_) (fun i c => ?_) rfl
    · rw [Board.holds_give]
      show (if e' ∈ st.queue then some e' else none) = if Writer.queue e' = Writer.queue e then none
        else (st.board.give (.queue e) (some e)).holds (.queue e')
      rw [Board.holds_give]
      by_cases h : e' = e
      · subst h
        simp [hq]
      · simp [h, board]
    · rw [Board.holds_give, if_neg (by simp)]
      show _ = (st.board.give (.queue e) (some e)).holds (.dispatch i c)
      rw [Board.holds_give, if_neg (by simp)]
      rfl
  have hjoin : Board.Write st.board Msg.last (fun k => k = e) (st.board.give (.queue e) (some e)) :=
    .join rfl hn
  have hfin : Board.Write (st.board.give (.queue e) (some e)) Msg.last (fun k => k = e)
      (((st.board.give (.queue e) (some e)).write e .error).give (.queue e) none) :=
    .finish (by rw [Board.holds_give, if_pos rfl])
  have hw : Board.Writes Msg.last (fun k => k = e) st.board (st.emit e .error).board :=
    heq ▸ (Relation.ReflTransGen.single hjoin).tail hfin
  refine ⟨hw.exclusive h.exclusive, fun k hk => ?_, h.nodup, h.accepted⟩
  rcases hw.named hk with hk | rfl
  · exact h.named k hk
  · exact he

theorem start {p : Profile} (hp : p.Accepted) : Sole (start p) := by
  have heq : ∃ b, Engine.start p = { profile := p, published := b } := by
    unfold Engine.start maybePublish
    split
    · exact ⟨true, rfl⟩
    · exact ⟨false, rfl⟩
  obtain ⟨b, heq⟩ := heq
  have hnone : ∀ w, (Engine.start p).board.holds w = none := by
    rw [heq]
    intro w
    cases w <;> rfl
  have hwire : (Engine.start p).board.wire = [] := by rw [heq]; rfl
  refine ⟨⟨?_, ?_, ?_⟩, ?_, by simp [heq], by rw [heq]; exact hp⟩
  · simp [hnone]
  · simp [hwire]
  · simp [hwire]
  · simp [Board.named, hnone, hwire]

end Sole

/-- The construction of a slave does not fail an `enqueue` that pushed its request
with an error that is reported to the client. -/
def reports (st : Engine) : Act → Bool
  | .enqueue env system _ => !st.queueIsFull && system && env.slaves.fails.isSome
  | _ => false

/-- In the step no session throws after a fork, and no failure of an `enqueue`
that pushed its request is reported. -/
def Discreet (st : Engine) (a : Act) : Prop :=
  st.attempts (fun env => env.fault == none || env.fault == some .fork) a = true ∧
    st.reports a = false

instance (st : Engine) (a : Act) : Decidable (Discreet st a) := inferInstanceAs (Decidable (_ ∧ _))

section Steps

variable {st : Engine}

theorem solo_allows {env : Attempt} (h : (env.fault == none || env.fault == some .fork) = true) :
    solo.allows env := by
  refine ⟨fun f hf => ?_, by simp [Scope.bears, solo]⟩
  rw [hf] at h
  cases f <;> simp_all [solo]

/-- Without a throw of a constructor, a request that is pushed is accepted. -/
theorem enqueue_returns (h : Sole st) {env : Arrival} (hf : ¬st.queueIsFull = true)
    (hnone : env.slaves.fails = none) : (st.enqueue env).2 = false := by
  rw [enqueue_of_not_full hf, if_neg]
  intro ht
  obtain ⟨k, hk, -⟩ := (pushed_throws h.accepted).mp ht
  rw [hnone] at hk
  cases hk

/-- A request that is refused is not written to before the reply. -/
theorem reject_sole (h : Sole st) {env : Arrival} (ev : Event)
    (henv : ∀ e ∈ st.queue, solo.allows (env.events' e)) :
    Sole ((st.arrive ev).reject env) ∧ st.arrived < ((st.arrive ev).reject env).arrived ∧
      ¬((st.arrive ev).reject env).board.named st.arrived := by
  have hm : Moves solo (st.arrive ev) ((st.arrive ev).reject env) :=
    reject_moves (by simp [solo]) (by simp [solo]) (by simp [Scope.bears, solo]) henv
  refine hm.induct (P := fun st' => Sole st' ∧ st.arrived < st'.arrived ∧
    ¬st'.board.named st.arrived) ⟨h.move .arrive, Nat.lt_succ_self _, ?_⟩ ?_
  · exact fun hn => Nat.lt_irrefl _ (h.named _ hn)
  · intro st₁ st₂ ih hm
    obtain ⟨h₁, hlt, hn⟩ := ih
    exact ⟨h₁.move hm, Nat.lt_of_lt_of_le hlt hm.arrived_le, h₁.unnamed hm hlt hn⟩

theorem onEnqueue_sole (h : Sole st) {env : Arrival} {system mute : Bool}
    (ha : Discreet st (.enqueue env system mute)) : Sole (st.onEnqueue env system mute) := by
  obtain ⟨hat, hre⟩ := ha
  simp only [attempts, List.all_eq_true, Bool.and_eq_true] at hat
  have henv : solo.admits st env := fun e he =>
    have h := hat e (List.mem_cons.mpr he.symm)
    ⟨solo_allows h.1, solo_allows h.2⟩
  unfold onEnqueue
  split
  · have h₁ : Sole { st with arrived := st.arrived + 1 } := h.move .refuse
    split
    · exact h₁
    · exact h₁.reply (Nat.lt_succ_self _) fun hn => Nat.lt_irrefl _ (h.named _ hn)
  by_cases hf : st.queueIsFull = true
  · have heq : st.enqueue env = ((st.arrive env.event).reject env, true) := by simp [enqueue, hf]
    obtain ⟨h₁, hlt, hn⟩ := reject_sole h env.event fun e he => (henv e (.inl he)).2
    rw [heq]
    dsimp only
    split
    · exact h₁.reply hlt hn
    · exact h₁
  · have h₁ : Sole (st.enqueue env).1 :=
      (enqueue_moves (by simp [solo]) (by simp [solo]) (by simp [solo]) (by simp [Scope.bears, solo])
        (by simp [Scope.bears, solo]) henv).induct h Sole.move
    dsimp only
    split
    · -- The call threw a reported error, so no constructor threw, so it did not throw.
      rename_i hc
      simp only [hf, Bool.false_or, Bool.and_eq_true] at hc
      have hnone : env.slaves.fails = none := by
        simpa [reports, hf, hc.1.2] using hre
      rw [enqueue_returns h hf hnone] at hc
      cases hc.1.1
    · exact h₁

theorem effect_sole (h : Sole st) {a : Act} (he : st.enabled a = true) (ha : Discreet st a) :
    Sole (st.effect a) := by
  have hmoves : ∀ {a}, st.enabled a = true → solo.covers st a → Sole (st.effect a) :=
    fun he hc => (effect_moves he hc).induct h Sole.move
  cases a with
  | enqueue env system mute => exact onEnqueue_sole h ha
  | rebalanceEvents env | revoked i env =>
    refine hmoves he ⟨by simp [solo], fun e hq => solo_allows ?_⟩
    exact List.all_eq_true.mp ha.1 e hq
  | _ => exact hmoves he (by simp [Scope.covers, Scope.bears, solo])

end Steps

/-- In every run in which no session throws after a fork, and no failure of an
`enqueue` that pushed its request is reported to the client: no client gets a
message after an error or a choke. What was written is newest first. -/
theorem one_terminal {st : Engine} (hr : engineSystem.Reachable Discreet st) :
    st.wire.Pairwise fun p p' => p'.2.last = true → p.1 ≠ p'.1 := by
  have h : Sole st := by
    refine hr.induct ?_ ?_
    · rintro _ ⟨p, hp, rfl⟩
      exact Sole.start hp
    · intro st a st' h ha hs
      obtain ⟨-, he, rfl⟩ := step_eq_some.mp hs
      exact effect_sole h he ha
  exact h.exclusive.order

/-- The fork throws at the first attempt; then a chunk and a choke are passed on. -/
theorem one_terminal_served : ∃ st, engineSystem.Reachable Discreet st ∧
    st.wire = [(1, .choke), (0, .choke), (0, .chunk)] ∧
    st.wire.Pairwise fun p p' => p'.2.last = true → p.1 ≠ p'.1 := by
  obtain ⟨st, hr, hw⟩ := engineSystem.exists_reachable Discreet
    (P := fun st => st.wire = [(1, .choke), (0, .choke), (0, .chunk)]) (s := Engine.start {})
    [.enqueue {} false false, .slave 0 (.prepare false), .slave 0 (.token {}),
      .slave 0 (.refresh {} .spawned), .slave 0 (.ready 1 false), .handshake 0 false,
      .rebalanceEvents fun _ => { fault := some .fork }, .enqueue {} false false,
      .workerFrame 0 3 .chunk false [], .workerFrame 0 3 .choke false [],
      .workerFrame 0 4 .choke false []]
    ⟨_, by decide, rfl⟩ (by decide +kernel)
  exact ⟨st, hr, hw, one_terminal hr⟩

/-- The invoke message cannot be sent after the fork, so the request is tried
again: the client gets the choke of the second attempt, then the error of the
first one, whose dispatch the session discards. And: the construction of a slave
fails an `enqueue`, which is reported, while the request waits in the queue and
is served later. -/
theorem second_terminal :
    (∃ st, engineSystem.Reachable System.Any st ∧ st.wire = [(0, .error), (0, .choke)]) ∧
    ∃ st, engineSystem.Reachable System.Any st ∧ st.wire = [(0, .choke), (0, .error)] := by
  constructor
  · exact engineSystem.exists_reachable System.Any (s := Engine.start {})
      [.enqueue {} false false, .slave 0 (.prepare false), .slave 0 (.token {}),
        .slave 0 (.refresh {} .spawned), .slave 0 (.ready 1 false), .handshake 0 false,
        .rebalanceEvents fun _ => { fault := some .send }, .enqueue {} false false,
        .workerFrame 0 3 .choke false [], .workerDiscard 0 2 connectionAborted false []]
      ⟨_, by decide, rfl⟩ (by decide +kernel)
  · exact engineSystem.exists_reachable System.Any (s := Engine.start {})
      [.enqueue { slaves := { fails := some 0 } } true false, .slave 0 (.prepare false),
        .slave 0 (.token {}), .slave 0 (.refresh {} .spawned), .slave 0 (.ready 1 false),
        .handshake 0 false, .rebalanceEvents fun _ => {}, .workerFrame 0 2 .choke false []]
      ⟨_, by decide, rfl⟩ (by decide +kernel)

end Cocaine.Node.Engine
