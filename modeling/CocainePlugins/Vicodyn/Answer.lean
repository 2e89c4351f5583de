import CocainePlugins.Vicodyn.Retry

/-!
# What follows the answer

The backward stream is closed by the terminal frame that goes through it, so the client gets
one of them and nothing after it. The retries do not look at that stream: when a send to a
peer fails, the client is answered with an error, and the peer may still send the error that
opens another stream. As long as no send fails, a client is answered only when every stream
has ended.
-/

namespace Cocaine.Vicodyn

open Framework Node

/-- A retry in which the new stream does not break. -/
def Fate.Whole (fate : Fate) : Prop := fate.breakAt = none ∧ fate.breakChoke = false

instance (fate : Fate) : Decidable fate.Whole :=
  inferInstanceAs (Decidable (fate.breakAt = none ∧ fate.breakChoke = false))

namespace Dispatch

variable {c : Config} {s t : Dispatch}

/-! ## One terminal frame -/

structure Once (s : Dispatch) : Prop where
  earlier : ∀ x ∈ s.delivered.tail, x.2.terminal = false
  closed : ∀ x ∈ s.delivered, x.2.terminal = true → s.backwardClosed = true

/-- The client's side is left alone. -/
structure Mute (s t : Dispatch) : Prop where
  delivered : t.delivered = s.delivered
  closed : t.backwardClosed = s.backwardClosed

theorem Mute.of_sends (h : Sends s t) : Mute s t := by
  obtain ⟨_, _, _, rfl⟩ := h
  exact ⟨rfl, rfl⟩

theorem retryUnsafe_mute (fate : Fate) : Mute s (s.retryUnsafe c fate).1 := by
  have hp := retried (c := c) (s := s) fate
  generalize s.retryUnsafe c fate = p at hp
  cases hp with
  | refused x | unopened x hb hn => exact ⟨rfl, rfl⟩
  | opened hb hn =>
    have hm := Mute.of_sends (replay_sends fate (s := newStream c
      { s with retryCounter := s.retryCounter + 1, attempts := s.attempts + 1 }))
    exact ⟨hm.delivered, hm.closed⟩

theorem Mute.once (hm : Mute s t) (h : Once s) : Once t where
  earlier := by
    rw [hm.delivered]
    exact h.earlier
  closed := by
    rw [hm.delivered, hm.closed]
    exact h.closed

namespace Once

theorem answer (h : Once s) (origin : Option Nat) (m : Message) (gone : Bool) :
    Once (s.answer origin m gone).1 := by
  simp only [Dispatch.answer]
  split
  · exact h
  · rename_i hopen
    split
    · exact h
    · refine ⟨fun x hx => ?_, fun x hx ht => ?_⟩
      · -- On an open stream nothing terminal has been delivered.
        cases hterm : x.2.terminal with
        | false => rfl
        | true => exact absurd (h.closed x hx hterm) hopen
      · cases hx with
        | head => exact ht
        | tail _ hx => exact absurd (h.closed x hx ht) hopen

theorem relay (h : Once s) (k : Nat) (m : Message) (gone breaks : Bool) :
    Once (s.relay c k m gone breaks) := by
  have ha := h.answer (some k) m gone
  simp only [Dispatch.relay]
  split
  · exact (Mute.of_sends (onClientDisconnection_sends breaks)).once ha
  · exact ha

theorem retry_answer (h : Once s) (fate : Fate) (f : Thrown → Message) (gone : Bool) :
    Once (match (s.retryUnsafe c fate).2 with
      | none => (s.retryUnsafe c fate).1
      | some x => ((s.retryUnsafe c fate).1.answer none (f x) gone).1) := by
  have hr := (retryUnsafe_mute (c := c) fate).once h
  split
  · exact hr
  · exact hr.answer _ _ gone

theorem step (h : Once s) {a : Label} (hs : s.step c a = some t) : Once t := by
  cases stepped hs with
  | @enqueue headers event opening fate gone hr =>
    cases opening with
    | none => exact ⟨h.earlier, h.closed⟩
    | some x =>
      refine retry_answer ?_ fate _ gone
      exact ⟨h.earlier, h.closed⟩
  | @client m breaks ec gone _ _ =>
    simp only [onForward]
    split
    · exact ⟨h.earlier, h.closed⟩
    · have hkeep : Once (keep { s with sent := s.sent ++ [m] } m) := by
        cases m with
        | chunk headers data | choke headers | error headers ec reason => exact ⟨h.earlier, h.closed⟩
      have hsend := (Mute.of_sends (send_sends m breaks)).once hkeep
      split
      · exact hsend.answer _ _ gone
      · exact hsend
  | disconnect _ => exact (Mute.of_sends (onClientDisconnection_sends _)).once h
  | @peer k m fate gone breaks hk =>
    have hended : Once { s with ended := Function.update s.ended k m.terminal } :=
      ⟨h.earlier, h.closed⟩
    cases m with
    | chunk headers data =>
      refine relay ?_ k _ gone breaks
      exact ⟨h.earlier, h.closed⟩
    | choke headers => exact hended.relay k _ gone breaks
    | error headers ec reason =>
      simp only [onBackward]
      split
      · exact hended.retry_answer fate _ gone
      · exact hended.relay k _ gone breaks
  | discard hk =>
    refine answer ?_ _ _ _
    exact ⟨h.earlier, h.closed⟩

theorem of_reachable {garbage : Bool} (hr : (dispatchSystem c garbage).Reachable System.Any s) :
    Once s := by
  refine hr.induct (P := Once) ?_ ?_
  · rintro s rfl
    exact ⟨by simp, by simp⟩
  · rintro s a t h - hs
    exact h.step hs

end Once

/-! ## Runs in which no send to a peer fails -/

/-- No send to a peer fails. -/
def Unbroken (_ : Dispatch) : Label → Prop
  | .enqueue _ _ _ fate _ => fate.Whole
  | .client _ breaks _ _ | .disconnect breaks => breaks = false
  | .peer _ _ fate _ breaks => fate.Whole ∧ breaks = false
  | .discard _ _ _ => True

instance (s : Dispatch) : (a : Label) → Decidable (s.Unbroken a)
  | .enqueue _ _ _ fate _ => inferInstanceAs (Decidable fate.Whole)
  | .client _ breaks _ _ | .disconnect breaks => inferInstanceAs (Decidable (breaks = false))
  | .peer _ _ fate _ breaks => inferInstanceAs (Decidable (fate.Whole ∧ breaks = false))
  | .discard _ _ _ => inferInstanceAs (Decidable True)

theorem send_unbroken (hb : ∀ k, s.broken k = false) (m : Message) :
    (s.send m false).2 = false ∧ ∀ k, (s.send m false).1.broken k = false := by
  simp only [send]
  split
  · exact ⟨rfl, hb⟩
  · rename_i k _
    split
    · exact ⟨rfl, hb⟩
    · rw [if_neg (by simp [hb k])]
      exact ⟨rfl, hb⟩

theorem sendAll_unbroken (hb : ∀ k, s.broken k = false) (ms : List Message) :
    (s.sendAll ms none).2 = false ∧ ∀ k, (s.sendAll ms none).1.broken k = false := by
  induction ms generalizing s with
  | nil => exact ⟨rfl, hb⟩
  | cons m ms ih =>
    obtain ⟨hok, hb'⟩ := send_unbroken hb m
    have hcons : s.sendAll (m :: ms) none = (s.send m false).1.sendAll ms none := by
      show (if (s.send m false).2 = true then s.send m false
        else (s.send m false).1.sendAll ms none) = _
      rw [hok, if_neg Bool.false_ne_true]
    rw [hcons]
    exact ih hb'

theorem replay_unbroken (hb : ∀ k, s.broken k = false) {fate : Fate} (hf : fate.Whole) :
    (s.replay fate).2 = none ∧ ∀ k, (s.replay fate).1.broken k = false := by
  obtain ⟨hat, hchoke⟩ := hf
  obtain ⟨hok, hb'⟩ := sendAll_unbroken hb (List.zipWith .chunk s.chunkHeaders s.chunks)
  simp only [replay, hat, hchoke]
  rw [if_neg (by simp [hok])]
  split
  · obtain ⟨hok', hb''⟩ := send_unbroken hb' (.choke s.chokeHeaders)
    exact ⟨by simp [hok'], hb''⟩
  · exact ⟨rfl, hb'⟩

/-- The client is answered when every stream has ended. -/
structure Finished (s : Dispatch) : Prop where
  fresh : s.request = none → s.backwardClosed = false
  broken : ∀ k, s.broken k = false
  ended : s.backwardClosed = true → ∀ k < s.opened, s.ended k = true

namespace Finished

theorem unclosed (h : Finished s) {k : Nat} (hk : s.live k = true) : s.backwardClosed = false := by
  obtain ⟨hlt, hne⟩ := live_iff.mp hk
  cases hc : s.backwardClosed with
  | false => rfl
  | true =>
    rw [h.ended hc k hlt] at hne
    cases hne

theorem send (h : Finished s) (m : Message) : Finished (s.send m false).1 := by
  have hb := (send_unbroken h.broken m).2
  obtain ⟨received, closed, broken, heq⟩ := send_sends (s := s) m false
  rw [heq] at hb ⊢
  exact ⟨h.fresh, hb, h.ended⟩

theorem answer (h : Finished s) (hr : s.request ≠ none) (origin : Option Nat) {m : Message}
    (he : m.terminal = true → ∀ k < s.opened, s.ended k = true) (gone : Bool) :
    Finished (s.answer origin m gone).1 := by
  obtain heq | heq := answer_cases (s := s) origin m gone
  · rw [heq]
    exact h
  · rw [heq]
    exact ⟨fun hx => absurd hx hr, h.broken, he⟩

theorem relay (h : Finished s) (hr : s.request ≠ none) (k : Nat) {m : Message}
    (he : m.terminal = true → ∀ k < s.opened, s.ended k = true) (gone : Bool) :
    Finished (s.relay c k m gone false) := by
  have ha := h.answer hr (some k) he gone
  simp only [Dispatch.relay]
  split
  · exact ha.send _
  · exact ha

/-- A retry when every stream has ended: a stream is opened, or the client is answered. -/
theorem retry_answer (h : Finished s) (hr : s.request ≠ none) (hc : s.backwardClosed = false)
    (he : ∀ k < s.opened, s.ended k = true) {fate : Fate} (hf : fate.Whole) (f : Thrown → Message)
    (gone : Bool) :
    Finished (match (s.retryUnsafe c fate).2 with
      | none => (s.retryUnsafe c fate).1
      | some x => ((s.retryUnsafe c fate).1.answer none (f x) gone).1) := by
  have hp := retried (c := c) (s := s) fate
  generalize s.retryUnsafe c fate = p at hp
  cases hp with
  | refused x =>
    have hcounted : Finished { s with retryCounter := s.retryCounter + 1 } :=
      ⟨h.fresh, h.broken, h.ended⟩
    exact hcounted.answer hr none (fun _ => he) gone
  | unopened x hb hn =>
    have hcounted : Finished { s with
        retryCounter := s.retryCounter + 1, attempts := s.attempts + 1 } :=
      ⟨h.fresh, h.broken, h.ended⟩
    exact hcounted.answer hr none (fun _ => he) gone
  | opened hb hn =>
    obtain ⟨hnone, hb'⟩ := replay_unbroken (s := newStream c
      { s with retryCounter := s.retryCounter + 1, attempts := s.attempts + 1 }) h.broken hf
    rw [hnone]
    have hm := Mute.of_sends (replay_sends fate (s := newStream c
      { s with retryCounter := s.retryCounter + 1, attempts := s.attempts + 1 }))
    have hopen : s.backwardClosed = true → False := by simp [hc]
    exact ⟨fun _ => hm.closed.trans hc, hb', fun hx => (hopen (hm.closed.symm.trans hx)).elim⟩

theorem onForward (h : Finished s) (m : Message) (ec : ErrorCode) (gone : Bool) :
    Finished (s.onForward m false ec gone) := by
  have hkeep : Finished (s.keep m) := by
    cases m with
    | chunk headers data | choke headers | error headers ec reason =>
      exact ⟨h.fresh, h.broken, h.ended⟩
  simp only [Dispatch.onForward]
  split
  · exact h
  · rw [if_neg (by simp [send_unbroken hkeep.broken m])]
    exact hkeep.send m

/-- The peer's message ends its stream, which is the newest. -/
theorem ending (hb : Bounded c s) {k : Nat} (hk : s.live k = true) :
    ∀ i < s.opened, Function.update s.ended k true i = true := by
  intro i hi
  have hnew := hb.newest hk
  rcases Nat.lt_or_ge (i + 1) s.opened with hlt | hge
  · rw [Function.update_of_ne (by omega)]
    exact hb.earlier i hlt
  · have hik : i = k := by omega
    rw [hik, Function.update_self]

theorem onBackward (h : Finished s) (hr : s.request ≠ none) (hc : s.backwardClosed = false)
    {k : Nat} {m : Message} (he : m.terminal = true → ∀ i < s.opened, s.ended i = true)
    {fate : Fate} (hf : fate.Whole) (gone : Bool) :
    Finished (s.onBackward c k m fate gone false) := by
  cases m with
  | chunk headers data =>
    have hoff : Finished s.disableBuffering := ⟨h.fresh, h.broken, h.ended⟩
    exact hoff.relay hr k he gone
  | choke headers => exact h.relay hr k he gone
  | error headers ec reason =>
    simp only [Dispatch.onBackward]
    split
    · exact h.retry_answer hr hc (he rfl) hf _ gone
    · exact h.relay hr k he gone

theorem step (h : Finished s) (hb : Bounded c s) {a : Label} (hok : s.Unbroken a)
    (hs : s.step c a = some t) : Finished t := by
  cases stepped hs with
  | @enqueue headers event opening fate gone hr =>
    have hop : s.opened = 0 := by
      have hatt := hb.fresh hr
      have hle := hb.opened
      omega
    have hasked : Finished { s with
        enqueueFrame := event, enqueueHeaders := headers, request := some (headers, event)
        attempts := s.attempts + 1 } := ⟨by simp, h.broken, h.ended⟩
    have hopen := h.fresh hr
    cases opening with
    | none => exact ⟨fun _ => hopen, h.broken, fun hx => by simp_all [enqueueUnsafe, newStream]⟩
    | some x =>
      refine hasked.retry_answer (by simp) hopen (fun k hk => ?_) hok _ gone
      have hk' : k < s.opened := hk
      omega
  | client _ _ =>
    cases hok
    refine onForward ?_ _ _ _
    exact ⟨h.fresh, h.broken, h.ended⟩
  | disconnect _ =>
    cases hok
    exact h.send _
  | @peer k m fate gone breaks hk =>
    obtain ⟨hf, rfl⟩ := hok
    have hc := h.unclosed hk
    have hsent : Finished { s with ended := Function.update s.ended k m.terminal } :=
      ⟨h.fresh, h.broken, fun hx => by simp_all⟩
    refine hsent.onBackward (hb.requested hk) hc (fun hm => ?_) hf gone
    rw [hm]
    exact ending hb hk
  | @discard k ec gone hk =>
    have hlost : Finished { s with ended := Function.update s.ended k true } :=
      ⟨h.fresh, h.broken, fun _ => ending hb hk⟩
    exact hlost.answer (hb.requested hk) none (fun _ => ending hb hk) gone

end Finished

theorem Finished.of_reachable {garbage : Bool}
    (hr : (dispatchSystem c garbage).Reachable Unbroken s) : Finished s := by
  refine (hr.induct (P := fun s => Finished s ∧ Bounded c s) ?_ ?_).1
  · rintro s rfl
    exact ⟨⟨fun _ => rfl, fun _ => rfl, fun h => by cases h⟩, .init garbage⟩
  · rintro s a t ⟨hf, hb⟩ hok hs
    exact ⟨hf.step hb hok hs, hb.step hs⟩

/-- The client is answered, and so many streams have been tried and opened. -/
structure Answered (attempts opened : Nat) (s : Dispatch) : Prop where
  closed : s.backwardClosed = true
  attempts : s.attempts = attempts
  opened : s.opened = opened

theorem onForward_closed (hc : s.backwardClosed = true) (m : Message) (breaks : Bool)
    (ec : ErrorCode) (gone : Bool) : (s.onForward m breaks ec gone).backwardClosed = true := by
  have hkeep : ((s.keep m).send m breaks).1.backwardClosed = true := by
    rw [(Mute.of_sends (send_sends m breaks)).closed]
    cases m with
    | chunk headers data | choke headers | error headers ec reason => exact hc
  simp only [onForward]
  split
  · exact hc
  · split
    · simp only [answer, hkeep, if_true]
    · exact hkeep

theorem Answered.step {attempts opened : Nat} (h : Answered attempts opened s) (hf : Finished s)
    {a : Label} (hs : s.step c a = some t) : Answered attempts opened t := by
  have hc := h.closed
  cases stepped hs with
  | enqueue hr =>
    rw [hf.fresh hr] at hc
    cases hc
  | @client m breaks ec gone _ _ =>
    have hq := onForward_quiet (s := { s with sent := s.sent ++ [m] }) m breaks ec gone
    have hclosed := onForward_closed (s := { s with sent := s.sent ++ [m] }) hc m breaks ec gone
    exact ⟨hclosed, hq.attempts.trans h.attempts, hq.opened.trans h.opened⟩
  | @disconnect breaks _ =>
    have hsent := onClientDisconnection_sends (c := c) (s := s) breaks
    have hq := Quiet.of_sends hsent
    exact ⟨(Mute.of_sends hsent).closed.trans hc, hq.attempts.trans h.attempts,
      hq.opened.trans h.opened⟩
  | peer hk | discard hk =>
    rw [hf.unclosed hk] at hc
    cases hc

/-! ## Every run -/

/-- The client gets one terminal frame at most, as the last one. While no send to a peer fails,
nothing is opened after it. -/
theorem answered_once {garbage : Bool}
    (hr : (dispatchSystem c garbage).Reachable System.Any s) :
    (∀ x ∈ s.delivered.tail, x.2.terminal = false) ∧
      ((dispatchSystem c garbage).Reachable Unbroken s →
        (∃ x ∈ s.delivered, x.2.terminal = true) →
        ∀ t, (dispatchSystem c garbage).Path Unbroken s t →
          t.attempts = s.attempts ∧ t.opened = s.opened) := by
  have honce := Once.of_reachable hr
  refine ⟨honce.earlier, fun hu hx t hp => ?_⟩
  obtain ⟨x, hx, hterm⟩ := hx
  have hstart : Answered s.attempts s.opened s := ⟨honce.closed x hx hterm, rfl, rfl⟩
  have hrun : (dispatchSystem c garbage).Reachable Unbroken t ∧ Answered s.attempts s.opened t := by
    refine hp.induct (P := fun t => (dispatchSystem c garbage).Reachable Unbroken t ∧
      Answered s.attempts s.opened t) ⟨hu, hstart⟩ ?_
    rintro t a u ⟨ht, ha⟩ hok hs
    exact ⟨ht.tail hok hs, ha.step (.of_reachable ht) hs⟩
  exact ⟨hrun.2.attempts, hrun.2.opened⟩

/-- After a retry and a response the client goes on sending. -/
theorem answered_once_late_chunk :
    ∃ s t, (dispatchSystem (.simple "app".toList ⟨1, .other 0⟩ ⟨2, .other 0⟩) false).Reachable
        Unbroken s ∧
      s.delivered = [(some 1, .choke []), (some 1, .chunk [] "a".toList)] ∧
      s.step (.simple "app".toList ⟨1, .other 0⟩ ⟨2, .other 0⟩)
        (.client (.chunk [] "b".toList) false {} false) = some t ∧
      t.attempts = s.attempts ∧ t.opened = s.opened := by
  obtain ⟨s, hr, hd, hs⟩ := (dispatchSystem (.simple "app".toList ⟨1, .other 0⟩ ⟨2, .other 0⟩)
      false).exists_reachable Unbroken
    (P := fun s => s.delivered = [(some 1, .choke []), (some 1, .chunk [] "a".toList)] ∧
      (s.step (.simple "app".toList ⟨1, .other 0⟩ ⟨2, .other 0⟩)
        (.client (.chunk [] "b".toList) false {} false)).isSome)
    [.enqueue [] "ping".toList none {} false,
      .peer 0 (.error [] OverseerErrors.queueIsFull.code []) {} false false,
      .peer 1 (.chunk [] "a".toList) {} false false,
      .peer 1 (.choke []) {} false false] rfl (by decide +kernel)
  obtain ⟨t, ht⟩ := Option.isSome_iff_exists.mp hs
  have hany := hr.any
  have hterm : ∃ x ∈ s.delivered, x.2.terminal = true := by
    rw [hd]
    exact ⟨_, List.mem_cons_self, rfl⟩
  have hok : s.Unbroken (.client (.chunk [] "b".toList) false {} false) := rfl
  exact ⟨s, t, hr, hd, ht, (answered_once hany).2 hr hterm t (.tail .refl hok ht)⟩

/-- A chunk cannot be sent to the peer, and the client is told so; the peer's queue is full, and
a stream is opened to another one. -/
theorem opened_after_error :
    ∃ s, (dispatchSystem (.simple "app".toList ⟨1, .other 0⟩ ⟨2, .other 0⟩) false).Reachable
        System.Any s ∧
      (∃ x ∈ s.delivered, x.2.terminal = true) ∧
      ∃ t, s.step (.simple "app".toList ⟨1, .other 0⟩ ⟨2, .other 0⟩)
        (.peer 0 (.error [] OverseerErrors.queueIsFull.code []) {} false false) = some t ∧
        s.opened < t.opened := by
  obtain ⟨s, hr, hd, hs⟩ := (dispatchSystem (.simple "app".toList ⟨1, .other 0⟩ ⟨2, .other 0⟩)
      false).exists_reachable System.Any
    (P := fun s => (∃ x ∈ s.delivered, x.2.terminal = true) ∧
      ∃ t ∈ s.step (.simple "app".toList ⟨1, .other 0⟩ ⟨2, .other 0⟩)
        (.peer 0 (.error [] OverseerErrors.queueIsFull.code []) {} false false), s.opened < t.opened)
    [.enqueue [] "ping".toList none {} false,
      .client (.chunk [] "a".toList) true ⟨3, .other 0⟩ false] rfl (by decide +kernel)
  exact ⟨s, hr, hd, hs⟩

end Dispatch

end Cocaine.Vicodyn
