import CocainePlugins.Vicodyn.Dispatch

/-!
# Retries are bounded, and responses do not mix

A stream is opened for the request and for each retry that the balancer allows. A retry
answers the last message of the newest stream, so every earlier stream has ended, and the
chunk that ends the buffering is of the stream that stays the newest.
-/

namespace Cocaine.Vicodyn

open Framework Node

namespace Dispatch

variable {c : Config} {s t u : Dispatch}

/-! ## What leaves the streams alone -/

/-- No stream is opened, none ends, and no chunk is delivered. -/
structure Quiet (s t : Dispatch) : Prop where
  request : t.request = s.request
  buffering : t.bufferingEnabled = s.bufferingEnabled
  retryCounter : t.retryCounter = s.retryCounter
  attempts : t.attempts = s.attempts
  opened : t.opened = s.opened
  ended : t.ended = s.ended
  delivered : ∀ origin headers data,
    (origin, .chunk headers data) ∈ t.delivered → (origin, .chunk headers data) ∈ s.delivered

namespace Quiet

theorem refl : Quiet s s := ⟨rfl, rfl, rfl, rfl, rfl, rfl, fun _ _ _ h => h⟩

theorem trans (h₁ : Quiet s t) (h₂ : Quiet t u) : Quiet s u :=
  ⟨h₂.request.trans h₁.request, h₂.buffering.trans h₁.buffering,
    h₂.retryCounter.trans h₁.retryCounter, h₂.attempts.trans h₁.attempts,
    h₂.opened.trans h₁.opened, h₂.ended.trans h₁.ended,
    fun origin headers data h => h₁.delivered origin headers data (h₂.delivered origin headers data h)⟩

theorem of_sends (h : Sends s t) : Quiet s t := by
  obtain ⟨_, _, _, rfl⟩ := h
  exact ⟨rfl, rfl, rfl, rfl, rfl, rfl, fun _ _ _ h => h⟩

end Quiet

theorem answer_quiet (origin : Option Nat) {m : Message} (hm : m.terminal = true) (gone : Bool) :
    Quiet s (s.answer origin m gone).1 := by
  obtain h | h := answer_cases (s := s) origin m gone
  · rw [h]
    exact .refl
  · rw [h]
    refine ⟨rfl, rfl, rfl, rfl, rfl, rfl, fun origin' headers data hmem => ?_⟩
    cases hmem with
    | head => cases hm
    | tail _ hmem => exact hmem

theorem keep_quiet (m : Message) : Quiet s (s.keep m) := by
  cases m with
  | chunk headers data | choke headers | error headers ec reason =>
    exact ⟨rfl, rfl, rfl, rfl, rfl, rfl, fun _ _ _ h => h⟩

theorem onForward_quiet (m : Message) (breaks : Bool) (ec : ErrorCode) (gone : Bool) :
    Quiet s (s.onForward m breaks ec gone) := by
  simp only [onForward]
  split
  · exact .refl
  · have hsend := (keep_quiet (s := s) m).trans (.of_sends (send_sends m breaks))
    split
    · exact hsend.trans (answer_quiet _ rfl _)
    · exact hsend

theorem onClientDisconnection_quiet (breaks : Bool) : Quiet s (s.onClientDisconnection c breaks) :=
  .of_sends (onClientDisconnection_sends breaks)

theorem relay_quiet (k : Nat) {m : Message} (hm : m.terminal = true) (gone breaks : Bool) :
    Quiet s (s.relay c k m gone breaks) := by
  simp only [relay]
  split
  · exact (answer_quiet _ hm _).trans (onClientDisconnection_quiet _)
  · exact answer_quiet _ hm _

theorem relay_chunk (k : Nat) (m : Message) (gone breaks : Bool) :
    Quiet s (s.relay c k m gone breaks) ∨
      Quiet { s with delivered := (some k, m) :: s.delivered, backwardClosed := m.terminal }
        (s.relay c k m gone breaks) := by
  have hlast : Quiet (s.answer (some k) m gone).1 (s.relay c k m gone breaks) := by
    simp only [relay]
    split
    · exact onClientDisconnection_quiet _
    · exact .refl
  obtain h | h := answer_cases (s := s) (some k) m gone
  · rw [h] at hlast
    exact .inl hlast
  · rw [h] at hlast
    exact .inr hlast

/-! ## The invariant -/

structure Bounded (c : Config) (s : Dispatch) : Prop where
  fresh : s.request = none → s.attempts = 0
  attempts : s.attempts ≤ 1 + min s.retryCounter c.retryCount
  opened : s.opened ≤ s.attempts
  earlier : ∀ k, k + 1 < s.opened → s.ended k = true
  origin : ∀ origin headers data, (origin, .chunk headers data) ∈ s.delivered →
    s.bufferingEnabled = false ∧ ∃ k, origin = some k ∧ s.opened = k + 1

theorem Quiet.bounded (hq : Quiet s t) (h : Bounded c s) : Bounded c t where
  fresh hr := by
    rw [hq.attempts]
    exact h.fresh (hq.request.symm.trans hr)
  attempts := by
    rw [hq.attempts, hq.retryCounter]
    exact h.attempts
  opened := by
    rw [hq.opened, hq.attempts]
    exact h.opened
  earlier k hk := by
    rw [hq.ended]
    exact h.earlier k (hq.opened ▸ hk)
  origin origin headers data hmem := by
    rw [hq.buffering, hq.opened]
    exact h.origin origin headers data (hq.delivered origin headers data hmem)

namespace Bounded

theorem init (garbage : Bool) : Bounded c { chokeSent := garbage } :=
  ⟨fun _ => rfl, Nat.zero_le _, Nat.le_refl 0, fun _ h => absurd h (Nat.not_lt_zero _),
    fun _ _ _ h => nomatch h⟩

/-- The newest stream is the only one whose peer may still send. -/
theorem newest (h : Bounded c s) {k : Nat} (hk : s.live k = true) : s.opened = k + 1 := by
  obtain ⟨hlt, hne⟩ := live_iff.mp hk
  rcases Nat.lt_or_ge (k + 1) s.opened with hlt' | hge
  · rw [h.earlier k hlt'] at hne
    cases hne
  · omega

theorem newStream (h : Bounded c s) (ha : s.opened < s.attempts)
    (he : ∀ k < s.opened, s.ended k = true)
    (hd : ∀ origin headers data, (origin, .chunk headers data) ∉ s.delivered) :
    Bounded c (s.newStream c) :=
  ⟨h.fresh, h.attempts, ha, fun k hk => he k (Nat.lt_of_succ_lt_succ hk),
    fun origin headers data hmem => absurd hmem (hd origin headers data)⟩

theorem retry (h : Bounded c s) (hr : s.request ≠ none) (he : ∀ k < s.opened, s.ended k = true)
    (fate : Fate) : Bounded c (s.retryUnsafe c fate).1 := by
  have hp := retried (c := c) (s := s) fate
  have hatt := h.attempts
  have hop := h.opened
  have hcounted (hn : s.retryCounter + 1 ≤ c.retryCount) : Bounded c { s with
      retryCounter := s.retryCounter + 1, attempts := s.attempts + 1 } := by
    refine ⟨fun hx => absurd hx hr, ?_, ?_, h.earlier, h.origin⟩
    · show s.attempts + 1 ≤ 1 + min (s.retryCounter + 1) c.retryCount
      omega
    · show s.opened ≤ s.attempts + 1
      omega
  generalize s.retryUnsafe c fate = p at hp
  cases hp with
  | refused x =>
    refine ⟨h.fresh, ?_, hop, h.earlier, h.origin⟩
    show s.attempts ≤ 1 + min (s.retryCounter + 1) c.retryCount
    omega
  | unopened x hb hn => exact hcounted hn
  | opened hb hn =>
    -- While the buffering is on, no chunk has been delivered.
    have hnew := (hcounted hn).newStream (Nat.lt_succ_of_le hop) he fun origin headers data hmem => by
      have hoff := (h.origin origin headers data hmem).1
      rw [hb] at hoff
      cases hoff
    exact (Quiet.of_sends (replay_sends fate)).bounded hnew

theorem retry_answer (h : Bounded c (s.retryUnsafe c fate).1) (f : Thrown → Message)
    (hf : ∀ x, (f x).terminal = true) (gone : Bool) :
    Bounded c (match (s.retryUnsafe c fate).2 with
      | none => (s.retryUnsafe c fate).1
      | some x => ((s.retryUnsafe c fate).1.answer none (f x) gone).1) := by
  split
  · exact h
  · exact (answer_quiet _ (hf _) _).bounded h

theorem enqueueUnsafe (h : Bounded c s) (hr : s.request = none) (headers : Headers) (event : Str)
    (opening : Option Thrown) (fate : Fate) (gone : Bool) :
    Bounded c (s.enqueueUnsafe c headers event opening fate gone) := by
  have hatt := h.fresh hr
  have hop : s.opened = 0 := by
    have := h.opened
    omega
  have hnone (origin : Option Nat) (headers : Headers) (data : Str) :
      (origin, .chunk headers data) ∉ s.delivered := by
    intro hmem
    obtain ⟨-, k, -, hk⟩ := h.origin origin headers data hmem
    omega
  have hended : ∀ k < s.opened, s.ended k = true := by
    intro k hk
    omega
  have hasked : Bounded c { s with
      enqueueFrame := event, enqueueHeaders := headers, request := some (headers, event)
      attempts := s.attempts + 1 } := by
    refine ⟨by simp, ?_, ?_, h.earlier, h.origin⟩
    · show s.attempts + 1 ≤ 1 + min s.retryCounter c.retryCount
      omega
    · show s.opened ≤ s.attempts + 1
      omega
  cases opening with
  | none => exact hasked.newStream (Nat.lt_succ_of_le h.opened) hended hnone
  | some x => exact retry_answer (hasked.retry (by simp) hended fate) _ (fun _ => rfl) gone

theorem ending (h : Bounded c s) {k : Nat} (hk : s.live k = true) (last : Bool) :
    Bounded c { s with ended := Function.update s.ended k last } where
  fresh := h.fresh
  attempts := h.attempts
  opened := h.opened
  earlier i hi := by
    have hnew := h.newest hk
    have hne : i ≠ k := by
      rintro rfl
      have hi' : i + 1 < s.opened := hi
      omega
    show Function.update s.ended k last i = true
    rw [Function.update_of_ne hne]
    exact h.earlier i hi
  origin := h.origin

theorem onBackward (h : Bounded c s) (hr : s.request ≠ none) {k : Nat} {m : Message}
    (hnew : s.opened = k + 1) (hlast : s.ended k = m.terminal) (fate : Fate) (gone breaks : Bool) :
    Bounded c (s.onBackward c k m fate gone breaks) := by
  cases m with
  | chunk headers data =>
    have hoff : Bounded c s.disableBuffering :=
      ⟨h.fresh, h.attempts, h.opened, h.earlier,
        fun origin headers data hmem => ⟨rfl, (h.origin origin headers data hmem).2⟩⟩
    obtain hq | hq := relay_chunk (c := c) (s := s.disableBuffering) k (.chunk headers data) gone breaks
    · exact hq.bounded hoff
    · refine hq.bounded ⟨hoff.fresh, hoff.attempts, hoff.opened, hoff.earlier, ?_⟩
      intro origin headers' data' hmem
      cases hmem with
      | head => exact ⟨rfl, k, rfl, hnew⟩
      | tail _ hmem => exact hoff.origin origin headers' data' hmem
  | choke headers => exact (relay_quiet k rfl gone breaks).bounded h
  | error headers ec reason =>
    simp only [Dispatch.onBackward]
    split
    · have hended : ∀ i < s.opened, s.ended i = true := by
        intro i hi
        rcases Nat.lt_or_ge (i + 1) s.opened with hlt | hge
        · exact h.earlier i hlt
        · have hik : i = k := by omega
          rw [hik]
          exact hlast
      exact retry_answer (h.retry hr hended fate) _ (fun _ => rfl) gone
    · exact (relay_quiet k rfl gone breaks).bounded h

/-- A stream is only opened for a request. -/
theorem requested (h : Bounded c s) {k : Nat} (hk : s.live k = true) : s.request ≠ none := by
  intro hr
  have hatt := h.fresh hr
  have hop := h.opened
  have hlt := (live_iff.mp hk).1
  omega

theorem step (h : Bounded c s) {a : Label} (hs : s.step c a = some t) : Bounded c t := by
  cases stepped hs with
  | enqueue hr => exact h.enqueueUnsafe hr _ _ _ _ _
  | client _ _ =>
    refine (onForward_quiet _ _ _ _).bounded ?_
    exact ⟨h.fresh, h.attempts, h.opened, h.earlier, h.origin⟩
  | disconnect _ => exact (onClientDisconnection_quiet _).bounded h
  | @peer k m _ _ _ hk =>
    exact (h.ending hk m.terminal).onBackward (h.requested hk) (h.newest hk)
      (Function.update_self k m.terminal s.ended) _ _ _
  | discard hk => exact (answer_quiet _ rfl _).bounded (h.ending hk true)

theorem of_reachable {garbage : Bool} (hr : (dispatchSystem c garbage).Reachable System.Any s) :
    Bounded c s := by
  refine hr.induct (P := Bounded c) ?_ ?_
  · rintro s rfl
    exact init garbage
  · rintro s a t h - hs
    exact h.step hs

end Bounded

/-! ## After a chunk -/

/-- The buffering is off, and so many streams have been tried and opened. -/
structure Settled (attempts opened : Nat) (s : Dispatch) : Prop where
  request : s.request ≠ none
  buffering : s.bufferingEnabled = false
  attempts : s.attempts = attempts
  opened : s.opened = opened

theorem Quiet.settled {n k : Nat} (hq : Quiet s t) (h : Settled n k s) : Settled n k t :=
  ⟨by rw [hq.request]; exact h.request, hq.buffering.trans h.buffering,
    hq.attempts.trans h.attempts, hq.opened.trans h.opened⟩

namespace Settled

variable {attempts opened : Nat}

theorem retry (h : Settled attempts opened s) (fate : Fate) :
    Settled attempts opened (s.retryUnsafe c fate).1 := by
  have hp := retried (c := c) (s := s) fate
  have hoff := h.buffering
  generalize s.retryUnsafe c fate = p at hp
  cases hp with
  | refused x => exact ⟨h.request, h.buffering, h.attempts, h.opened⟩
  | unopened x hb hn | opened hb hn =>
    rw [hoff] at hb
    cases hb

theorem relay (h : Settled attempts opened s) (k : Nat) (m : Message) (gone breaks : Bool) :
    Settled attempts opened (s.relay c k m gone breaks) := by
  obtain hq | hq := relay_chunk (c := c) (s := s) k m gone breaks
  · exact hq.settled h
  · exact hq.settled ⟨h.request, h.buffering, h.attempts, h.opened⟩

theorem onBackward (h : Settled attempts opened s) (k : Nat) (m : Message) (fate : Fate)
    (gone breaks : Bool) : Settled attempts opened (s.onBackward c k m fate gone breaks) := by
  cases m with
  | chunk headers data =>
    refine relay ?_ k _ gone breaks
    exact ⟨h.request, rfl, h.attempts, h.opened⟩
  | choke headers => exact h.relay k _ gone breaks
  | error headers ec reason =>
    simp only [Dispatch.onBackward]
    split
    · split
      · exact h.retry fate
      · exact (answer_quiet _ rfl gone).settled (h.retry fate)
    · exact h.relay k _ gone breaks

theorem step (h : Settled attempts opened s) {a : Label} (hs : s.step c a = some t) :
    Settled attempts opened t := by
  cases stepped hs with
  | enqueue hr => exact absurd hr h.request
  | client _ _ =>
    refine (onForward_quiet _ _ _ _).settled ?_
    exact ⟨h.request, h.buffering, h.attempts, h.opened⟩
  | disconnect _ => exact (onClientDisconnection_quiet _).settled h
  | peer hk =>
    refine onBackward ?_ _ _ _ _ _
    exact ⟨h.request, h.buffering, h.attempts, h.opened⟩
  | discard hk =>
    refine (answer_quiet _ rfl _).settled ?_
    exact ⟨h.request, h.buffering, h.attempts, h.opened⟩

/-- A chunk of a peer ends the buffering. -/
theorem of_chunk {k : Nat} {headers : Headers} {data : Str} {fate : Fate} {gone breaks : Bool}
    (h : Bounded c s) (hs : s.step c (.peer k (.chunk headers data) fate gone breaks) = some t) :
    Settled s.attempts s.opened t := by
  cases stepped hs with
  | peer hk =>
    refine relay ?_ k _ gone breaks
    exact ⟨h.requested hk, rfl, rfl, rfl⟩

end Settled

/-! ## Every run -/

/-- No more streams are opened than the balancer allows, none after a chunk of a response,
and the chunks that the client gets are of one stream. -/
theorem retries_bounded {garbage : Bool}
    (hr : (dispatchSystem c garbage).Reachable System.Any s) :
    s.attempts ≤ 1 + c.retryCount ∧ s.opened ≤ s.attempts ∧
      (∀ k headers data fate gone breaks t u,
        s.step c (.peer k (.chunk headers data) fate gone breaks) = some t →
        (dispatchSystem c garbage).Path System.Any t u →
        u.attempts = s.attempts ∧ u.opened = s.opened) ∧
      ∃ k, ∀ origin headers data, (origin, .chunk headers data) ∈ s.delivered → origin = some k := by
  have h := Bounded.of_reachable hr
  have hatt := h.attempts
  refine ⟨by omega, h.opened, fun k headers data fate gone breaks t u hs hp => ?_, s.opened - 1, ?_⟩
  · have hsettled : Settled s.attempts s.opened u :=
      hp.induct (P := Settled s.attempts s.opened) (.of_chunk h hs) fun hu _ hstep => hu.step hstep
    exact ⟨hsettled.attempts, hsettled.opened⟩
  · intro origin headers data hmem
    obtain ⟨-, k, rfl, hk⟩ := h.origin origin headers data hmem
    rw [hk, Nat.add_sub_cancel]

/-- A peer whose queue is full, and the response of another one. -/
theorem retries_bounded_full_queue :
    ∃ s, (dispatchSystem (.simple "app".toList ⟨1, .other 0⟩ ⟨2, .other 0⟩) false).Reachable System.Any s ∧
      s.opened = 2 ∧
      s.delivered = [(some 1, .choke []), (some 1, .chunk [] "b".toList), (some 1, .chunk [] "a".toList)] ∧
      s.attempts ≤ 1 + 4 := by
  obtain ⟨s, hr, ho, hd⟩ := (dispatchSystem (.simple "app".toList ⟨1, .other 0⟩ ⟨2, .other 0⟩)
      false).exists_reachable System.Any
    (P := fun s => s.opened = 2 ∧ s.delivered =
      [(some 1, .choke []), (some 1, .chunk [] "b".toList), (some 1, .chunk [] "a".toList)])
    [.enqueue [] "ping".toList none {} false,
      .peer 0 (.error [] OverseerErrors.queueIsFull.code []) {} false false,
      .peer 1 (.chunk [] "a".toList) {} false false,
      .peer 1 (.chunk [] "b".toList) {} false false,
      .peer 1 (.choke []) {} false false] rfl (by decide +kernel)
  exact ⟨s, hr, ho, hd, (retries_bounded hr).1⟩

end Dispatch

end Cocaine.Vicodyn
