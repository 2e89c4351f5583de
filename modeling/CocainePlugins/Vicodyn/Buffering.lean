import CocainePlugins.Vicodyn.Dispatch

/-!
# What is kept for a replay

The chunks of the client are kept until the first chunk of a response, which drops them and ends
the retries. `on_forward_chunk` does not look at `buffering_enabled`: what the client sends after
that is kept too, until the next chunk of the response.
-/

namespace Cocaine.Vicodyn

open Framework Node

namespace Dispatch

variable {c : Config} {s t u : Dispatch}

/-- What is buffered is left alone. -/
structure Retains (s t : Dispatch) : Prop where
  enabled : t.bufferingEnabled = s.bufferingEnabled
  chunks : t.chunks = s.chunks
  headers : t.chunkHeaders = s.chunkHeaders

namespace Retains

theorem refl : Retains s s := ⟨rfl, rfl, rfl⟩

theorem trans (h₁ : Retains s t) (h₂ : Retains t u) : Retains s u :=
  ⟨h₂.enabled.trans h₁.enabled, h₂.chunks.trans h₁.chunks, h₂.headers.trans h₁.headers⟩

theorem of_sends (h : Sends s t) : Retains s t := by
  obtain ⟨_, _, _, rfl⟩ := h
  exact ⟨rfl, rfl, rfl⟩

theorem answer (origin : Option Nat) (m : Message) (gone : Bool) :
    Retains s (s.answer origin m gone).1 := by
  obtain h | h := answer_cases (s := s) origin m gone
  · rw [h]
    exact .refl
  · rw [h]
    exact ⟨rfl, rfl, rfl⟩

theorem relay (k : Nat) (m : Message) (gone breaks : Bool) :
    Retains s (s.relay c k m gone breaks) := by
  simp only [Dispatch.relay]
  split
  · exact (answer _ _ _).trans (of_sends (onClientDisconnection_sends breaks))
  · exact answer _ _ _

theorem retryUnsafe (fate : Fate) : Retains s (s.retryUnsafe c fate).1 := by
  have hp := retried (c := c) (s := s) fate
  generalize s.retryUnsafe c fate = p at hp
  cases hp with
  | refused x | unopened x hb hn => exact ⟨rfl, rfl, rfl⟩
  | opened hb hn =>
    have hnew : Retains s (newStream c { s with
        retryCounter := s.retryCounter + 1, attempts := s.attempts + 1 }) := ⟨rfl, rfl, rfl⟩
    exact hnew.trans (of_sends (replay_sends fate))

theorem retry_answer (fate : Fate) (f : Thrown → Message) (gone : Bool) :
    Retains s (match (s.retryUnsafe c fate).2 with
      | none => (s.retryUnsafe c fate).1
      | some x => ((s.retryUnsafe c fate).1.answer none (f x) gone).1) := by
  split
  · exact retryUnsafe fate
  · exact (retryUnsafe fate).trans (answer _ _ _)

theorem enqueueUnsafe (headers : Headers) (event : Str) (opening : Option Thrown) (fate : Fate)
    (gone : Bool) : Retains s (s.enqueueUnsafe c headers event opening fate gone) := by
  have hasked : Retains s { s with
      enqueueFrame := event, enqueueHeaders := headers, request := some (headers, event)
      attempts := s.attempts + 1 } := ⟨rfl, rfl, rfl⟩
  cases opening with
  | none => exact hasked.trans ⟨rfl, rfl, rfl⟩
  | some x => exact hasked.trans (retry_answer fate _ gone)

theorem onForward (m : Message) (breaks : Bool) (ec : ErrorCode) (gone : Bool) :
    Retains s (s.onForward m breaks ec gone) ∨ Retains (s.keep m) (s.onForward m breaks ec gone) := by
  simp only [Dispatch.onForward]
  split
  · exact .inl .refl
  · right
    split
    · exact (of_sends (send_sends m breaks)).trans (answer _ _ _)
    · exact of_sends (send_sends m breaks)

end Retains

/-- The first chunk of a response drops what is buffered, and so does every other. -/
theorem response_disables {k : Nat} {headers : Headers} {data : Str} {fate : Fate}
    {gone breaks : Bool} (hs : s.step c (.peer k (.chunk headers data) fate gone breaks) = some t) :
    Retains s.disableBuffering t := by
  cases stepped hs with
  | peer hk =>
    have hended : Retains s.disableBuffering (disableBuffering
        { s with ended := Function.update s.ended k false }) := ⟨rfl, rfl, rfl⟩
    exact hended.trans (.relay k (.chunk headers data) gone breaks)

/-- A step leaves what is buffered alone, keeps a chunk of the client, or drops all. -/
theorem step_buffers {a : Label} (hs : s.step c a = some t) :
    Retains s t ∨
      (∃ headers data breaks ec gone, a = .client (.chunk headers data) breaks ec gone ∧
        Retains (s.keep (.chunk headers data)) t) ∨
      Retains s.disableBuffering t := by
  have hpeer := @response_disables c s t
  cases stepped hs with
  | enqueue hr => exact .inl (.enqueueUnsafe _ _ _ _ _)
  | @client m breaks ec gone _ _ =>
    have hsent : Retains s { s with sent := s.sent ++ [m] } := ⟨rfl, rfl, rfl⟩
    obtain h | h := Retains.onForward (s := { s with sent := s.sent ++ [m] }) m breaks ec gone
    · exact .inl (hsent.trans h)
    · cases m with
      | chunk headers data =>
        refine .inr (.inl ⟨headers, data, breaks, ec, gone, rfl, .trans ?_ h⟩)
        exact ⟨rfl, rfl, rfl⟩
      | choke headers | error headers ec reason =>
        refine .inl (.trans ?_ h)
        exact ⟨rfl, rfl, rfl⟩
  | disconnect _ => exact .inl (.of_sends (onClientDisconnection_sends _))
  | @peer k m fate gone breaks hk =>
    have hended : Retains s { s with ended := Function.update s.ended k m.terminal } :=
      ⟨rfl, rfl, rfl⟩
    cases m with
    | chunk headers data => exact .inr (.inr (hpeer hs))
    | choke headers => exact .inl (hended.trans (.relay k _ gone breaks))
    | error headers ec reason =>
      left
      refine hended.trans ?_
      simp only [onBackward]
      split
      · exact .retry_answer fate _ gone
      · exact .relay k _ gone breaks
  | @discard k ec gone hk =>
    have hended : Retains s { s with ended := Function.update s.ended k true } := ⟨rfl, rfl, rfl⟩
    exact .inl (hended.trans (.answer _ _ _))

/-! ## Every run -/

/-- A chunk of the client comes before the first chunk of the response. -/
def Before (s : Dispatch) : Label → Prop
  | .client (.chunk _ _) _ _ _ => s.bufferingEnabled = true
  | _ => True

instance (s : Dispatch) (a : Label) : Decidable (s.Before a) := by
  unfold Before
  split <;> infer_instance

/-- Nothing is kept for a retry, and none is made. -/
structure Dropped (s : Dispatch) : Prop where
  disabled : s.bufferingEnabled = false
  chunks : s.chunks = []
  headers : s.chunkHeaders = []

namespace Dropped

theorem disableBuffering : Dropped s.disableBuffering := ⟨rfl, rfl, rfl⟩

theorem of_retains (h : Dropped s) (hr : Retains s t) : Dropped t :=
  ⟨hr.enabled.trans h.disabled, hr.chunks.trans h.chunks, hr.headers.trans h.headers⟩

theorem step {a : Label} (h : Dropped s) (hok : s.Before a) (hs : s.step c a = some t) :
    Dropped t := by
  obtain hr | ⟨headers, data, breaks, ec, gone, rfl, -⟩ | hr := step_buffers hs
  · exact h.of_retains hr
  · exact absurd hok (Bool.eq_false_iff.mp h.disabled)
  · exact disableBuffering.of_retains hr

theorem of_path {garbage : Bool} (h : Dropped s) (hp : (dispatchSystem c garbage).Path Before s t) :
    Dropped t :=
  hp.induct h step

end Dropped

theorem buffering_or_dropped {garbage : Bool}
    (hr : (dispatchSystem c garbage).Reachable Before s) :
    s.bufferingEnabled = true ∨ Dropped s := by
  refine hr.induct (P := fun s => s.bufferingEnabled = true ∨ Dropped s) ?_ ?_
  · rintro s rfl
    exact .inl rfl
  · rintro s a t (hon | hdrop) hok hs
    · obtain hr | ⟨headers, data, breaks, ec, gone, -, hr⟩ | hr := step_buffers hs
      · exact .inl (hr.enabled.trans hon)
      · exact .inl (hr.enabled.trans hon)
      · exact .inr (Dropped.disableBuffering.of_retains hr)
    · exact .inr (hdrop.step hok hs)

/-- If every chunk of the client comes before the first chunk of the response, nothing of them is
kept from then on. -/
theorem response_ends_buffering {garbage : Bool}
    (hr : (dispatchSystem c garbage).Reachable Before s) :
    (s.bufferingEnabled = false → s.chunks = [] ∧ s.chunkHeaders = []) ∧
      ∀ k headers data fate gone breaks t u,
        s.step c (.peer k (.chunk headers data) fate gone breaks) = some t →
        (dispatchSystem c garbage).Path Before t u →
        u.bufferingEnabled = false ∧ u.chunks = [] ∧ u.chunkHeaders = [] := by
  constructor
  · intro hoff
    obtain hon | hdrop := buffering_or_dropped hr
    · rw [hoff] at hon
      cases hon
    · exact ⟨hdrop.chunks, hdrop.headers⟩
  · intro k headers data fate gone breaks t u hs hp
    have hdrop := (Dropped.disableBuffering.of_retains (response_disables hs)).of_path hp
    exact ⟨hdrop.disabled, hdrop.chunks, hdrop.headers⟩

/-- Two chunks of a client, and then those of the response. -/
theorem response_ends_buffering_two :
    ∃ s, (dispatchSystem (.simple "app".toList ⟨1, .other 0⟩ ⟨2, .other 0⟩) false).Reachable
        Before s ∧
      s.sent = [.chunk [] "1".toList, .chunk [] "2".toList] ∧ s.delivered.length = 2 ∧
      s.bufferingEnabled = false ∧ s.chunks = [] ∧ s.chunkHeaders = [] := by
  obtain ⟨s, hr, hsent, hlen, hoff⟩ := (dispatchSystem (.simple "app".toList ⟨1, .other 0⟩
      ⟨2, .other 0⟩) false).exists_reachable Before
    (P := fun s => s.sent = [.chunk [] "1".toList, .chunk [] "2".toList] ∧
      s.delivered.length = 2 ∧ s.bufferingEnabled = false)
    [.enqueue [] "ping".toList none {} false,
      .client (.chunk [] "1".toList) false {} false,
      .client (.chunk [] "2".toList) false {} false,
      .peer 0 (.chunk [] "a".toList) {} false false,
      .peer 0 (.chunk [] "b".toList) {} false false] rfl (by decide +kernel)
  exact ⟨s, hr, hsent, hlen, hoff, (response_ends_buffering hr).1 hoff⟩

/-- The chunks of a client that go on after the first chunk of the response are kept. -/
theorem buffered_after_response :
    ∃ s, (dispatchSystem (.simple "app".toList ⟨1, .other 0⟩ ⟨2, .other 0⟩) false).Reachable
        System.Any s ∧
      s.delivered = [(some 0, .chunk [] "a".toList)] ∧ s.bufferingEnabled = false ∧
      s.chunks = ["1".toList, "2".toList] ∧ s.chunkHeaders = [[], []] :=
  (dispatchSystem (.simple "app".toList ⟨1, .other 0⟩ ⟨2, .other 0⟩) false).exists_reachable
    System.Any
    [.enqueue [] "ping".toList none {} false,
      .peer 0 (.chunk [] "a".toList) {} false false,
      .client (.chunk [] "1".toList) false {} false,
      .client (.chunk [] "2".toList) false {} false] rfl (by decide +kernel)

end Dispatch

end Cocaine.Vicodyn
