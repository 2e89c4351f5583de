import CocainePlugins.Vicodyn.Dispatch

/-!
# A retry replays the request

What the dispatch keeps of the client's messages is what the client has sent, as long as
there is no error among them: `on_forward_error` keeps nothing. So each new stream receives
the request and all messages so far, and the next ones go to it as they come.
-/

namespace Cocaine.Vicodyn

open Framework Node

/-- A peer that sends it is given up for another one. -/
def Message.retried (c : Config) : Message → Bool
  | .error _ ec _ => c.recoverable ec
  | .chunk _ _ | .choke _ => false

namespace Dispatch

variable {c : Config} {s t : Dispatch}

/-- The client stays, and no retry follows its error. -/
def Steady (c : Config) (s : Dispatch) : Label → Prop
  | .disconnect _ => False
  | .peer _ m _ gone _ =>
    (m.retried c = true → ∀ x ∈ s.sent, x.isError = false) ∧ (m.retried c = false → gone = false)
  | .enqueue _ _ _ _ _ | .client _ _ _ _ | .discard _ _ _ => True

instance (c : Config) (s : Dispatch) (a : Label) : Decidable (s.Steady c a) := by
  unfold Steady
  split <;> infer_instance

/-! ## What a stream receives -/

/-- What a retry sends after the request. -/
def buffered (s : Dispatch) : List Message :=
  List.zipWith .chunk s.chunkHeaders s.chunks ++ if s.chokeSent then [.choke s.chokeHeaders] else []

variable {k : Nat}

/-- A send on an open stream breaks it, or its peer receives the message. -/
theorem send_received (hk : s.forward = some k) (hc : s.forwardClosed = false)
    (m : Message) (breaks : Bool) :
    ((s.send m breaks).2 = true ∧ (s.send m breaks).1.broken k = true ∧
      (s.send m breaks).1.forwardClosed = false) ∨
    ((s.send m breaks).2 = false ∧ s.broken k = false ∧
      (s.send m breaks).1.received k = s.received k ++ [.message m] ∧
      (s.send m breaks).1.forwardClosed = m.terminal) := by
  simp only [send, hk, hc]
  split
  · contradiction
  · split
    · exact .inl ⟨rfl, Function.update_self k true s.broken, rfl⟩
    · rename_i hb
      simp only [Bool.or_eq_true, not_or, Bool.not_eq_true] at hb
      exact .inr ⟨rfl, hb.1, Function.update_self k _ s.received, rfl⟩

theorem sendAll_received {ms : List Message} (hk : s.forward = some k)
    (hc : s.forwardClosed = false) (hm : ∀ m ∈ ms, m.terminal = false) (breakAt : Option Nat) :
    ((s.sendAll ms breakAt).2 = true ∧ (s.sendAll ms breakAt).1.broken k = true ∧
      (s.sendAll ms breakAt).1.forwardClosed = false) ∨ ((s.sendAll ms breakAt).2 = false ∧
      (s.sendAll ms breakAt).1.received k = s.received k ++ ms.map .message ∧
      (s.sendAll ms breakAt).1.forwardClosed = false) := by
  induction ms generalizing s breakAt with
  | nil => exact .inr ⟨rfl, (List.append_nil _).symm, hc⟩
  | cons m ms ih =>
    simp only [sendAll]
    obtain h | ⟨hok, -, hrec, hclosed⟩ := send_received hk hc m (breakAt == some 0)
    · rw [if_pos h.1]
      exact .inl h
    · rw [if_neg (by simp [hok])]
      have hk' : (s.send m (breakAt == some 0)).1.forward = some k := by
        obtain ⟨_, _, _, heq⟩ := send_sends (s := s) m (breakAt == some 0)
        rw [heq]
        exact hk
      have hm' := hm m List.mem_cons_self
      obtain h | ⟨hok', hrec', hclosed'⟩ := ih hk' (hclosed.trans hm')
        (fun x hx => hm x (List.mem_cons_of_mem m hx)) (breakAt.map (· - 1))
      · exact .inl h
      · refine .inr ⟨hok', ?_, hclosed'⟩
        rw [hrec', hrec, List.append_assoc]
        rfl

theorem zipWith_chunk_terminal {headers : List Headers} {chunks : List Str} {m : Message}
    (hm : m ∈ List.zipWith .chunk headers chunks) : m.terminal = false := by
  induction headers generalizing chunks with
  | nil => cases hm
  | cons h headers ih =>
    cases chunks with
    | nil => cases hm
    | cons d chunks =>
      cases hm with
      | head => rfl
      | tail _ hm => exact ih hm

/-- A replay breaks the stream, or the peer receives all of it. -/
theorem replay_received (hk : s.forward = some k) (hc : s.forwardClosed = false) (fate : Fate) :
    ((s.replay fate).1.broken k = true ∧ (s.replay fate).1.forwardClosed = false) ∨
    ((s.replay fate).1.received k = s.received k ++ s.buffered.map .message ∧
      (s.replay fate).1.forwardClosed = s.chokeSent) := by
  simp only [replay, buffered]
  obtain ⟨hbreak, h⟩ | ⟨hok, hrec, hclosed⟩ :=
    sendAll_received hk hc (fun _ => zipWith_chunk_terminal) fate.breakAt
  · rw [if_pos hbreak]
    exact .inl h
  · rw [if_neg (by simp [hok])]
    cases hs : s.chokeSent with
    | false =>
      simp only [Bool.false_eq_true, if_false, List.append_nil]
      exact .inr ⟨hrec, hclosed⟩
    | true =>
      have hk' : (s.sendAll (List.zipWith .chunk s.chunkHeaders s.chunks) fate.breakAt).1.forward =
          some k := by
        obtain ⟨_, _, _, heq⟩ := sendAll_sends (s := s)
          (List.zipWith .chunk s.chunkHeaders s.chunks) fate.breakAt
        rw [heq]
        exact hk
      simp only [if_true]
      obtain ⟨-, h⟩ | ⟨-, -, hrec', hclosed'⟩ :=
        send_received hk' hclosed (.choke s.chokeHeaders) fate.breakChoke
      · exact .inl h
      · refine .inr ⟨?_, hclosed'⟩
        rw [hrec', hrec, List.map_append, List.append_assoc]
        rfl

/-! ## The invariant -/

structure Faithful (c : Config) (s : Dispatch) : Prop where
  fresh : s.request = none → s.forward = none ∧ s.buffered = [] ∧ s.sent = []
  unopened : s.forward = none → s.opened = 0
  asked : ∀ headers event, s.request = some (headers, event) → s.bufferingEnabled = true →
    s.enqueueHeaders = headers ∧ s.enqueueFrame = event
  aligned : s.chunkHeaders.length = s.chunks.length
  kept : s.bufferingEnabled = true → s.forward ≠ none → (∀ m ∈ s.sent, m.isError = false) →
    s.buffered = s.sent
  closed : s.forwardClosed = true → ∃ m ∈ s.sent, m.terminal = true
  received : ∀ k headers event, s.forward = some k → s.broken k = false →
    s.request = some (headers, event) →
    s.received k = .enqueue headers c.app event :: s.sent.map .message

namespace Faithful

theorem init : Faithful c { chokeSent := false } :=
  ⟨fun _ => ⟨rfl, rfl, rfl⟩, fun _ => rfl, by simp, rfl, by simp, by simp, by simp⟩

theorem answer (h : Faithful c s) (origin : Option Nat) (m : Message) (gone : Bool) :
    Faithful c (s.answer origin m gone).1 := by
  obtain heq | heq := answer_cases (s := s) origin m gone
  · rw [heq]
    exact h
  · rw [heq]
    exact ⟨h.fresh, h.unopened, h.asked, h.aligned, h.kept, h.closed, h.received⟩

theorem relay (h : Faithful c s) (k : Nat) (m : Message) (breaks : Bool) :
    Faithful c (s.relay c k m false breaks) := by
  have hstays : (s.answer (some k) m false).2 = false := by
    simp only [Dispatch.answer]
    split <;> rfl
  simp only [Dispatch.relay]
  rw [if_neg (by simp [hstays])]
  exact h.answer (some k) m false

theorem disableBuffering (h : Faithful c s) : Faithful c s.disableBuffering where
  fresh hr := by
    obtain ⟨hf, hb, hs⟩ := h.fresh hr
    refine ⟨hf, ?_, hs⟩
    simp only [buffered, List.append_eq_nil_iff] at hb
    exact hb.2
  unopened := h.unopened
  asked _ _ _ hb := nomatch hb
  aligned := rfl
  kept hb := nomatch hb
  closed := h.closed
  received := h.received

/-- A new stream, when what is kept is all that the client has sent. -/
theorem newStream_replay (h : Faithful c s) (hreq : s.request ≠ none)
    (hb : s.bufferingEnabled = true) (hbuf : s.buffered = s.sent) (fate : Fate) :
    Faithful c ((s.newStream c).replay fate).1 := by
  have hspec := replay_received (s := s.newStream c) (k := s.opened) rfl rfl fate
  have hchoke : s.chokeSent = true → ∃ m ∈ s.sent, m.terminal = true := by
    intro hs
    refine ⟨.choke s.chokeHeaders, ?_, rfl⟩
    rw [← hbuf]
    simp [buffered, hs]
  obtain ⟨received, closed, broken, heq⟩ := replay_sends (s := s.newStream c) fate
  rw [heq] at hspec ⊢
  refine ⟨fun hr => absurd hr hreq, by simp [newStream], h.asked, h.aligned, fun _ _ _ => hbuf, ?_, ?_⟩
  · intro hcl
    obtain ⟨-, hopen⟩ | ⟨-, hclosed⟩ := hspec
    · rw [hopen] at hcl
      cases hcl
    · exact hchoke (hclosed.symm.trans hcl)
  · rintro k headers event hk hnb hr
    cases hk
    obtain ⟨hbroken, -⟩ | ⟨hrec, -⟩ := hspec
    · rw [hbroken] at hnb
      cases hnb
    · obtain ⟨rfl, rfl⟩ := h.asked headers event hr hb
      refine hrec.trans ?_
      have hbuf' : (s.newStream c).buffered = s.sent := hbuf
      have hfirst : (s.newStream c).received s.opened =
          [.enqueue s.enqueueHeaders c.app s.enqueueFrame] :=
        Function.update_self s.opened _ s.received
      rw [hbuf', hfirst]
      rfl

theorem retry (h : Faithful c s) (hreq : s.request ≠ none)
    (hbuf : s.bufferingEnabled = true → s.buffered = s.sent) (fate : Fate) :
    Faithful c (s.retryUnsafe c fate).1 := by
  have hp := retried (c := c) (s := s) fate
  generalize s.retryUnsafe c fate = p at hp
  cases hp with
  | refused x | unopened x hb hn =>
    exact ⟨h.fresh, h.unopened, h.asked, h.aligned, h.kept, h.closed, h.received⟩
  | opened hb hn =>
    have hcounted : Faithful c { s with
        retryCounter := s.retryCounter + 1, attempts := s.attempts + 1 } :=
      ⟨h.fresh, h.unopened, h.asked, h.aligned, h.kept, h.closed, h.received⟩
    exact hcounted.newStream_replay hreq hb (hbuf hb) fate

theorem enqueueUnsafe (h : Faithful c s) (hr : s.request = none) (headers : Headers) (event : Str)
    (opening : Option Thrown) (fate : Fate) (gone : Bool) :
    Faithful c (s.enqueueUnsafe c headers event opening fate gone) := by
  obtain ⟨hf, hbuf, hsent⟩ := h.fresh hr
  have hasked : Faithful c { s with
      enqueueFrame := event, enqueueHeaders := headers, request := some (headers, event)
      attempts := s.attempts + 1 } := by
    refine ⟨by simp, h.unopened, ?_, h.aligned, h.kept, h.closed, ?_⟩
    · rintro _ _ ⟨⟩ -
      exact ⟨rfl, rfl⟩
    · intro k _ _ hk
      rw [show s.forward = some k from hk] at hf
      cases hf
  cases opening with
  | none =>
    refine ⟨by simp [Dispatch.enqueueUnsafe, newStream], by simp [Dispatch.enqueueUnsafe, newStream],
      hasked.asked, h.aligned, fun _ _ _ => hbuf.trans hsent.symm, ?_, ?_⟩
    · simp [Dispatch.enqueueUnsafe, newStream]
    · rintro k _ _ ⟨⟩ - ⟨⟩
      refine (Function.update_self s.opened _ s.received).trans ?_
      show _ = Frame.enqueue headers c.app event :: s.sent.map .message
      rw [hsent]
      rfl
  | some x =>
    have hretry := hasked.retry (by simp) (fun _ => hbuf.trans hsent.symm) fate
    simp only [Dispatch.enqueueUnsafe]
    split
    · exact hretry
    · exact hretry.answer _ _ _

/-- A message is kept beside the earlier ones. -/
theorem keep_eq (m : Message) : ∃ chunks chunkHeaders chokeSent chokeHeaders,
    s.keep m = { s with
      chunks := chunks, chunkHeaders := chunkHeaders
      chokeSent := chokeSent, chokeHeaders := chokeHeaders } := by
  cases m with
  | chunk headers data | choke headers | error headers ec reason => exact ⟨_, _, _, _, rfl⟩

theorem keep_aligned (h : Faithful c s) (m : Message) :
    (s.keep m).chunkHeaders.length = (s.keep m).chunks.length := by
  cases m with
  | chunk headers data => simp [keep, h.aligned]
  | choke headers | error headers ec reason => exact h.aligned

/-- What is kept grows by the client's message, if that is not an error. -/
theorem buffered_keep (h : Faithful c s) {m : Message} (hm : m.isError = false)
    (hbuf : s.buffered = s.sent) (hopen : ∀ x ∈ s.sent, x.terminal = false) :
    (s.keep m).buffered = s.sent ++ [m] := by
  have hchoke : s.chokeSent = false := by
    cases hs : s.chokeSent with
    | false => rfl
    | true =>
      have hlast := hopen (.choke s.chokeHeaders) (by rw [← hbuf]; simp [buffered, hs])
      cases hlast
  rw [← hbuf]
  cases m with
  | chunk headers data => simp [keep, buffered, hchoke, List.zipWith_append h.aligned]
  | choke headers => simp [keep, buffered, hchoke]
  | error headers ec reason => cases hm

/-- The client's message goes to the stream that is there. -/
theorem keep_send (h : Faithful c s) (hreq : s.request ≠ none) (hk : s.forward = some k)
    (hopen : ∀ x ∈ s.sent, x.terminal = false) (m : Message) (breaks : Bool) :
    Faithful c (send { s.keep m with sent := s.sent ++ [m] } m breaks).1 := by
  have hnot : s.forwardClosed = false := by
    cases hc : s.forwardClosed with
    | false => rfl
    | true =>
      obtain ⟨x, hx, hterm⟩ := h.closed hc
      rw [hopen x hx] at hterm
      cases hterm
  have hal := h.keep_aligned m
  have hbuf : s.bufferingEnabled = true → (∀ x ∈ s.sent ++ [m], x.isError = false) →
      (s.keep m).buffered = s.sent ++ [m] := by
    intro hb herr
    refine h.buffered_keep (herr m (by simp)) (h.kept hb (by simp [hk]) fun x hx => ?_) hopen
    exact herr x (List.mem_append_left [m] hx)
  obtain ⟨chunks, chunkHeaders, chokeSent, chokeHeaders, heq⟩ := keep_eq (s := s) m
  rw [heq] at hal hbuf ⊢
  have hspec := send_received (s := { s with
      chunks := chunks, chunkHeaders := chunkHeaders, chokeSent := chokeSent
      chokeHeaders := chokeHeaders, sent := s.sent ++ [m] }) hk hnot m breaks
  obtain ⟨received, closed, broken, heq'⟩ := send_sends (s := { s with
      chunks := chunks, chunkHeaders := chunkHeaders, chokeSent := chokeSent
      chokeHeaders := chokeHeaders, sent := s.sent ++ [m] }) m breaks
  rw [heq'] at hspec ⊢
  refine ⟨fun hr => absurd hr hreq, h.unopened, h.asked, hal, fun hb _ => hbuf hb, ?_, ?_⟩
  · intro hcl
    obtain ⟨-, -, hstill⟩ | ⟨-, -, -, hlast⟩ := hspec
    · rw [hstill] at hcl
      cases hcl
    · exact ⟨m, by simp, hlast.symm.trans hcl⟩
  · intro i headers event hi hnb hr
    obtain rfl : k = i := Option.some.inj (hk.symm.trans hi)
    obtain ⟨-, hbroken, -⟩ | ⟨-, hwas, hrec, -⟩ := hspec
    · rw [hbroken] at hnb
      cases hnb
    · refine hrec.trans ?_
      show s.received k ++ [.message m] = .enqueue headers c.app event :: (s.sent ++ [m]).map .message
      rw [h.received k headers event hk hwas hr, List.map_append]
      rfl

theorem onForward (h : Faithful c s) (hreq : s.request ≠ none)
    (hopen : ∀ x ∈ s.sent, x.terminal = false) (m : Message) (breaks : Bool) (ec : ErrorCode)
    (gone : Bool) :
    Faithful c (onForward { s with sent := s.sent ++ [m] } m breaks ec gone) := by
  simp only [Dispatch.onForward]
  split
  · -- The message is dropped, and no stream will be opened any more.
    rename_i hnone
    have hf : s.forward = none := Option.isNone_iff_eq_none.mp hnone
    refine ⟨fun hr => absurd hr hreq, h.unopened, h.asked, h.aligned, fun _ hne => absurd hf hne,
      fun hcl => ?_, fun k _ _ hk => ?_⟩
    · obtain ⟨x, hx, hterm⟩ := h.closed hcl
      exact ⟨x, List.mem_append_left [m] hx, hterm⟩
    · cases hf.symm.trans hk
  · rename_i hsome
    obtain ⟨k, hk⟩ : ∃ k, s.forward = some k := Option.ne_none_iff_exists'.mp (by simpa using hsome)
    have hsame : keep { s with sent := s.sent ++ [m] } m = { s.keep m with sent := s.sent ++ [m] } := by
      cases m with
      | chunk headers data | choke headers | error headers ec reason => rfl
    have hsent := h.keep_send hreq hk hopen m breaks
    rw [← hsame] at hsent
    split
    · exact hsent.answer _ _ _
    · exact hsent

theorem onBackward (h : Faithful c s) (hreq : s.request ≠ none) (hf : s.forward ≠ none)
    {m : Message} {fate : Fate} {gone breaks : Bool}
    (hkept : m.retried c = true → ∀ x ∈ s.sent, x.isError = false)
    (hstays : m.retried c = false → gone = false) :
    Faithful c (s.onBackward c k m fate gone breaks) := by
  cases m with
  | chunk headers data =>
    obtain rfl : gone = false := hstays rfl
    exact h.disableBuffering.relay k _ breaks
  | choke headers =>
    obtain rfl : gone = false := hstays rfl
    exact h.relay k _ breaks
  | error headers ec reason =>
    simp only [Dispatch.onBackward]
    split
    · rename_i hrec
      have hretry := h.retry hreq (fun hb => h.kept hb hf (hkept hrec)) fate
      split
      · exact hretry
      · exact hretry.answer _ _ _
    · rename_i hrec
      obtain rfl : gone = false := hstays (Bool.eq_false_iff.mpr hrec)
      exact h.relay k _ breaks

theorem step (h : Faithful c s) {a : Label} (hok : s.Steady c a) (hs : s.step c a = some t) :
    Faithful c t := by
  have hended (ended : Nat → Bool) : Faithful c { s with ended := ended } :=
    ⟨h.fresh, h.unopened, h.asked, h.aligned, h.kept, h.closed, h.received⟩
  have hforward {k : Nat} (hk : s.live k = true) : s.forward ≠ none := by
    intro hf
    have hzero := h.unopened hf
    have hlt := (live_iff.mp hk).1
    omega
  cases stepped hs with
  | enqueue hr => exact h.enqueueUnsafe hr _ _ _ _ _
  | client hreq hgoing => exact h.onForward hreq hgoing _ _ _ _
  | disconnect _ => cases hok
  | @peer k m _ _ _ hk =>
    exact (hended (Function.update s.ended k m.terminal)).onBackward
      (fun hr => hforward hk (h.fresh hr).1) (hforward hk) hok.1 hok.2
  | @discard k _ _ _ => exact (hended (Function.update s.ended k true)).answer _ _ _

theorem of_reachable (hr : (dispatchSystem c false).Reachable (Steady c) s) : Faithful c s := by
  refine hr.induct (P := Faithful c) ?_ ?_
  · rintro s rfl
    exact init
  · rintro s a t h hok hs
    exact h.step hok hs

end Faithful

/-! ## Every run -/

/-- The stream that is open has received the request, and then what the client has sent. -/
theorem replays_faithfully (hr : (dispatchSystem c false).Reachable (Steady c) s) {k : Nat}
    (hk : s.forward = some k) (hb : s.broken k = false) :
    ∃ headers event, s.request = some (headers, event) ∧
      s.received k = .enqueue headers c.app event :: s.sent.map .message := by
  have h := Faithful.of_reachable hr
  cases hreq : s.request with
  | none =>
    rw [(h.fresh hreq).1] at hk
    cases hk
  | some r => exact ⟨r.1, r.2, rfl, h.received k r.1 r.2 hk hb hreq⟩

/-- A retry between the client's chunks, and one after its choke. -/
theorem replays_faithfully_twice :
    ∃ s, (dispatchSystem (.simple "app".toList ⟨1, .other 0⟩ ⟨2, .other 0⟩) false).Reachable
        (Steady (.simple "app".toList ⟨1, .other 0⟩ ⟨2, .other 0⟩)) s ∧
      s.forward = some 2 ∧ s.broken 2 = false ∧
      s.sent = [.chunk [] "a".toList, .chunk [] "b".toList, .choke []] ∧
      ∃ headers event, s.request = some (headers, event) ∧
        s.received 2 = .enqueue headers "app".toList event :: s.sent.map .message := by
  obtain ⟨s, hr, hk, hb, hs⟩ := (dispatchSystem (.simple "app".toList ⟨1, .other 0⟩ ⟨2, .other 0⟩)
      false).exists_reachable (Steady (.simple "app".toList ⟨1, .other 0⟩ ⟨2, .other 0⟩))
    (P := fun s => s.forward = some 2 ∧ s.broken 2 = false ∧
      s.sent = [.chunk [] "a".toList, .chunk [] "b".toList, .choke []])
    [.enqueue [] "ping".toList none {} false,
      .client (.chunk [] "a".toList) false .success false,
      .peer 0 (.error [] OverseerErrors.queueIsFull.code []) {} false false,
      .client (.chunk [] "b".toList) false .success false,
      .client (.choke []) false .success false,
      .peer 1 (.error [] NodeErrors.notRunning.code []) {} false false] rfl (by decide +kernel)
  exact ⟨s, hr, hk, hb, hs, replays_faithfully hr hk hb⟩

/-- The new stream does not receive the client's error; and when `choke_sent` happens to hold
`true`, it receives a choke that the client has not sent. -/
theorem replay_differs :
    (∃ s, (dispatchSystem (.simple "app".toList ⟨1, .other 0⟩ ⟨2, .other 0⟩) false).Reachable
        System.Any s ∧
      s.forward = some 1 ∧ s.broken 1 = false ∧
      s.sent = [.chunk [] "a".toList, .error [] ⟨3, .other 0⟩ "failed".toList] ∧
      s.received 1 = [.enqueue [] "app".toList "ping".toList, .message (.chunk [] "a".toList)]) ∧
    ∃ s, (dispatchSystem (.simple "app".toList ⟨1, .other 0⟩ ⟨2, .other 0⟩) true).Reachable
        System.Any s ∧
      s.forward = some 1 ∧ s.broken 1 = false ∧ s.sent = [] ∧
      s.received 1 = [.enqueue [] "app".toList "ping".toList, .message (.choke [])] := by
  constructor
  · exact System.exists_reachable _ System.Any
      [.enqueue [] "ping".toList none {} false,
        .client (.chunk [] "a".toList) false .success false,
        .client (.error [] ⟨3, .other 0⟩ "failed".toList) false .success false,
        .peer 0 (.error [] OverseerErrors.queueIsFull.code []) {} false false] rfl
      (by decide +kernel)
  · exact System.exists_reachable _ System.Any
      [.enqueue [] "ping".toList none {} false,
        .peer 0 (.error [] OverseerErrors.queueIsFull.code []) {} false false] rfl
      (by decide +kernel)

end Dispatch

end Cocaine.Vicodyn
