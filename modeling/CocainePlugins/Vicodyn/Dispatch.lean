import Mathlib.Logic.Function.Basic
import CocainePlugins.Framework.Text
import CocainePlugins.Framework.Transition
import CocainePlugins.Node.Error

/-!
# A proxied request

`vicodyn_dispatch_t` passes the client's messages to a stream of a peer, and the peer's
messages back. It keeps the request, and when a stream cannot be opened or a peer answers
with a recoverable error, it opens a stream to another peer and sends it what the client has
sent so far. The first chunk of a response ends that.

What the dispatch has is under the source's names; beside it the state records what the
client has sent and got, and what each stream has received. Streams are numbered in the order
in which they were opened.
-/

namespace Cocaine.Vicodyn

open Framework Node

/-! ## Messages -/

abbrev Headers := List (Str × Str)

/-- A message of a stream, in either direction. -/
inductive Message where
  | chunk (headers : Headers) (data : Str)
  | choke (headers : Headers)
  | error (headers : Headers) (ec : ErrorCode) (reason : Str)
deriving DecidableEq, Repr

/-- Nothing follows it. -/
def Message.terminal : Message → Bool
  | .chunk _ _ => false
  | .choke _ | .error _ _ _ => true

def Message.isError : Message → Bool
  | .error _ _ _ => true
  | .chunk _ _ | .choke _ => false

/-- What a peer receives on a stream. -/
inductive Frame where
  | enqueue (headers : Headers) (app event : Str)
  | message (m : Message)
deriving DecidableEq, Repr

/-- A `std::system_error`. -/
structure Thrown where
  code : ErrorCode := .success
  what : Str := []
deriving DecidableEq, Repr

/-- The proxy: its application, and its balancer. -/
structure Config where
  app : Str
  /-- `balancer_t::retry_count`. -/
  retryCount : Nat
  /-- `balancer_t::is_recoverable`. -/
  recoverable : ErrorCode → Bool
  /-- The code of an `error_t` that is made from a text alone. -/
  uncaught : ErrorCode
  /-- `dispatch_errors::not_connected`. -/
  notConnected : ErrorCode

/-- A proxy with the balancer `simple_t` and its default count of retries. -/
def Config.simple (app : Str) (uncaught notConnected : ErrorCode) : Config where
  app
  retryCount := 4
  recoverable ec :=
    ec == OverseerErrors.queueIsFull.code || ec == NodeErrors.notRunning.code || ec == notConnected
  uncaught
  notConnected

/-! ## The dispatch -/

structure Dispatch where
  /-- The stream of `forward_stream`, and whether it is closed. -/
  forward : Option Nat := none
  forwardClosed : Bool := false
  /-- `backward_stream` is closed. -/
  backwardClosed : Bool := false
  enqueueFrame : Str := []
  enqueueHeaders : Headers := []
  chunks : List Str := []
  chunkHeaders : List Headers := []
  /-- The constructor does not set it. -/
  chokeSent : Bool
  chokeHeaders : Headers := []
  bufferingEnabled : Bool := true
  /-- `request_context_t::retry_counter`. -/
  retryCounter : Nat := 0
  request : Option (Headers × Str) := none
  /-- What the client has sent after it. -/
  sent : List Message := []
  /-- The calls of `open_stream`, and the streams that they have opened. -/
  attempts : Nat := 0
  opened : Nat := 0
  received : Nat → List Frame := fun _ => []
  /-- The peer has sent its last message, or the stream was discarded. -/
  ended : Nat → Bool := fun _ => false
  /-- Sending on the stream throws. -/
  broken : Nat → Bool := fun _ => false
  /-- What the client has got and from which stream, newest first; the dispatch's own errors
  are from none. -/
  delivered : List (Option Nat × Message) := []

/-- What happens in a retry. -/
structure Fate where
  /-- What `choose_peer` and `open_stream` throw. -/
  choosing : Option Thrown := none
  opening : Option Thrown := none
  /-- The chunk at which the stream breaks, and whether it breaks at the choke. -/
  breakAt : Option Nat := none
  breakChoke : Bool := false
  fault : Thrown := {}
deriving DecidableEq, Repr

namespace Dispatch

variable (c : Config) (s : Dispatch)

/-- `safe_stream_t` of the forward stream, and whether it threw. -/
def send (m : Message) (breaks : Bool) : Dispatch × Bool :=
  match s.forward with
  | none => (s, false)
  | some k =>
    if s.forwardClosed then (s, false)
    else if s.broken k || breaks then ({ s with broken := Function.update s.broken k true }, true)
    else
      ({ s with
          received := Function.update s.received k (s.received k ++ [.message m])
          forwardClosed := m.terminal }, false)

/-- The messages one after the other, until one throws. -/
def sendAll : Dispatch → List Message → Option Nat → Dispatch × Bool
  | s, [], _ => (s, false)
  | s, m :: ms, breakAt =>
    let p := s.send m (breakAt == some 0)
    if p.2 then p else sendAll p.1 ms (breakAt.map (· - 1))

/-- `safe_stream_t` of the backward stream; `gone` says that the send throws. -/
def answer (origin : Option Nat) (m : Message) (gone : Bool) : Dispatch × Bool :=
  if s.backwardClosed then (s, false)
  else if gone then (s, true)
  else ({ s with delivered := (origin, m) :: s.delivered, backwardClosed := m.terminal }, false)

/-- A new stream in place of the forward stream. -/
def newStream : Dispatch :=
  { s with
    forward := some s.opened
    forwardClosed := false
    opened := s.opened + 1
    received := Function.update s.received s.opened
      [.enqueue s.enqueueHeaders c.app s.enqueueFrame] }

/-- The end of `retry_unsafe`. -/
def replay (fate : Fate) : Dispatch × Option Thrown :=
  let p := s.sendAll (List.zipWith .chunk s.chunkHeaders s.chunks) fate.breakAt
  if p.2 then (p.1, some fate.fault)
  else if s.chokeSent then
    let q := p.1.send (.choke s.chokeHeaders) fate.breakChoke
    (q.1, if q.2 then some fate.fault else none)
  else (p.1, none)

def retryUnsafe (fate : Fate) : Dispatch × Option Thrown :=
  let s₁ := { s with retryCounter := s.retryCounter + 1 }
  if !s.bufferingEnabled then
    (s₁, some ⟨c.uncaught, "buffering is already disabled - response chunk was sent".toList⟩)
  else if s₁.retryCounter > c.retryCount then
    (s₁, some ⟨c.uncaught, "maximum number of retries reached".toList⟩)
  else
    match fate.choosing with
    | some x => (s₁, some x)
    | none =>
      let s₂ := { s₁ with attempts := s₁.attempts + 1 }
      match fate.opening with
      | some x => (s₂, some x)
      | none => (s₂.newStream c).replay fate

/-- `enqueue_unsafe`; `opening` is what the first `open_stream` throws. -/
def enqueueUnsafe (headers : Headers) (event : Str) (opening : Option Thrown) (fate : Fate)
    (gone : Bool) : Dispatch :=
  let s₁ := { s with
    enqueueFrame := event, enqueueHeaders := headers, request := some (headers, event)
    attempts := s.attempts + 1 }
  match opening with
  | none => s₁.newStream c
  | some _ =>
    let p := s₁.retryUnsafe c fate
    match p.2 with
    | none => p.1
    | some x => (p.1.answer none (.error [] x.code "failed to retry enqueue".toList) gone).1

/-- What the handlers of the client's messages keep. -/
def keep : Message → Dispatch
  | .chunk headers data =>
    { s with chunks := s.chunks ++ [data], chunkHeaders := s.chunkHeaders ++ [headers] }
  | .choke headers => { s with chokeSent := true, chokeHeaders := headers }
  | .error _ _ _ => s

/-- `on_forward_chunk`, `on_forward_choke` and `on_forward_error` behind the middlewares;
`ec` is the code of what a send throws. -/
def onForward (m : Message) (breaks : Bool) (ec : ErrorCode) (gone : Bool) : Dispatch :=
  if s.forward.isNone then s
  else
    let p := (s.keep m).send m breaks
    if p.2 then
      (p.1.answer none (.error [] ec "failed to send error to forward dispatch".toList) gone).1
    else p.1

def onClientDisconnection (breaks : Bool) : Dispatch :=
  (s.send (.error [] c.notConnected "vicodyn client was disconnected".toList) breaks).1

def disableBuffering : Dispatch :=
  { s with
    bufferingEnabled := false
    enqueueFrame := []
    enqueueHeaders := []
    chunkHeaders := []
    chunks := [] }

/-- A message goes back, and a client that is gone is a disconnection. -/
def relay (k : Nat) (m : Message) (gone breaks : Bool) : Dispatch :=
  let p := s.answer (some k) m gone
  if p.2 then p.1.onClientDisconnection c breaks else p.1

/-- `on_backward_chunk`, `on_backward_error` and `on_backward_choke`. -/
def onBackward (k : Nat) (m : Message) (fate : Fate) (gone breaks : Bool) : Dispatch :=
  match m with
  | .chunk _ _ => s.disableBuffering.relay c k m gone breaks
  | .choke _ => s.relay c k m gone breaks
  | .error _ ec _ =>
    if c.recoverable ec then
      let p := s.retryUnsafe c fate
      match p.2 with
      | none => p.1
      | some x => (p.1.answer none (.error [] x.code x.what) gone).1
    else s.relay c k m gone breaks

inductive Label where
  | enqueue (headers : Headers) (event : Str) (opening : Option Thrown) (fate : Fate) (gone : Bool)
  | client (m : Message) (breaks : Bool) (ec : ErrorCode) (gone : Bool)
  /-- The client's side of the dispatch is discarded. -/
  | disconnect (breaks : Bool)
  | peer (k : Nat) (m : Message) (fate : Fate) (gone breaks : Bool)
  /-- The session of the stream is lost. -/
  | discard (k : Nat) (ec : ErrorCode) (gone : Bool)
deriving DecidableEq, Repr

/-- The stream is open at the peer's side. -/
def live (k : Nat) : Bool := decide (k < s.opened) && !s.ended k

/-- The client sends nothing after a choke or an error, and a peer nothing after its own. -/
def step : Label → Option Dispatch
  | .enqueue headers event opening fate gone =>
    if s.request.isNone then some (s.enqueueUnsafe c headers event opening fate gone) else none
  | .client m breaks ec gone =>
    if s.request.isSome && s.sent.all fun m => !m.terminal then
      some ({ s with sent := s.sent ++ [m] }.onForward m breaks ec gone)
    else none
  | .disconnect breaks => if s.request.isSome then some (s.onClientDisconnection c breaks) else none
  | .peer k m fate gone breaks =>
    if s.live k then
      some ({ s with ended := Function.update s.ended k m.terminal }.onBackward c k m fate gone breaks)
    else none
  | .discard k ec gone =>
    if s.live k then
      some ({ s with ended := Function.update s.ended k true }.answer none
        (.error [] ec "vicodyn upstream has been disconnected".toList) gone).1
    else none

end Dispatch

/-- One request; `garbage` is what `choke_sent` holds at first. -/
def dispatchSystem (c : Config) (garbage : Bool) : System Dispatch Dispatch.Label where
  init s := s = { chokeSent := garbage }
  step := Dispatch.step c

/-! ## What the operations do -/

namespace Dispatch

variable {c : Config} {s t u : Dispatch}

/-- Only the forward stream is changed: what streams received, and whether one is closed or
broken. -/
def Sends (s t : Dispatch) : Prop :=
  ∃ received closed broken,
    t = { s with received := received, forwardClosed := closed, broken := broken }

theorem Sends.refl : Sends s s := ⟨_, _, _, rfl⟩

theorem Sends.trans (h₁ : Sends s t) (h₂ : Sends t u) : Sends s u := by
  obtain ⟨_, _, _, rfl⟩ := h₁
  obtain ⟨received, closed, broken, rfl⟩ := h₂
  exact ⟨received, closed, broken, rfl⟩

theorem send_sends (m : Message) (breaks : Bool) : Sends s (s.send m breaks).1 := by
  simp only [send]
  split
  · exact .refl
  · split
    · exact .refl
    · split
      · exact ⟨_, _, _, rfl⟩
      · exact ⟨_, _, _, rfl⟩

theorem sendAll_sends (ms : List Message) (breakAt : Option Nat) :
    Sends s (s.sendAll ms breakAt).1 := by
  induction ms generalizing s breakAt with
  | nil => exact .refl
  | cons m ms ih =>
    simp only [sendAll]
    split
    · exact send_sends m _
    · exact (send_sends m _).trans (ih _)

theorem replay_sends (fate : Fate) : Sends s (s.replay fate).1 := by
  simp only [replay]
  split
  · exact sendAll_sends _ _
  · split
    · exact (sendAll_sends _ _).trans (send_sends _ _)
    · exact sendAll_sends _ _

theorem onClientDisconnection_sends (breaks : Bool) : Sends s (s.onClientDisconnection c breaks) :=
  send_sends _ _

theorem answer_cases (origin : Option Nat) (m : Message) (gone : Bool) :
    (s.answer origin m gone).1 = s ∨
      (s.answer origin m gone).1 =
        { s with delivered := (origin, m) :: s.delivered, backwardClosed := m.terminal } := by
  simp only [answer]
  split
  · exact .inl rfl
  · split
    · exact .inl rfl
    · exact .inr rfl

/-- `retry_unsafe` throws before it opens a stream, or the stream does not open, or the request
is replayed on a new one. -/
inductive Retried (c : Config) (s : Dispatch) (fate : Fate) : Dispatch × Option Thrown → Prop where
  | refused (x : Thrown) : Retried c s fate ({ s with retryCounter := s.retryCounter + 1 }, some x)
  | unopened (x : Thrown) (buffering : s.bufferingEnabled = true)
      (counted : s.retryCounter + 1 ≤ c.retryCount) :
      Retried c s fate
        ({ s with retryCounter := s.retryCounter + 1, attempts := s.attempts + 1 }, some x)
  | opened (buffering : s.bufferingEnabled = true) (counted : s.retryCounter + 1 ≤ c.retryCount) :
      Retried c s fate
        ((newStream c { s with
          retryCounter := s.retryCounter + 1, attempts := s.attempts + 1 }).replay fate)

theorem retried (fate : Fate) : Retried c s fate (s.retryUnsafe c fate) := by
  simp only [retryUnsafe]
  split
  · exact .refused _
  · rename_i hb
    have hb : s.bufferingEnabled = true := by simpa using hb
    split
    · exact .refused _
    · rename_i hn
      have hn : s.retryCounter + 1 ≤ c.retryCount := by omega
      split
      · exact .refused _
      · split
        · exact .unopened _ hb hn
        · exact .opened hb hn

theorem live_iff {k : Nat} : s.live k = true ↔ k < s.opened ∧ s.ended k = false := by
  simp [live]

inductive Stepped (c : Config) (s : Dispatch) : Label → Dispatch → Prop where
  | enqueue {headers : Headers} {event : Str} {opening : Option Thrown} {fate : Fate} {gone : Bool}
      (unasked : s.request = none) :
      Stepped c s (.enqueue headers event opening fate gone)
        (s.enqueueUnsafe c headers event opening fate gone)
  | client {m : Message} {breaks : Bool} {ec : ErrorCode} {gone : Bool}
      (asked : s.request ≠ none) (going : ∀ x ∈ s.sent, x.terminal = false) :
      Stepped c s (.client m breaks ec gone)
        (onForward { s with sent := s.sent ++ [m] } m breaks ec gone)
  | disconnect {breaks : Bool} (asked : s.request ≠ none) :
      Stepped c s (.disconnect breaks) (s.onClientDisconnection c breaks)
  | peer {k : Nat} {m : Message} {fate : Fate} {gone breaks : Bool} (hk : s.live k = true) :
      Stepped c s (.peer k m fate gone breaks)
        (onBackward c { s with ended := Function.update s.ended k m.terminal } k m fate gone breaks)
  | discard {k : Nat} {ec : ErrorCode} {gone : Bool} (hk : s.live k = true) :
      Stepped c s (.discard k ec gone)
        (answer { s with ended := Function.update s.ended k true } none
          (.error [] ec "vicodyn upstream has been disconnected".toList) gone).1

theorem stepped {a : Label} (h : s.step c a = some t) : Stepped c s a t := by
  cases a with
  | enqueue headers event opening fate gone =>
    obtain ⟨hr, rfl⟩ := of_guard h
    exact .enqueue (Option.isNone_iff_eq_none.mp hr)
  | client m breaks ec gone =>
    obtain ⟨hc, rfl⟩ := of_guard h
    obtain ⟨hr, hgoing⟩ : s.request.isSome = true ∧ ∀ x ∈ s.sent, x.terminal = false := by
      simpa using hc
    exact .client (Option.isSome_iff_ne_none.mp hr) hgoing
  | disconnect breaks =>
    obtain ⟨hr, rfl⟩ := of_guard h
    exact .disconnect (Option.isSome_iff_ne_none.mp hr)
  | peer k m fate gone breaks =>
    obtain ⟨hk, rfl⟩ := of_guard h
    exact .peer hk
  | discard k ec gone =>
    obtain ⟨hk, rfl⟩ := of_guard h
    exact .discard hk

end Dispatch

end Cocaine.Vicodyn
