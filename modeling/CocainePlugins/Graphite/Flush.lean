import CocainePlugins.Framework.Text
import CocainePlugins.Framework.Timer
import CocainePlugins.Framework.Transition

/-!
# The buffer of Graphite and its senders

`graphite_t` puts the metrics it accepts into a buffer. A timer, and a buffer that is too long,
have the buffer swapped out into a sender of its own. The sender connects, sends the lines of its
metrics in one `async_send` and reports how that ended.

A metric that was accepted is in the buffer or in one sender, whatever happens. The sender does
not look at how much of its lines was transmitted, so its success says that they all were only if
`async_send` never stops short.
-/

namespace Cocaine.Graphite

open Framework

/-- A `metric_t`; the value is the bits of a double. -/
structure Metric where
  name : Str
  value : UInt64
  ts : Int
deriving DecidableEq, Repr

structure Config where
  namePrefix : Str
  maxQueueSize : Nat
  /-- `std::to_string` of a double. -/
  showValue : UInt64 → Str

def Metric.format (m : Metric) (c : Config) : Str :=
  let start :=
    if !c.namePrefix.isEmpty && c.namePrefix.getLast? != some '.' then c.namePrefix ++ ['.']
    else c.namePrefix
  start ++ m.name ++ [' '] ++ c.showValue m.value ++ [' '] ++ (Int.repr m.ts).toList ++ ['\n']

/-! ## A sender -/

inductive Phase where
  | connecting
  | sending
  /-- The sender has reported that the metrics were not sent, or that they were. -/
  | failed
  | succeeded
deriving DecidableEq, Repr

structure Sender where
  buffer : List Metric
  sBuffer : Str := []
  phase : Phase := .connecting
  transmitted : Str := []
  /-- What the sender has logged last. -/
  report : Str := []
deriving DecidableEq, Repr

namespace Sender

variable (c : Config) (x : Sender)

/-- The lines of its metrics, one after the other. -/
def lines : Str := x.buffer.flatMap fun m => m.format c

def notSent (why message : Str) : Str :=
  "Could not send ".toList ++ (Nat.repr x.buffer.length).toList ++
    " metrics to graphite. Could not ".toList ++ why ++ ": ".toList ++ message

/-- `on_connect`; `ec` is the message of the error. -/
def onConnect (ec : Option Str) : Sender :=
  match ec with
  | some message => { x with phase := .failed, report := x.notSent "open socket".toList message }
  | none =>
    { x with
      phase := .sending
      sBuffer := x.buffer.foldl (fun text m => text ++ m.format c) x.sBuffer
      report := "Opened socket to send metrics to graphite".toList }

/-- The socket has transmitted the first `n` bytes and calls `on_send`. -/
def onSend (ec : Option Str) (n : Nat) : Sender :=
  let x := { x with transmitted := x.sBuffer.take n }
  match ec with
  | some message => { x with phase := .failed, report := x.notSent "send".toList message }
  | none =>
    { x with
      phase := .succeeded
      report := "Successfully sent ".toList ++ (Nat.repr x.buffer.length).toList ++
        " metrics".toList }

end Sender

/-! ## The service -/

structure Service where
  buffer : List Metric := []
  timer : Timer := {}
  /-- The calls that have found the buffer too long and have not come to `send` yet. -/
  due : Nat := 0
  senders : List Sender := []
  /-- All the metrics that were accepted, oldest first. -/
  accepted : List Metric := []
deriving DecidableEq, Repr

namespace Service

variable (c : Config) (s : Service)

def resetTimer : Service := { s with timer := s.timer.start }

/-- `on_send_one` and `on_send_bulk`, up to the call of `send`. -/
def onSendBulk (metrics : List Metric) : Service :=
  let buffer := s.buffer ++ metrics
  { s with
    buffer := buffer
    accepted := s.accepted ++ metrics
    due := if buffer.length > c.maxQueueSize then s.due + 1 else s.due }

def onSendOne (metric : Metric) : Service := s.onSendBulk c [metric]

def send : Service :=
  let s₁ :=
    if s.buffer.isEmpty then s
    else { s with buffer := [], senders := s.senders ++ [{ buffer := s.buffer }] }
  s₁.resetTimer

inductive Label where
  | sendOne (metric : Metric)
  | sendBulk (metrics : List Metric)
  /-- A call that has found the buffer too long comes to `send`. -/
  | flush
  /-- The wait of the timer expires, and `send_by_timer` runs without an error. -/
  | expire
  | sendByTimer
  | connected (k : Nat) (ec : Option Str)
  /-- `async_send` ends; it has transmitted `n` bytes. -/
  | sent (k : Nat) (ec : Option Str) (n : Nat)
deriving DecidableEq, Repr

/-- The sender `k` goes on, if it is in the phase. -/
def advance (k : Nat) (phase : Phase) (f : Sender → Sender) : Option Service :=
  match s.senders[k]? with
  | some x => if x.phase = phase then some { s with senders := s.senders.set k (f x) } else none
  | none => none

def step : Label → Option Service
  | .sendOne metric => some (s.onSendOne c metric)
  | .sendBulk metrics => some (s.onSendBulk c metrics)
  | .flush => if 0 < s.due then some { s with due := s.due - 1 }.send else none
  | .expire => if s.timer.armed then some { s with timer := s.timer.expire } else none
  | .sendByTimer =>
    if 0 < s.timer.fired then some { s with timer := s.timer.complete }.send else none
  | .connected k ec => s.advance k .connecting fun x => x.onConnect c ec
  | .sent k ec n => s.advance k .sending fun x => x.onSend ec n

/-- A send that ends without an error has transmitted everything. -/
def Whole : Label → Prop
  | .sent k none n => ∀ x ∈ s.senders[k]?, n = x.sBuffer.length
  | .sent _ (some _) _ | .sendOne _ | .sendBulk _ | .flush | .expire | .sendByTimer
  | .connected _ _ => True

instance (a : Label) : Decidable (s.Whole a) := by
  unfold Whole
  split <;> infer_instance

end Service

def graphiteSystem (c : Config) : System Service Service.Label where
  init s := s = ({} : Service).resetTimer
  step := Service.step c

/-! ## Where the metrics are -/

namespace Service

variable {c : Config} {s t : Service}

/-- The metrics of the senders, oldest first, and of the buffer. -/
def held (s : Service) : List Metric := s.senders.flatMap Sender.buffer ++ s.buffer

theorem advance_cases {k : Nat} {phase : Phase} {f : Sender → Sender}
    (hs : s.advance k phase f = some t) : ∃ x, s.senders[k]? = some x ∧ x.phase = phase ∧
      t = { s with senders := s.senders.set k (f x) } := by
  unfold advance at hs
  split at hs
  · rename_i x hx
    simp only [Option.ite_none_right_eq_some, Option.some.injEq] at hs
    exact ⟨x, hx, hs.1, hs.2.symm⟩
  · cases hs

@[simp] theorem held_resetTimer : s.resetTimer.held = s.held := rfl

theorem held_send : s.send.held = s.held := by
  unfold send
  rw [held_resetTimer]
  split
  · rfl
  · simp [held, List.flatMap_append]

@[simp] theorem accepted_send : s.send.accepted = s.accepted := by
  unfold send
  split <;> rfl

theorem held_set {k : Nat} {x y : Sender} (hx : s.senders[k]? = some x) (hb : y.buffer = x.buffer) :
    ({ s with senders := s.senders.set k y } : Service).held = s.held := by
  obtain ⟨hk, hget⟩ := List.getElem?_eq_some_iff.mp hx
  have hself : s.senders.set k x = s.senders := by rw [← hget, List.set_getElem_self]
  have hmap : (s.senders.set k y).map Sender.buffer = s.senders.map Sender.buffer := by
    rw [List.map_set, hb, ← List.map_set, hself]
  simp only [held, List.flatMap_def, hmap]

theorem buffer_onConnect (x : Sender) (ec : Option Str) : (x.onConnect c ec).buffer = x.buffer := by
  cases ec with
  | none | some message => rfl

theorem buffer_onSend (x : Sender) (ec : Option Str) (n : Nat) : (x.onSend ec n).buffer = x.buffer := by
  cases ec with
  | none | some message => rfl

theorem accepted_step {a : Label} (h : s.accepted = s.held) (hs : s.step c a = some t) :
    t.accepted = t.held := by
  cases a with
  | sendOne metric | sendBulk metrics =>
    cases hs
    simp [onSendOne, onSendBulk, h, held]
  | flush | sendByTimer =>
    obtain ⟨-, rfl⟩ := of_guard hs
    rw [accepted_send, held_send]
    exact h
  | expire =>
    obtain ⟨-, rfl⟩ := of_guard hs
    exact h
  | connected k ec =>
    obtain ⟨x, hx, -, rfl⟩ := advance_cases hs
    rw [held_set hx (buffer_onConnect x ec)]
    exact h
  | sent k ec n =>
    obtain ⟨x, hx, -, rfl⟩ := advance_cases hs
    rw [held_set hx (buffer_onSend x ec n)]
    exact h

theorem accepted_eq_held (hr : (graphiteSystem c).Reachable System.Any s) : s.accepted = s.held := by
  refine hr.induct (P := fun s => s.accepted = s.held) ?_ fun h _ hs => accepted_step h hs
  rintro s rfl
  rfl

end Service

/-! ## What a success says -/

/-- The text of a sender is made when it is connected, and a success is about all of it. -/
structure Sender.Sound (c : Config) (x : Sender) : Prop where
  unmade : x.phase = .connecting → x.sBuffer = []
  made : x.phase = .sending → x.sBuffer = x.lines c
  whole : x.phase = .succeeded → x.transmitted = x.lines c

namespace Sender.Sound

variable {c : Config} {x : Sender}

theorem init (buffer : List Metric) : Sound c { buffer := buffer } :=
  ⟨fun _ => rfl, nofun, nofun⟩

theorem onConnect (h : Sound c x) (hx : x.phase = .connecting) (ec : Option Str) :
    Sound c (x.onConnect c ec) := by
  cases ec with
  | some message => exact ⟨nofun, nofun, nofun⟩
  | none =>
    refine ⟨nofun, fun _ => ?_, nofun⟩
    rw [Sender.onConnect, h.unmade hx, List.foldl_append_eq_append, List.nil_append,
      ← List.flatMap_def]
    rfl

theorem onSend (h : Sound c x) (hx : x.phase = .sending) {ec : Option Str} {n : Nat}
    (hn : ec = none → n = x.sBuffer.length) : Sound c (x.onSend ec n) := by
  cases ec with
  | some message => exact ⟨nofun, nofun, nofun⟩
  | none =>
    refine ⟨nofun, nofun, fun _ => ?_⟩
    rw [Sender.onSend, hn rfl, List.take_length]
    exact h.made hx

end Sender.Sound

namespace Service

variable {c : Config} {s t : Service}

theorem sound_send (h : ∀ x ∈ s.senders, x.Sound c) : ∀ x ∈ s.send.senders, x.Sound c := by
  unfold send
  split
  · exact h
  · intro x hx
    rcases List.mem_append.mp hx with hx | hx
    · exact h x hx
    · rw [List.mem_singleton.mp hx]
      exact .init s.buffer

theorem sound_set {k : Nat} {y : Sender} (h : ∀ x ∈ s.senders, x.Sound c) (hy : y.Sound c) :
    ∀ x ∈ s.senders.set k y, x.Sound c := by
  intro x hx
  rcases List.mem_or_eq_of_mem_set hx with hx | rfl
  · exact h x hx
  · exact hy

theorem sound_step {a : Label} (h : ∀ x ∈ s.senders, x.Sound c) (hok : s.Whole a)
    (hs : s.step c a = some t) : ∀ x ∈ t.senders, x.Sound c := by
  cases a with
  | sendOne metric | sendBulk metrics =>
    cases hs
    exact h
  | flush | sendByTimer =>
    obtain ⟨-, rfl⟩ := of_guard hs
    exact sound_send h
  | expire =>
    obtain ⟨-, rfl⟩ := of_guard hs
    exact h
  | connected k ec =>
    obtain ⟨x, hx, hphase, rfl⟩ := advance_cases hs
    exact sound_set h ((h x (List.mem_of_getElem? hx)).onConnect hphase ec)
  | sent k ec n =>
    obtain ⟨x, hx, hphase, rfl⟩ := advance_cases hs
    refine sound_set h ((h x (List.mem_of_getElem? hx)).onSend hphase ?_)
    rintro rfl
    exact hok x hx

theorem sound_of_reachable (hr : (graphiteSystem c).Reachable Whole s) :
    ∀ x ∈ s.senders, x.Sound c := by
  refine hr.induct (P := fun s => ∀ x ∈ s.senders, x.Sound c) ?_ fun h hok hs => sound_step h hok hs
  rintro s rfl x hx
  cases hx

/-- The metrics that were accepted are those of the senders and of the buffer, each in one place;
and when no send stops short, a sender that reports success has transmitted all its lines. -/
theorem metrics_sent_whole :
    (∀ s, (graphiteSystem c).Reachable System.Any s → s.accepted = s.held) ∧
    ∀ s, (graphiteSystem c).Reachable Whole s →
      ∀ x ∈ s.senders, x.phase = .succeeded → x.transmitted = x.lines c :=
  ⟨fun _ hr => accepted_eq_held hr, fun _ hr x hx => (sound_of_reachable hr x hx).whole⟩

end Service

/-- A service that sends as soon as it has a metric. -/
def eager : Config where
  namePrefix := "cocaine".toList
  maxQueueSize := 0
  showValue _ := "1.000000".toList

namespace Service

def queueLength : Metric := ⟨"queue".toList, 0x3FF0000000000000, 1500000000⟩

/-- Two metrics, of which the first was sent and the second has just come. -/
theorem metrics_sent_whole_once : ∃ s, (graphiteSystem eager).Reachable Whole s ∧
    s.accepted = s.held ∧ s.accepted = [queueLength, queueLength] ∧
    ∃ x ∈ s.senders, x.phase = .succeeded ∧
      x.transmitted = "cocaine.queue 1.000000 1500000000\n".toList := by
  obtain ⟨s, hr, hs, x, hx, hphase, hlines⟩ := (graphiteSystem eager).exists_reachable Whole
    (s := ({} : Service).resetTimer)
    (P := fun s => s.accepted = [queueLength, queueLength] ∧ ∃ x ∈ s.senders, x.phase = .succeeded ∧
      x.lines eager = "cocaine.queue 1.000000 1500000000\n".toList)
    [.sendOne queueLength, .flush, .connected 0 none, .sent 0 none 34, .sendOne queueLength] rfl
    (by decide +kernel)
  exact ⟨s, hr, metrics_sent_whole.1 s hr.any, hs, x, hx, hphase,
    (metrics_sent_whole.2 s hr x hx hphase).trans hlines⟩

/-- The socket has taken the first bytes of the line, and the sender reports success. -/
theorem success_of_partial_send : ∃ s, (graphiteSystem eager).Reachable System.Any s ∧
    ∃ x ∈ s.senders, x.phase = .succeeded ∧ x.report = "Successfully sent 1 metrics".toList ∧
      x.transmitted = "cocaine".toList ∧
      x.lines eager = "cocaine.queue 1.000000 1500000000\n".toList :=
  (graphiteSystem eager).exists_reachable System.Any (s := ({} : Service).resetTimer)
    [.sendOne queueLength, .flush, .connected 0 none, .sent 0 none 7] rfl (by decide +kernel)

end Service
end Cocaine.Graphite
