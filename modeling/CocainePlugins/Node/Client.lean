import Mathlib.Data.List.Basic
import CocainePlugins.Node.Error

/-!
# The client's side of a channel

`client_rpc_dispatch_t` forwards what a client sends to its worker. It is attached
to the worker at most once, with a callback for the close of the client's side,
and the side may close before that. `discard` keeps the client's code even when the
side is closed already, and `attach` passes on the code that it finds then.
`closes_once_iff` says for which sequences of events the callback hears how the side
was closed first.
-/

namespace Cocaine.Node.Client

inductive State where
  | opened | bound | closed
deriving DecidableEq, Repr

structure Dispatch where
  state : State := .opened
  /-- The code of the closed state. -/
  ec : ErrorCode := .success
  /-- The codes that the close callback was invoked with, the latest first. -/
  calls : List ErrorCode := []
deriving DecidableEq, Repr

namespace Dispatch

variable (d : Dispatch)

def finalize : Dispatch :=
  match d.state with
  | .opened => { d with state := .closed }
  | .bound => { d with state := .closed, calls := d.ec :: d.calls }
  | .closed => d

/-- `flushed` says that the worker's stream took what was collected for it; otherwise
the call throws before anything else. -/
def attach (flushed : Bool) : Dispatch :=
  if flushed then
    match d.state with
    | .opened => { d with state := .bound }
    | .closed => { d with calls := d.ec :: d.calls }
    -- asserted not to happen
    | .bound => d
  else d

/-- What the stream makes of the abort is eaten. -/
def discard (ec : ErrorCode) : Dispatch :=
  if ec.failed then { d with ec := ec }.finalize else d

/-- `close` and `abort` throw if the stream does. -/
def close (forwarded : Bool) : Dispatch := if forwarded then d.finalize else d

def abort (forwarded : Bool) : Dispatch := if forwarded then d.finalize else d

end Dispatch

/-! ## Events -/

/-- `forwarded` says that the stream did not throw. -/
inductive Event where
  | attach (flushed : Bool)
  | chunk (forwarded : Bool)
  | choke (forwarded : Bool)
  | error (forwarded : Bool)
  | discard (ec : ErrorCode)
deriving DecidableEq, Repr

namespace Event

def attaches : Event → Bool
  | .attach flushed => flushed
  | _ => false

/-- The client has gone without closing its side. -/
def disconnects : Event → Bool
  | .discard ec => ec.failed
  | _ => false

/-- The event closes the client's side. -/
def closing : Event → Bool
  | .choke forwarded | .error forwarded => forwarded
  | .discard ec => ec.failed
  | _ => false

theorem disconnects_of_not_closing {e : Event} (h : e.closing = false) :
    e.disconnects = false := by
  cases e with
  | discard ec => exact h
  | _ => rfl

theorem eq_attach {e : Event} (h : e.attaches = true) : e = .attach true := by
  cases e with
  | attach flushed => exact congrArg attach h
  | _ => cases h

end Event

namespace Dispatch

def step (d : Dispatch) : Event → Dispatch
  | .attach flushed => d.attach flushed
  | .chunk _ => d
  | .choke forwarded => d.close forwarded
  | .error forwarded => d.abort forwarded
  | .discard ec => d.discard ec

def run (d : Dispatch) (events : List Event) : Dispatch := events.foldl step d

theorem run_append (d : Dispatch) (l₁ l₂ : List Event) : d.run (l₁ ++ l₂) = (d.run l₁).run l₂ :=
  List.foldl_append

/-! ## The events other than the attach -/

section Unattached

variable {e : Event}

theorem finalize_state (d : Dispatch) : d.finalize.state = .closed := by
  unfold finalize
  split <;> first | rfl | assumption

theorem finalize_ec (d : Dispatch) : d.finalize.ec = d.ec := by
  unfold finalize
  split <;> rfl

theorem finalize_calls (d : Dispatch) :
    d.finalize.calls = if d.state = .bound then d.ec :: d.calls else d.calls := by
  unfold finalize
  split <;> simp [*]

/-- What a step does: it finalizes if the event is closing, with a code that is an error
if the client has gone now or before. -/
structure Advanced (d : Dispatch) (e : Event) (d' : Dispatch) : Prop where
  state : d'.state = if e.closing then .closed else d.state
  failed : d'.ec.failed = (d.ec.failed || e.disconnects)
  calls : d'.calls = if e.closing ∧ d.state = .bound then d'.ec :: d.calls else d.calls

theorem Advanced.quiet (d : Dispatch) (hc : e.closing = false) : Advanced d e d :=
  ⟨by simp [hc], by simp [Event.disconnects_of_not_closing hc], by simp [hc]⟩

theorem Advanced.finalize (d : Dispatch) {ec : ErrorCode} (hc : e.closing = true)
    (hec : ec.failed = (d.ec.failed || e.disconnects)) :
    Advanced d e { d with ec := ec }.finalize :=
  ⟨by simp [finalize_state, hc], by rw [finalize_ec, hec], by simp [finalize_calls, finalize_ec, hc]⟩

theorem advanced (d : Dispatch) (h : e.attaches = false) : Advanced d e (d.step e) := by
  cases e with
  | attach flushed =>
    cases h
    exact .quiet d rfl
  | chunk => exact .quiet d rfl
  | choke forwarded | error forwarded =>
    cases forwarded with
    | false => exact .quiet d rfl
    | true => exact .finalize d rfl (by simp [Event.disconnects])
  | discard ec =>
    cases hec : ec.failed with
    | false =>
      rw [step, discard, hec]
      exact .quiet d hec
    | true =>
      rw [step, discard, hec]
      exact .finalize d hec (by simp [Event.disconnects, hec])

end Unattached

variable {d : Dispatch} {events : List Event}

/-- A run without an attach, from any state. -/
structure Ran (d : Dispatch) (events : List Event) (d' : Dispatch) : Prop where
  state : d'.state = if events.any Event.closing then .closed else d.state
  failed : d'.ec.failed = (d.ec.failed || events.any Event.disconnects)
  silent : d.state ≠ .bound ∨ events.find? Event.closing = none → d'.calls = d.calls
  calls : d.state = .bound → ∀ c, events.find? Event.closing = some c →
    ∃ code, d'.calls = code :: d.calls ∧ code.failed = (d.ec.failed || c.disconnects)

theorem Advanced.ran {e : Event} {d₁ d' : Dispatch} (hstep : Advanced d e d₁)
    (hrest : Ran d₁ events d') : Ran d (e :: events) d' := by
  have hfailed : d'.ec.failed = (d.ec.failed || (e :: events).any Event.disconnects) := by
    rw [hrest.failed, hstep.failed, List.any_cons, Bool.or_assoc]
  cases hc : e.closing with
  | false =>
    have hstate : d₁.state = d.state := by simp [hstep.state, hc]
    have hcalls : d₁.calls = d.calls := by simp [hstep.calls, hc]
    have hd : e.disconnects = false := Event.disconnects_of_not_closing hc
    have hfind : (e :: events).find? Event.closing = events.find? Event.closing := by simp [hc]
    refine ⟨by simp [hrest.state, hstate, hc], hfailed, fun h => ?_, fun hb c hfound => ?_⟩
    · rw [hfind, ← hstate] at h
      rw [hrest.silent h, hcalls]
    · obtain ⟨code, hcode, hec⟩ := hrest.calls (hstate.trans hb) c (hfind ▸ hfound)
      rw [hstep.failed, hd, Bool.or_false] at hec
      exact ⟨code, hcode.trans (congrArg _ hcalls), hec⟩
  | true =>
    have hstate : d₁.state = .closed := by simp [hstep.state, hc]
    have hcalls := hrest.silent (.inl (by simp [hstate]))
    refine ⟨by simp [hrest.state, hstate, hc], hfailed, fun h => ?_, fun hb c hfound => ?_⟩
    · rw [List.find?_cons_of_pos hc] at h
      simp [hcalls, hstep.calls, h.resolve_right nofun]
    · cases (List.find?_cons_of_pos hc).symm.trans hfound
      exact ⟨d₁.ec, by simp [hcalls, hstep.calls, hc, hb], hstep.failed⟩

theorem ran (d : Dispatch) (h : events.any Event.attaches = false) : Ran d events (d.run events) := by
  induction events generalizing d with
  | nil => exact ⟨rfl, (Bool.or_false _).symm, fun _ => rfl, fun _ _ h => nomatch h⟩
  | cons e events ih =>
    obtain ⟨he, h⟩ := Bool.or_eq_false_iff.mp (List.any_cons.symm.trans h)
    exact (advanced d he).ran (ih (d.step e) h)

/-! ## Whole sequences -/

/-- The side was closed in another way first, and then the client has gone. -/
def Spoiled (before : List Event) : Prop :=
  (∃ c, before.find? Event.closing = some c ∧ c.disconnects = false) ∧
    before.any Event.disconnects = true

section Attached

variable {before after : List Event}

theorem unattached (h : (before ++ .attach true :: after).countP Event.attaches ≤ 1) :
    before.any Event.attaches = false ∧ after.any Event.attaches = false := by
  have hone : Event.attaches (.attach true) = true := rfl
  rw [List.countP_append, List.countP_cons_of_pos hone] at h
  have hb : before.countP Event.attaches = 0 := by omega
  have ha : after.countP Event.attaches = 0 := by omega
  rw [List.countP_eq_zero] at hb ha
  exact ⟨List.any_eq_false.mpr hb, List.any_eq_false.mpr ha⟩

theorem takeWhile_unattached (after : List Event) (h : before.any Event.attaches = false) :
    (before ++ .attach true :: after).takeWhile (fun e => !e.attaches) = before := by
  rw [List.takeWhile_append_of_pos fun e he => by simpa using List.any_eq_false.mp h e he]
  simp [Event.attaches]

/-- Closed before the attach: the callback gets the code that is there then. -/
theorem calls_of_closed (hb : before.any Event.attaches = false)
    (ha : after.any Event.attaches = false) {c : Event}
    (hc : before.find? Event.closing = some c) :
    ∃ code, (run {} (before ++ .attach true :: after)).calls = [code] ∧
      code.failed = before.any Event.disconnects := by
  have hran := ran {} hb
  have hany : before.any Event.closing = true :=
    List.any_eq_true.mpr ⟨c, List.mem_of_find?_eq_some hc, List.find?_some hc⟩
  have hstate : (run {} before).state = .closed := by simp [hran.state, hany]
  have hcalls : (run {} before).calls = [] := hran.silent (.inl nofun)
  have hattach : (run {} before).attach true =
      { run {} before with calls := [(run {} before).ec] } := by
    simp [attach, hstate, hcalls]
  refine ⟨(run {} before).ec, ?_, hran.failed⟩
  rw [run_append]
  show (run ((run {} before).attach true) after).calls = _
  rw [hattach, (ran _ ha).silent (.inl (by simp [hstate]))]

/-- Closed after the attach: the callback gets the code of the event that closes. -/
theorem calls_of_open (hb : before.any Event.attaches = false)
    (ha : after.any Event.attaches = false) (hc : before.find? Event.closing = none) :
    (after.find? Event.closing = none →
      (run {} (before ++ .attach true :: after)).calls = []) ∧
    ∀ c, after.find? Event.closing = some c →
      ∃ code, (run {} (before ++ .attach true :: after)).calls = [code] ∧
        code.failed = c.disconnects := by
  have hran := ran {} hb
  have hquiet := List.find?_eq_none.mp hc
  have hany : before.any Event.closing = false := List.any_eq_false.mpr hquiet
  have hgone : before.any Event.disconnects = false := List.any_eq_false.mpr fun e he => by
    simpa using Event.disconnects_of_not_closing (by simpa using hquiet e he)
  have hstate : (run {} before).state = .opened := by simp [hran.state, hany]
  have hcalls : (run {} before).calls = [] := hran.silent (.inl nofun)
  have hfailed : (run {} before).ec.failed = false := hran.failed.trans hgone
  have hattach : (run {} before).attach true = { run {} before with state := .bound } := by
    simp [attach, hstate]
  have hafter := ran ((run {} before).attach true) ha
  rw [run_append]
  show (_ → (run ((run {} before).attach true) after).calls = []) ∧ ∀ c, _ →
    ∃ code, (run ((run {} before).attach true) after).calls = [code] ∧ _
  rw [hattach] at hafter ⊢
  refine ⟨fun hnone => (hafter.silent (.inr hnone)).trans hcalls, fun c hfound => ?_⟩
  obtain ⟨code, hcode, hec⟩ := hafter.calls rfl c hfound
  exact ⟨code, hcode.trans (congrArg _ hcalls), hec.trans (by rw [hfailed, Bool.false_or])⟩

/-- What a sequence with an attach does. -/
theorem closes_once_attached (hb : before.any Event.attaches = false)
    (ha : after.any Event.attaches = false) :
    (run {} (before ++ .attach true :: after)).calls.length =
      (if (before ++ .attach true :: after).any Event.closing then 1 else 0) ∧
    ((∀ code ∈ (run {} (before ++ .attach true :: after)).calls, (code.failed = true ↔
        ∃ c, (before ++ .attach true :: after).find? Event.closing = some c ∧
          c.disconnects = true)) ↔ ¬Spoiled before) := by
  have hfind : (before ++ .attach true :: after).find? Event.closing =
      (before.find? Event.closing).or (after.find? Event.closing) := by
    rw [List.find?_append, List.find?_cons_of_neg (by simp [Event.closing])]
  have hany : (before ++ .attach true :: after).any Event.closing =
      ((before ++ .attach true :: after).find? Event.closing).isSome := by
    rw [Bool.eq_iff_iff, List.any_eq_true, List.find?_isSome]
  rw [hany, hfind]
  cases hc : before.find? Event.closing with
  | some c =>
    obtain ⟨code, hcalls, hcode⟩ := calls_of_closed hb ha hc
    have hmem : c.disconnects = true → before.any Event.disconnects = true :=
      fun h => List.any_eq_true.mpr ⟨c, List.mem_of_find?_eq_some hc, h⟩
    refine ⟨by simp [hcalls], ?_⟩
    simp only [hcalls, List.mem_singleton, forall_eq, hcode, Spoiled, hc, Option.some_or,
      Option.some.injEq, exists_eq_left']
    cases hd : c.disconnects with
    | true => simp [hmem hd]
    | false => simp
  | none =>
    obtain ⟨hsilent, hheard⟩ := calls_of_open hb ha hc
    have hclean : ¬Spoiled before := by
      rintro ⟨⟨c, hfound, -⟩, -⟩
      cases hc.symm.trans hfound
    rw [Option.none_or]
    cases hc' : after.find? Event.closing with
    | none => simp [hsilent hc', hclean]
    | some c =>
      obtain ⟨code, hcalls, hcode⟩ := hheard c hc'
      simp [hcalls, hcode, hclean]

end Attached

/-- A sequence with at most one attach invokes the callback once if the dispatch is
attached and closed in it, and otherwise never. The code that the callback gets is an
error exactly when the first closing event is the client's going, if and only if the
client does not go between another closing event and the attach. -/
theorem closes_once_iff (events : List Event) (h : events.countP Event.attaches ≤ 1) :
    (Dispatch.run {} events).calls.length =
      (if events.any Event.attaches ∧ events.any Event.closing then 1 else 0) ∧
    ((∀ code ∈ (Dispatch.run {} events).calls, (code.failed = true ↔
        ∃ c, events.find? Event.closing = some c ∧ c.disconnects = true)) ↔
      ¬∃ before after, events = before ++ .attach true :: after ∧ Spoiled before) := by
  cases hany : events.any Event.attaches with
  | false =>
    have hcalls : (run {} events).calls = [] := (ran {} hany).silent (.inl nofun)
    have hnone : ¬∃ before after, events = before ++ .attach true :: after ∧ Spoiled before := by
      rintro ⟨before, after, rfl, -⟩
      simp [Event.attaches] at hany
    exact ⟨by simp [hcalls], iff_of_true (by simp [hcalls]) hnone⟩
  | true =>
    obtain ⟨e, he, hattach⟩ := List.any_eq_true.mp hany
    obtain ⟨before, after, rfl⟩ := List.append_of_mem he
    cases Event.eq_attach hattach
    obtain ⟨hb, ha⟩ := unattached h
    obtain ⟨hlength, hiff⟩ := closes_once_attached hb ha
    refine ⟨by simpa using hlength, hiff.trans (not_congr ⟨fun hs => ⟨before, after, rfl, hs⟩, ?_⟩)⟩
    rintro ⟨before', after', heq, hs⟩
    have hb' := (unattached (heq ▸ h)).1
    rw [← takeWhile_unattached after hb, heq, takeWhile_unattached after' hb']
    exact hs

theorem closes_once_disconnected :
    (Dispatch.run {} [.choke false, .discard ⟨1, .asio⟩, .attach true]).calls.length = 1 :=
  (closes_once_iff [.choke false, .discard ⟨1, .asio⟩, .attach true] (by decide)).1

/-- A choke, the client's disconnection, and then the attach: the callback hears of the
disconnection only. -/
theorem disconnection_overrides :
    (Dispatch.run {} [.choke true, .discard ⟨1, .asio⟩, .attach true]).calls = [⟨1, .asio⟩] ∧
    [.choke true, .discard ⟨1, .asio⟩, .attach true].find? Event.closing = some (.choke true) := by
  decide

end Dispatch

end Cocaine.Node.Client
