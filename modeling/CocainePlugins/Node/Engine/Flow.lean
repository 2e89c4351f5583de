import Mathlib.Logic.Relation
import CocainePlugins.Node.Engine.Rebalance

/-!
# What the streams of a request change

The dispatches of a request write to its client and close its channel, one small
change at a time (`Flow`); each of their functions is a sequence of such changes
(`Flows`). A `Scope` says which changes are allowed, so that one decomposition
serves invariants that hold in different kinds of runs. `inject_cases` says what
an injection is: it throws before the channel is registered, or the registration
(`place`) is followed by a flow.
-/

namespace Cocaine.Node.Slave

/-- The handlers that the dispatches of a request call. -/
def Act.quiet : Act → Bool
  | .newChannel | .arm _ | .watch _ _ | .closeSend _ _ | .closeRecv _ _ | .closeBoth _ _
  | .completeRequest _ => true
  | _ => false

/-- Should the handler terminate the worker, the message cannot be sent. -/
def Act.loses : Act → Bool
  | .watch _ lost | .closeSend _ lost | .closeRecv _ lost | .closeBoth _ lost | .doSeal lost => lost
  | _ => false

end Slave

namespace Engine

open Framework Slave

/-- What a run may be required not to do. -/
inductive Trait where
  | fault (f : Fault)
  /-- A terminate message is lost while a slave is sealed. -/
  | lose
  /-- A slave is sealed, leaves the pool, or becomes active by its handshake. -/
  | sealing | leave | wake
  /-- A request is pushed to the queue, counted as rejected, or its client is told so. -/
  | accept | reject | reply
  /-- A posted `rebalance_events` is taken. -/
  | take
  /-- The manual target or the backoff changes. -/
  | tune
  | publish | stop
deriving DecidableEq

/-- The runs that an invariant is about. -/
structure Scope where
  may : Trait → Prop := fun _ => True
  /-- The handlers of a slave that may be steps of their own. -/
  slave : Machine → Slave.Act → Prop := fun _ _ => True

namespace Scope

variable (sc : Scope)

def bears (lost : List Nat) : Prop := lost ≠ [] → sc.may .lose

def allows (env : Attempt) : Prop :=
  (∀ f, env.fault = some f → sc.may (.fault f)) ∧ sc.bears env.lost

end Scope

def Dispatch.writes (d : Dispatch) : Bool := d.forked && !d.closed

inductive Flow (sc : Scope) (st : Engine) : Engine → Prop where
  | slave {i : Nat} {a : Slave.Act} (hq : a.quiet = true) (he : (st.machine i).enabled a = true)
    (hl : a.loses = true → sc.may .lose) : Flow sc st (st.perform i a)
  | load {e : Nat} {f : Load → Load} (h : (f (st.loads e)).event = (st.loads e).event) :
    Flow sc st (st.setLoad e f)
  | chunk {i c : Nat} (h : (st.dispatches i c).writes = true) :
    Flow sc st (st.emit (st.dispatches i c).event .chunk)
  | finish {i c : Nat} {msg : Msg} (h : (st.dispatches i c).writes = true) :
    Flow sc st ((st.emit (st.dispatches i c).event msg).setDispatch i c
      { st.dispatches i c with closed := true })
  | quit {i c : Nat} : Flow sc st (st.setDispatch i c { st.dispatches i c with closed := true })

def Flows (sc : Scope) : Engine → Engine → Prop := Relation.ReflTransGen (Flow sc)

section Flows

variable {sc : Scope} {st st' st'' : Engine} {lost : List Nat}

theorem Flow.flows (h : Flow sc st st') : Flows sc st st' := .single h

theorem Flows.refl : Flows sc st st := Relation.ReflTransGen.refl

theorem Flows.trans (h : Flows sc st st') (h' : Flows sc st' st'') : Flows sc st st'' :=
  Relation.ReflTransGen.trans h h'

theorem Flows.setQueue (h : Flows sc st st') (q : List Nat) :
    Flows sc { st with queue := q } { st' with queue := q } := by
  induction h with
  | refl => exact .refl
  | tail _ h ih =>
    refine ih.tail ?_
    cases h with
    | slave hq he hl => exact .slave hq he hl
    | load hf => exact .load hf
    | @chunk i c hw => exact .chunk (i := i) (c := c) hw
    | @finish i c _ hw => exact .finish (i := i) (c := c) hw
    | @quit i c => exact .quit (i := i) (c := c)

theorem Scope.bears.may (h : sc.bears lost) {i : Nat} (hc : lost.contains i = true) :
    sc.may .lose :=
  h (by rintro rfl; cases hc)

theorem clientCallback_flows (h : sc.bears lost) (i c : Nat) (ec : ErrorCode) :
    Flows sc st (st.clientCallback i c ec lost) := by
  unfold clientCallback
  split <;> exact Flow.flows (.slave rfl rfl h.may)

theorem clientFinalize_flows (h : sc.bears lost) (e : Nat) :
    Flows sc st (st.clientFinalize e lost) := by
  unfold clientFinalize
  split
  · exact Flow.flows (.load rfl)
  · exact .trans (Flow.flows (.load rfl)) (clientCallback_flows h _ _ _)
  · exact .refl

theorem clientDiscard_flows (h : sc.bears lost) (e : Nat) (ec : ErrorCode) :
    Flows sc st (st.clientDiscard e ec lost) := by
  unfold clientDiscard
  split
  · exact .trans (Flow.flows (.load rfl)) (clientFinalize_flows h e)
  · exact .refl

theorem clientAttach_flows (h : sc.bears lost) (e i c : Nat) :
    Flows sc st (st.clientAttach e i c lost) := by
  unfold clientAttach
  split
  · exact Flow.flows (.load rfl)
  · exact clientCallback_flows h i c _
  · exact .refl

theorem dispatches_clientDiscard (e : Nat) (ec : ErrorCode) :
    (st.clientDiscard e ec lost).dispatches = st.dispatches := by
  unfold clientDiscard clientFinalize
  split
  · split <;> rfl
  · rfl

/-- The end of `worker_rpc_dispatch_t::finalize`. -/
theorem workerCallback_flows (h : sc.bears lost) (i c : Nat) (ec : ErrorCode) :
    Flows sc st (st.perform i
      (if ec.failed then .closeBoth c (lost.contains i) else .closeRecv c (lost.contains i))) := by
  split <;> exact Flow.flows (.slave rfl rfl h.may)

theorem workerFrame_flows (h : sc.bears lost) {i c : Nat} (hf : (st.dispatches i c).forked = true)
    (msg : Msg) (throws : Bool) : Flows sc st (st.workerFrame i c msg throws lost) := by
  unfold workerFrame
  split
  · exact .refl
  · rename_i hc
    have hw : (st.dispatches i c).writes = true := by simp [Dispatch.writes, hf, hc]
    split
    · exact .trans (Flow.flows .quit) (workerCallback_flows h i c _)
    · split
      · exact Flow.flows (.chunk hw)
      · exact .trans (Flow.flows (.finish hw)) (workerCallback_flows h i c _)

theorem workerDiscard_flows (h : sc.bears lost) {i c : Nat}
    (hf : (st.dispatches i c).forked = true) (ec : ErrorCode) (throws : Bool) :
    Flows sc st (st.workerDiscard i c ec throws lost) := by
  unfold workerDiscard
  split
  · rename_i hc
    have hw : (st.dispatches i c).writes = true := by simp_all [Dispatch.writes]
    refine .trans ?_ (workerCallback_flows h i c .success)
    split
    · exact Flow.flows .quit
    · exact Flow.flows (.finish hw)
  · exact .refl

theorem channelTimeout_flows (h : sc.bears lost) {i c : Nat}
    (hf : (st.dispatches i c).forked = true) (throws : Bool) :
    Flows sc st (st.channelTimeout i c throws lost) :=
  (clientDiscard_flows h _ _).trans
    (workerDiscard_flows h (by rw [dispatches_clientDiscard]; exact hf) _ throws)

end Flows

/-! ## Injection -/

section Inject

variable (st : Engine)

/-- A new channel of the slave `i`, with the worker's dispatch for the request `e`. -/
def attempt (i e : Nat) (forked : Bool) : Engine :=
  (st.perform i .newChannel).setDispatch i ((st.machine i).counter + 1)
    { event := e, forked := forked }

/-- A new channel that is registered. -/
def place (i e : Nat) : Engine := (st.attempt i e true).register i ((st.machine i).counter + 1) e

variable {st}

theorem setDispatch_setDispatch (i c : Nat) (d d' : Dispatch) :
    (st.setDispatch i c d).setDispatch i c d' = st.setDispatch i c d' := by
  simp only [setDispatch, Function.update_self, Function.update_idem]

theorem forked_place (i e : Nat) :
    ((st.place i e).dispatches i ((st.machine i).counter + 1)).forked = true := by
  simp [place, attempt, register, setDispatch, perform, setMachine]

theorem inject_cases {sc : Scope} {env : Attempt} {i : Nat} (ha : st.active i = true)
    (hb : sc.bears env.lost) (e : Nat) :
    env.fault = some .fork ∧ st.inject i e env = (st.attempt i e false, true) ∨
    env.fault = some .send ∧ st.inject i e env = (st.attempt i e true, true) ∨
    Flows sc (st.place i e) (st.inject i e env).1 ∧
      ((st.inject i e env).2 = true ↔ env.fault = some .attach) := by
  unfold inject
  simp only [ha, Bool.not_true, Bool.false_or, beq_iff_eq, setDispatch_setDispatch]
  split
  · rename_i hf
    exact .inl ⟨hf, rfl⟩
  · split
    · rename_i hf
      exact .inr (.inl ⟨hf, rfl⟩)
    · refine .inr (.inr ?_)
      have h₄ : Flows sc (st.place i e) (if (st.loads e).event.duration st.profile env.now₃ ≤ 0 then
          (st.place i e).channelTimeout i ((st.machine i).counter + 1) env.mute env.lost
        else (st.place i e).perform i (.arm ((st.machine i).counter + 1))) := by
        split
        · exact channelTimeout_flows hb (forked_place i e) _
        · exact Flow.flows (.slave rfl rfl (by simp [Act.loses]))
      split
      · rename_i hf
        exact ⟨h₄, by simp [hf]⟩
      · rename_i hf
        exact ⟨(h₄.trans (clientAttach_flows hb e i _)).trans (Flow.flows (.slave rfl rfl hb.may)),
          by simp [hf]⟩

end Inject

end Engine

end Cocaine.Node
