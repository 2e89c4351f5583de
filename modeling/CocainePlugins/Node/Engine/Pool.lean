import CocainePlugins.Node.Slave.Order
import CocainePlugins.Node.Slave.Evolve
import CocainePlugins.Node.Engine.Moves

/-!
# The slaves of an engine

What a move does to the machines: at most one of them changes, by one or two of
its handlers, or a new one is made (`machine_place`, `machine_spawn` and the
like). So an invariant of the machine alone holds of every slave (`Move.each`),
and the pool is well formed in every run (`Pooled`).
-/

namespace Cocaine.Node.Engine

open Framework Slave

section Machines

variable (st : Engine)

@[simp] theorem machine_setMachine (i j : Nat) (m : Machine) :
    (st.setMachine i m).machine j = if j = i then m else st.machine j := by
  simp only [machine, setMachine, Function.update_apply]
  split <;> rfl

@[simp] theorem machine_perform (i j : Nat) (a : Slave.Act) :
    (st.perform i a).machine j = if j = i then (st.machine i).effect a else st.machine j :=
  machine_setMachine st i j _

@[simp] theorem machine_attempt (i e j : Nat) (forked : Bool) :
    (st.attempt i e forked).machine j =
      if j = i then (st.machine i).newChannel else st.machine j :=
  machine_perform st i j .newChannel

@[simp] theorem machine_place (i e j : Nat) :
    (st.place i e).machine j = if j = i then
      (st.machine i).newChannel.register ((st.machine i).counter + 1) else st.machine j := by
  have h : (st.place i e).machine j =
      ((st.attempt i e true).perform i (.register ((st.machine i).counter + 1))).machine j := rfl
  rw [h, machine_perform, machine_attempt, machine_attempt, if_pos rfl]
  split <;> rfl

@[simp] theorem machine_spawn (j : Nat) :
    st.spawn.machine j = if j = st.born then {} else st.machine j := by
  simp only [machine, spawn, Function.update_apply]
  split <;> rfl

@[simp] theorem machine_condemn (i j : Nat) (ec : ErrorCode) :
    ({ st with workers := Function.update st.workers i { st.workers i with ec := ec } } :
      Engine).machine j = st.machine j := by
  simp only [machine, Function.update_apply]
  split
  · rename_i h
    rw [h]
  · rfl

@[simp] theorem machine_eraseSlave (i j : Nat) (lost : List Nat) :
    (st.eraseSlave i lost).machine j = if j = i then
      (st.machine i).terminate (st.workers i).ec (lost.contains i) else st.machine j :=
  machine_perform _ i j _

end Machines

variable {sc : Scope} {st st' : Engine}

/-- The handler may run on the slave `i` with the machine `m` in a move of the scope. -/
def Scope.handles (sc : Scope) (st : Engine) (i : Nat) (m : Machine) : Slave.Act → Prop
  | .doSeal lost => sc.may .sealing ∧ (lost = true → sc.may .lose)
  | .activate _ => sc.may .wake
  | .terminate ec _ => sc.may .leave ∧ ec = (st.workers i).ec
  | .runRebalance => sc.may .take
  | .runCleanup _ => sc.may .leave
  | .register _ => True
  | a => a.quiet = true ∧ (a.loses = true → sc.may .lose) ∨ a.external = true ∧ sc.slave m a

/-- What the handlers of the scope keep of each machine, a move keeps of all. -/
theorem Move.each {P : Nat → Machine → Prop} (h : Move sc st st') (h0 : P st.born {})
    (hP : ∀ {i m a}, P i m → m.enabled a = true → sc.handles st i m a → P i (m.effect a))
    (hst : ∀ i, P i (st.machine i)) (j : Nat) : P j (st'.machine j) := by
  have hp : ∀ {i a}, (st.machine i).enabled a = true → sc.handles st i (st.machine i) a →
      P j ((st.perform i a).machine j) := by
    intro i a he ha
    rw [machine_perform]
    split
    · rename_i hji
      subst hji
      exact hP (hst j) he ha
    · exact hst j
  have hnew : ∀ i m, sc.handles st i m .newChannel := fun i m => .inl ⟨rfl, by simp [Act.loses]⟩
  have hplace : ∀ {i e q}, P j ((({ st with queue := q } : Engine).place i e).machine j) := by
    intro i e q
    rw [machine_place]
    split
    · rename_i hji
      subst hji
      exact hP (a := .register _) (hP (a := .newChannel) (hst j) rfl (hnew j _)) rfl trivial
    · exact hst j
  cases h with
  | flow h =>
    cases h with
    | @slave i a hq he hl =>
      refine hp he ?_
      cases a <;> first | exact .inl ⟨hq, hl⟩ | cases hq
    | _ => exact hst j
  | attempt | leak => exact hp (a := .newChannel) rfl (hnew _ _)
  | misplace => exact hplace (q := st.queue)
  | place => exact hplace
  | doSeal h hi hl => exact hp rfl ⟨h, hl⟩
  | activate h => exact hp rfl h
  | @slave i a hi hx he hs =>
    refine hp he ?_
    cases a <;> first | exact .inr ⟨hx, hs⟩ | cases hx
  | cleanup h he => exact hp he h
  | revoked h he => exact hp he h
  | condemn =>
    rw [machine_condemn]
    exact hst j
  | erase h =>
    rw [machine_eraseSlave]
    split
    · rename_i hji
      subst hji
      exact hP (a := .terminate _ _) (hst j) rfl ⟨h, rfl⟩
    · exact hst j
  | spawn =>
    rw [machine_spawn]
    split
    · rename_i hjb
      subst hjb
      exact h0
    · exact hst j
  | _ => exact hst j

/-- The states of every slave come in their order. -/
theorem Move.ordered (h : Move sc st st') (hst : ∀ i, Ordered (st.machine i)) (j : Nat) :
    Ordered (st'.machine j) :=
  h.each (P := fun _ => Ordered) Ordered.init (fun hm he _ => hm.effect he) hst j

/-! ## The pool -/

structure Pooled (st : Engine) : Prop where
  lt : ∀ i ∈ st.pool, i < st.born
  nodup : st.pool.Nodup
  /-- Nobody has terminated a slave of the pool. -/
  closed : ∀ i ∈ st.pool, (st.machine i).closed = false

theorem Pooled.move (h : Pooled st) (hm : Move sc st st') : Pooled st' := by
  obtain ⟨hlt, hnd, hcl⟩ := h
  have hp : ∀ {i a}, (∀ ec lost, a ≠ .terminate ec lost) → Pooled (st.perform i a) := by
    intro i a ha
    refine ⟨hlt, hnd, fun j hj => ?_⟩
    rw [machine_perform]
    split
    · rename_i hji
      rw [Machine.closed_effect ha, ← hji]
      exact hcl j hj
    · exact hcl j hj
  have hplace : ∀ {i e q}, Pooled (({ st with queue := q } : Engine).place i e) := by
    intro i e q
    refine ⟨hlt, hnd, fun j hj => ?_⟩
    rw [machine_place]
    split
    · rename_i hji
      subst hji
      exact hcl j hj
    · exact hcl j hj
  cases hm with
  | flow h =>
    cases h with
    | slave hq =>
      refine hp fun ec lost ha => ?_
      rw [ha] at hq
      cases hq
    | _ => exact ⟨hlt, hnd, hcl⟩
  | @attempt i | @leak i =>
    have h := hp (i := i) (a := .newChannel) (by simp)
    exact ⟨h.lt, h.nodup, h.closed⟩
  | misplace => exact hplace (q := st.queue)
  | place => exact hplace
  | doSeal | activate | revoked | cleanup => exact hp (by simp)
  | slave hi hx =>
    refine hp fun ec lost ha => ?_
    rw [ha] at hx
    cases hx
  | condemn =>
    refine ⟨hlt, hnd, fun j hj => ?_⟩
    rw [machine_condemn]
    exact hcl j hj
  | @erase i lost h hi =>
    refine ⟨fun j hj => hlt j (List.mem_of_mem_erase hj), hnd.erase i, fun j hj => ?_⟩
    have hj' := hnd.mem_erase_iff.mp hj
    rw [machine_eraseSlave, if_neg hj'.1]
    exact hcl j hj'.2
  | spawn =>
    have hne : st.born ∉ st.pool := fun hb => Nat.lt_irrefl _ (hlt _ hb)
    refine ⟨fun j hj => ?_, List.nodup_cons.mpr ⟨hne, hnd⟩, fun j hj => ?_⟩
    · rcases List.mem_cons.mp hj with rfl | hj
      · exact Nat.lt_succ_self _
      · exact Nat.lt_succ_of_lt (hlt j hj)
    · rw [machine_spawn]
      split
      · rfl
      · rename_i hjb
        exact hcl j ((List.mem_cons.mp hj).resolve_left hjb)
  | rehash hperm =>
    exact ⟨fun j hj => hlt j (hperm.subset hj), hperm.nodup_iff.mpr hnd,
      fun j hj => hcl j (hperm.subset hj)⟩
  | _ => exact ⟨hlt, hnd, hcl⟩

theorem Pooled.start (p : Profile) : Pooled (start p) := by
  unfold Engine.start maybePublish
  split <;> exact ⟨by simp, List.nodup_nil, by simp⟩

end Cocaine.Node.Engine
