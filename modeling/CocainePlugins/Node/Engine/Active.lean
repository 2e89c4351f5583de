import CocainePlugins.Node.Slave.Active
import CocainePlugins.Node.Slave.Cleanup
import CocainePlugins.Node.Engine.Pool

/-!
# The active workers of an engine

How a move changes `active_workers`. It grows only when a slave of the pool is
activated, by its handshake or by the isolate's readiness (`Move.active_le`). It
shrinks when a slave is sealed, leaves the pool, or is shut down, and the last
one posts the cleanup callback: as long as no callback is posted (`quiescent`)
and no slave is sealed or leaves, the workers stay active (`Move.le_active`).
-/

namespace Cocaine.Node.Slave

/-- The handlers that end the work of an active slave without posting the
callback, and the callback. -/
def Act.ends : Act → Bool
  | .doSeal _ | .terminate _ _ | .runCleanup _ => true
  | _ => false

section Effect

variable {m : Machine} {a : Act}

theorem Machine.cleaning_effect (ha : ∀ ec, a ≠ .runCleanup ec) (h : m.cleaning = true) :
    (m.effect a).cleaning = true := by
  obtain ⟨ec, hec⟩ := cleaning_iff.mp h
  refine cleaning_iff.mpr ⟨ec, mem_posted_effect ?_ hec⟩
  intro ht
  cases a with
  | runCleanup ec' => exact ha ec' rfl
  | _ => cases ht

/-- A shutdown of a machine that is not closed posts the callback. -/
theorem cleaning_of_fell (ha : a.ends = false) (hc : m.closed = false) (hs : m.shutdowned = false)
    (hs' : (m.effect a).shutdowned = true) : (m.effect a).cleaning = true := by
  rcases hsp : a.special with _ | _
  · obtain ⟨l, -, hb⟩ := m.before_eq a
    have h := Evolves.effect (m := m) hsp
    rw [hb] at h
    exact h.cleaning hc hs hs'
  · cases a with
    | register c =>
      have hr : m.shutdowned = true := hs'
      rw [hs] at hr
      cases hr
    | terminate | runCleanup => cases ha
    | _ => cases hsp

/-- An active machine that is not closed stays active, or the callback is posted. -/
theorem active_or_cleaning (ho : Ordered m) (he : m.enabled a = true) (ha : a.ends = false)
    (hc : m.closed = false) (hm : m.active = true) :
    (m.effect a).active = true ∨ (m.effect a).cleaning = true := by
  have hd : ∀ lost, a ≠ .doSeal lost := by
    rintro lost rfl
    cases ha
  have ht : ∀ ec lost, a ≠ .terminate ec lost := by
    rintro ec lost rfl
    cases ha
  rcases active_effect ho he hm hd ht with h | ⟨hs, hs'⟩
  · exact .inl h
  · exact .inr (cleaning_of_fell ha hc hs hs')

end Effect

end Slave

namespace Engine

open Framework Slave

/-- No cleanup callback is posted. The other handlers that tell the application
about its slaves are single steps. -/
def quiescent (st : Engine) : Bool := (List.range st.born).all fun i => !(st.machine i).cleaning

theorem quiescent_iff {st : Engine} :
    st.quiescent = true ↔ ∀ i < st.born, (st.machine i).cleaning = false := by
  simp [quiescent]

variable {sc : Scope} {st st' : Engine}

/-! ## One slave -/

/-- A handler of a slave of the pool changes only what this slave counts. -/
theorem activeWorkers_perform (hnd : st.pool.Nodup) {i : Nat} (hi : i ∈ st.pool) (a : Slave.Act) :
    (st.perform i a).activeWorkers + (st.active i).toNat =
      st.activeWorkers + ((st.machine i).effect a).active.toNat := by
  have hperm := List.perm_cons_erase hi
  have hself : (st.perform i a).active i = ((st.machine i).effect a).active := by
    rw [active, machine_perform, if_pos rfl]
  have hrest : (st.pool.erase i).countP (st.perform i a).active =
      (st.pool.erase i).countP st.active := by
    refine List.countP_congr fun j hj => ?_
    rw [active, machine_perform, if_neg (hnd.mem_erase_iff.mp hj).1, active]
  have h₁ : st.activeWorkers = (i :: st.pool.erase i).countP st.active := hperm.countP_eq _
  have h₂ : (st.perform i a).activeWorkers =
      (i :: st.pool.erase i).countP (st.perform i a).active := hperm.countP_eq _
  rw [h₁, h₂, List.countP_cons, List.countP_cons, hself, hrest]
  rcases st.active i <;> rcases ((st.machine i).effect a).active <;> simp

theorem activeWorkers_perform_of_notMem {i : Nat} (hi : i ∉ st.pool) (a : Slave.Act) :
    (st.perform i a).activeWorkers = st.activeWorkers := by
  refine List.countP_congr fun j hj => ?_
  have hne : j ≠ i := fun h => hi (h ▸ hj)
  rw [active, machine_perform, if_neg hne, active]

/-! ## Moves -/

/-- A move leaves the pool as it is but for its order, adds a new slave, or takes
one out. -/
theorem Move.pool_cases (hm : Move sc st st') :
    st'.pool.Perm st.pool ∧ st'.born = st.born ∨
    st'.pool = st.born :: st.pool ∧ st'.born = st.born + 1 ∧ (st'.machine st.born).active = false ∨
    sc.may .leave ∧ ∃ i, st'.pool = st.pool.erase i ∧ st'.born = st.born := by
  cases hm with
  | flow h => cases h <;> exact .inl ⟨.refl _, rfl⟩
  | rehash h => exact .inl ⟨h, rfl⟩
  | spawn =>
    refine .inr (.inl ⟨rfl, rfl, ?_⟩)
    rw [machine_spawn, if_pos rfl]
    rfl
  | @erase i lost h => exact .inr (.inr ⟨h, i, rfl, rfl⟩)
  | _ => exact .inl ⟨.refl _, rfl⟩

theorem Move.born_le (hm : Move sc st st') : st.born ≤ st'.born := by
  rcases hm.pool_cases with ⟨-, hb⟩ | ⟨-, hb, -⟩ | ⟨-, i, -, hb⟩ <;> omega

/-- Without an activation no slave becomes active. -/
theorem Move.active_of_active (hm : Move sc st st') (hw : ¬sc.may .wake)
    (hs : ∀ m a, sc.slave m a → m.wakes a = false) {j : Nat} (hj : j < st.born)
    (ha : st'.active j = true) : st.active j = true := by
  refine hm.each (P := fun i m => i < st.born → m.active = true → st.active i = true)
    (fun h => absurd h (Nat.lt_irrefl _)) ?_ (fun i _ => id) j hj ha
  intro i m a ih he hh hi hact
  refine ih hi ?_
  rcases hact' : a.activates with _ | _
  · exact (Dims.effect hact').rise hact
  · cases a with
    | activate throws => exact absurd hh hw
    | ready r throws =>
      rcases active_onReady hact with h | h
      · exact h
      · rcases hh with ⟨hq, -⟩ | ⟨-, hsl⟩
        · cases hq
        · rw [hs _ _ hsl] at h
          cases h
    | _ => cases hact'

theorem Move.active_le (hm : Move sc st st') (hp : Pooled st) (hw : ¬sc.may .wake)
    (hs : ∀ m a, sc.slave m a → m.wakes a = false) : st'.activeWorkers ≤ st.activeWorkers := by
  have hmono : st.pool.countP st'.active ≤ st.activeWorkers :=
    List.countP_mono_left fun j hj => hm.active_of_active hw hs (hp.lt j hj)
  rcases hm.pool_cases with ⟨hperm, -⟩ | ⟨hpool, -, hnew⟩ | ⟨-, i, hpool, -⟩
  · rw [activeWorkers, hperm.countP_eq]
    exact hmono
  · have hn : ¬st'.active st.born = true := by simp [active, hnew]
    rw [activeWorkers, hpool, List.countP_cons_of_neg hn]
    exact hmono
  · rw [activeWorkers, hpool]
    exact Nat.le_trans List.erase_sublist.countP_le hmono

/-- A posted callback stays posted until it runs. -/
theorem Move.quiescent (hm : Move sc st st') (hl : ¬sc.may .leave) (h : st'.quiescent = true) :
    st.quiescent = true := by
  rw [quiescent_iff] at h ⊢
  intro j hj
  by_contra hc
  have hkept : (st'.machine j).cleaning = true := by
    refine hm.each (P := fun i m => i < st.born → (st.machine i).cleaning = true →
      m.cleaning = true) (fun h => absurd h (Nat.lt_irrefl _)) ?_ (fun i _ => id) j hj (by simpa using hc)
    intro i m a ih he hh hi hcl
    refine Machine.cleaning_effect ?_ (ih hi hcl)
    rintro ec rfl
    exact hl hh
  rw [h j (Nat.lt_of_lt_of_le hj hm.born_le)] at hkept
  cases hkept

/-- A slave that nobody seals or terminates stays active, or posts the callback. -/
theorem Move.active_or_cleaning (hm : Move sc st st') (ho : ∀ i, Ordered (st.machine i))
    (hl : ¬sc.may .leave) (hs : ¬sc.may .sealing) {j : Nat} (hj : j < st.born)
    (hc : (st.machine j).closed = false) (ha : st.active j = true) :
    st'.active j = true ∨ (st'.machine j).cleaning = true := by
  have h := hm.each (P := fun i m => i < st.born → Ordered m ∧ m.closed = (st.machine i).closed ∧
    ((st.machine i).closed = false → st.active i = true → m.active = true ∨ m.cleaning = true))
    (fun h => absurd h (Nat.lt_irrefl _)) ?_ (fun i _ => ⟨ho i, rfl, fun _ => .inl⟩) j hj
  · exact h.2.2 hc ha
  · intro i m a ih he hh hi
    obtain ⟨hom, hcm, ham⟩ := ih hi
    have hends : a.ends = false := by
      cases a with
      | doSeal lost => exact absurd hh.1 hs
      | terminate ec lost => exact absurd hh.1 hl
      | runCleanup ec => exact absurd hh hl
      | _ => rfl
    have hterm : ∀ ec lost, a ≠ .terminate ec lost := by
      rintro ec lost rfl
      cases hends
    have hrun : ∀ ec, a ≠ .runCleanup ec := by
      rintro ec rfl
      cases hends
    refine ⟨hom.effect he, (Machine.closed_effect hterm).trans hcm, fun hci hai => ?_⟩
    rcases ham hci hai with hact | hcl
    · exact Slave.active_or_cleaning hom he hends (hcm.trans hci) hact
    · exact .inr (Machine.cleaning_effect hrun hcl)

theorem Move.le_active (hm : Move sc st st') (hp : Pooled st) (ho : ∀ i, Ordered (st.machine i))
    (hl : ¬sc.may .leave) (hs : ¬sc.may .sealing) (hq : st'.quiescent = true) :
    st.activeWorkers ≤ st'.activeWorkers := by
  have hmono : st.activeWorkers ≤ st.pool.countP st'.active := by
    refine List.countP_mono_left fun j hj ha => ?_
    have hjb := hp.lt j hj
    rcases hm.active_or_cleaning ho hl hs hjb (hp.closed j hj) ha with h | h
    · exact h
    · rw [quiescent_iff.mp hq j (Nat.lt_of_lt_of_le hjb hm.born_le)] at h
      cases h
  rcases hm.pool_cases with ⟨hperm, -⟩ | ⟨hpool, -, hnew⟩ | ⟨h, -⟩
  · rw [show st'.activeWorkers = st.pool.countP st'.active from hperm.countP_eq _]
    exact hmono
  · have hn : ¬st'.active st.born = true := by simp [active, hnew]
    rw [show st'.activeWorkers = (st.born :: st.pool).countP st'.active from
      congrArg (List.countP _) hpool, List.countP_cons_of_neg hn]
    exact hmono
  · exact absurd h hl

end Engine

end Cocaine.Node
