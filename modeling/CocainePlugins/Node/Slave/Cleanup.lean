import CocainePlugins.Node.Slave.Evolve

/-!
# The cleanup callback

`shutdown` posts the callback the first time it is called, unless `terminate`
was called before, so the callback runs at most once (`Single`). A `terminate`
that comes between the post and the callback does not take it back: only in runs
where no such call is made (`Unhurried`) the callback never follows it.
-/

namespace Cocaine.Node.Slave

open Framework

def Obs.isCleanup : Obs → Bool
  | .cleanup _ => true
  | _ => false

def Machine.cleaning (m : Machine) : Bool := m.posted.any Task.isCleanup

/-- `terminate` is called while the callback is posted. -/
def Machine.hurries (m : Machine) : Act → Bool
  | .terminate _ _ => m.cleaning
  | _ => false

def Unhurried (m : Machine) (a : Act) : Prop := m.hurries a = false

instance (m : Machine) (a : Act) : Decidable (Unhurried m a) := inferInstanceAs (Decidable (_ = _))

theorem Machine.cleaning_iff {m : Machine} :
    m.cleaning = true ↔ ∃ ec, .cleanup ec ∈ m.posted := by
  rw [cleaning, List.any_eq_true]
  constructor
  · rintro ⟨t, ht, hc⟩
    cases t with
    | cleanup ec => exact ⟨ec, ht⟩
    | _ => cases hc
  · rintro ⟨ec, ht⟩
    exact ⟨_, ht, rfl⟩

/-- Callbacks posted and run, together. -/
def Machine.cleanups (m : Machine) : Nat :=
  m.posted.countP Task.isCleanup + m.log.countP Obs.isCleanup

/-- Only the one `shutdown` that has an effect posts the callback. -/
def Single (m : Machine) : Prop := m.cleanups ≤ m.shutdowned.toNat

theorem Obs.isCleanup_of_internal {o : Obs} (h : o.internal = true) : o.isCleanup = false := by
  cases o <;> first | rfl | cases h

theorem Evolves.cleanups {m m' : Machine} (h : Evolves m m') :
    m'.cleanups = m.cleanups + if m'.shutdowned && !m.shutdowned && !m.closed then 1 else 0 := by
  obtain ⟨l, hl, hc⟩ := h.posted
  obtain ⟨l', hl', hi⟩ := h.log
  have hz : l'.countP Obs.isCleanup = 0 := by
    rw [List.countP_eq_zero]
    intro o ho
    simp [Obs.isCleanup_of_internal (hi o ho)]
  unfold Machine.cleanups
  rw [hl, hl', List.countP_append, List.countP_append, hc, hz]
  omega

/-- A machine that is not closed posts the callback when it is shut down. -/
theorem Evolves.cleaning {m m' : Machine} (h : Evolves m m') (hc : m.closed = false)
    (hs : m.shutdowned = false) (hs' : m'.shutdowned = true) : m'.cleaning = true := by
  obtain ⟨l, hl, hcount⟩ := h.posted
  have hpos : 0 < l.countP Task.isCleanup := by
    rw [hcount, hc, hs, hs']
    decide
  obtain ⟨t, ht, htc⟩ := List.countP_pos_iff.mp hpos
  rw [Machine.cleaning, List.any_eq_true, hl]
  exact ⟨t, List.mem_append_left _ ht, htc⟩

theorem Evolves.single {m m' : Machine} (h : Evolves m m') (hs : Single m) : Single m' := by
  have hc := h.cleanups
  have hm := h.shut
  unfold Single at *
  rcases h1 : m.shutdowned <;> rcases h2 : m'.shutdowned <;> rcases h3 : m.closed <;> simp_all

theorem Single.before {m : Machine} (hs : Single m) (a : Act) : Single (m.before a) := by
  unfold Machine.before
  split
  · rename_i t _
    have hle : (m.posted.erase t).countP Task.isCleanup ≤ m.posted.countP Task.isCleanup :=
      List.erase_sublist.countP_le
    unfold Single Machine.cleanups at *
    simp only [Machine.take]
    omega
  · exact hs

theorem Single.effect {m : Machine} (hs : Single m) {a : Act} (he : m.enabled a = true) :
    Single (m.effect a) := by
  rcases ha : a.special with _ | _
  · exact (Evolves.effect ha).single (hs.before a)
  · cases a with
    | terminate ec lost =>
      obtain ⟨m₁, h, heq⟩ := m.terminate_evolves ec lost
      have h₁ : Single m₁ := h.single (by simpa [Single, Machine.cleanups, Obs.isCleanup] using hs)
      simp only [Machine.effect, heq]
      simpa [Single, Machine.cleanups, Obs.isCleanup] using h₁
    | runCleanup ec =>
      have hmem : Task.cleanup ec ∈ m.posted := by simpa [Machine.enabled] using he
      have hc := (List.perm_cons_erase hmem).countP_eq Task.isCleanup
      rw [List.countP_cons_of_pos rfl] at hc
      unfold Single Machine.cleanups at *
      simp only [Machine.effect, Machine.take, Machine.note]
      rw [List.countP_cons_of_pos rfl]
      omega
    | register => exact hs
    | _ => cases ha

/-- What `terminate` promises of the callback. -/
structure Silent (m : Machine) : Prop where
  closed : m.closed = true → m.cleaning = false
  terminated : .terminated ∈ m.log → m.closed = true
  order : m.log.Pairwise fun o o' => o.isCleanup = true → o' ≠ .terminated

namespace Silent

variable {m m' : Machine}

theorem init : Silent {} := by
  constructor <;> simp [Machine.cleaning]

theorem evolves (hs : Silent m) (h : Evolves m m') : Silent m' := by
  obtain ⟨l, hl, hc⟩ := h.posted
  obtain ⟨l', hl', hi⟩ := h.log
  refine ⟨fun hcl => ?_, fun ht => ?_, ?_⟩
  · have hm : m.closed = true := h.closed ▸ hcl
    have hz : l.countP Task.isCleanup = 0 := by simpa [hm] using hc
    have ha : l.any Task.isCleanup = false := by simpa using hz
    rw [Machine.cleaning, hl, List.any_append, ha, Bool.false_or]
    exact hs.closed hm
  · rw [hl', List.mem_append] at ht
    rcases ht with ht | ht
    · cases hi _ ht
    · rw [h.closed]
      exact hs.terminated ht
  · rw [hl', List.pairwise_append]
    refine ⟨?_, hs.order, ?_⟩
    · rw [List.pairwise_iff_forall_sublist]
      intro o o' hsub hcl
      simp [Obs.isCleanup_of_internal (hi o (hsub.subset List.mem_cons_self))] at hcl
    · intro o ho o' _ hcl
      simp [Obs.isCleanup_of_internal (hi o ho)] at hcl

theorem before (hs : Silent m) (a : Act) : Silent (m.before a) := by
  unfold Machine.before
  split
  · refine ⟨fun hc => ?_, hs.terminated, hs.order⟩
    have := hs.closed hc
    simp only [Machine.cleaning, List.any_eq_false, Machine.take] at *
    exact fun t ht => this t (List.mem_of_mem_erase ht)
  · exact hs

theorem effect (hs : Silent m) {a : Act} (he : m.enabled a = true) (ha : Unhurried m a) :
    Silent (m.effect a) := by
  rcases hsp : a.special with _ | _
  · exact (hs.before a).evolves (Evolves.effect hsp)
  · cases a with
    | terminate ec lost =>
      obtain ⟨m₁, h, heq⟩ := m.terminate_evolves ec lost
      have h₀ : Silent { m.note (.terminate ec) with closed := true } := by
        refine ⟨fun _ => ha, fun _ => rfl, ?_⟩
        simpa [Obs.isCleanup] using hs.order
      obtain ⟨h1, -, h3⟩ := h₀.evolves h
      simp only [Machine.effect, heq]
      refine ⟨h1, fun _ => ?_, ?_⟩
      · simpa using h.closed
      · simpa [Obs.isCleanup] using h3
    | runCleanup ec =>
      refine ⟨(hs.before (.runCleanup ec)).closed,
        fun ht => hs.terminated (by simpa [Machine.effect] using ht), ?_⟩
      refine List.pairwise_cons.mpr ⟨fun o' ho' _ hne => ?_, hs.order⟩
      -- The callback runs, so it was posted, and the machine is not closed.
      have hmem : Task.cleanup ec ∈ m.posted := by simpa [Machine.enabled] using he
      have hcl := hs.closed (hs.terminated (hne ▸ ho'))
      simp only [Machine.cleaning, List.any_eq_false] at hcl
      exact hcl _ hmem rfl
    | register => exact ⟨hs.closed, hs.terminated, hs.order⟩
    | _ => cases hsp

end Silent

/-- The callback is invoked at most once in every run, and not after `terminate`
has returned in those that never call it while the callback is posted. The
record is newest first. -/
theorem cleanup_contract {m : Machine} (hr : machineSystem.Reachable System.Any m) :
    m.log.countP Obs.isCleanup ≤ 1 ∧ (machineSystem.Reachable Unhurried m →
      m.log.Pairwise fun o o' => o.isCleanup = true → o' ≠ .terminated) := by
  refine ⟨?_, fun hu => ?_⟩
  · have h : Single m := by
      refine hr.induct ?_ ?_
      · rintro m rfl
        exact Nat.zero_le _
      · intro m a m' h _ hs
        obtain ⟨-, he, rfl⟩ := Machine.step_eq_some.mp hs
        exact h.effect he
    have := m.shutdowned.toNat_le
    unfold Single Machine.cleanups at h
    omega
  · refine Silent.order (hu.induct ?_ ?_)
    · rintro m rfl
      exact Silent.init
    · intro m a m' h ha hs
      obtain ⟨-, he, rfl⟩ := Machine.step_eq_some.mp hs
      exact h.effect he ha

theorem cleanup_contract_exited : ∃ m, machineSystem.Reachable Unhurried m ∧
    .terminated ∈ m.log ∧ m.log.countP Obs.isCleanup = 1 ∧ m.log.countP Obs.isCleanup ≤ 1 ∧
    m.log.Pairwise fun o o' => o.isCleanup = true → o' ≠ .terminated := by
  obtain ⟨m, hr, hc, ht⟩ := machineSystem.exists_reachable Unhurried
    (P := fun m => m.log.countP Obs.isCleanup = 1 ∧ .terminated ∈ m.log)
    [.prepare false, .token {}, .refresh {} .spawned, .exited 1 ⟨1, .system⟩,
      .runCleanup ⟨1, .system⟩, .terminate ⟨1, .system⟩ false] rfl (by decide +kernel)
  obtain ⟨hone, horder⟩ := cleanup_contract hr.any
  exact ⟨m, hr, ht, hc, hone, horder hr⟩

/-- The worker leaves; before the callback runs, the overseer terminates the slave. -/
theorem cleanup_after_terminate : ∃ m, machineSystem.Reachable System.Any m ∧
    ¬m.log.Pairwise fun o o' => o.isCleanup = true → o' ≠ .terminated :=
  machineSystem.exists_reachable System.Any
    [.prepare false, .token {}, .refresh {} .spawned, .ready 1 false, .activate false,
      .suicide 0, .terminate SlaveErrors.overseerShutdowning.code false,
      .runCleanup SlaveErrors.committedSuicide.code] rfl (by decide +kernel)

end Cocaine.Node.Slave
