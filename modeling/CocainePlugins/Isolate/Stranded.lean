import CocainePlugins.Isolate.External

/-!
# Requests that wait for a connection

A queued request is looked at again when the connection that is under way is made or fails. So
no request is stranded as long as each one that is queued finds or starts a connection. It does
not while `connect` is sealed, and not when it came before the context was prepared and nothing
has connected since.
-/

namespace Cocaine.Isolate

open Framework Node

/-- The request is at the daemon or has failed, or nobody wants it any more. -/
def Load.Handled (load : Load) : Prop :=
  load.cancelled = true ∨ load.sent = true ∨ ∃ c, (Origin.failure, c) ∈ load.calls

theorem Load.handled_fail (load : Load) (ec : ErrorCode) (reason : Str) :
    (load.fail ec reason).Handled :=
  .inr (.inr ⟨_, List.mem_cons_self⟩)

theorem Load.Handled.fail {load : Load} (h : load.Handled) (ec : ErrorCode) (reason : Str) :
    (load.fail ec reason).Handled := by
  obtain hc | hs | ⟨c, hc⟩ := h
  · exact .inl hc
  · exact .inr (.inl hs)
  · exact .inr (.inr ⟨c, List.mem_cons_of_mem _ hc⟩)

namespace Inner

variable {s t : Inner}

/-! ## A queue is worked off -/

theorem handled_modify {j k : Nat} {f : Load → Load} (h : (s.loads j).Handled)
    (hf : (s.loads k).Handled → (f (s.loads k)).Handled) : ((s.modify k f).loads j).Handled := by
  by_cases hj : j = k
  · subst hj
    rw [loads_modify_self]
    exact hf h
  · rw [loads_modify_ne hj]
    exact h

theorem Applied.handled {j k : Nat} (ha : Applied s k t) (h : (s.loads j).Handled) :
    (t.loads j).Handled := by
  cases ha with
  | cancelled _ | crashed => exact h
  | sent => exact handled_modify h fun _ => .inr (.inl rfl)
  | threw e stream =>
    rw [loads_connect]
    exact handled_modify h fun _ => Load.handled_fail _ _ _

theorem Applied.handled_self {k : Nat} (ha : Applied s k t) (hc : t.crashed = false) :
    (t.loads k).Handled := by
  cases ha with
  | cancelled hcancelled => exact .inl hcancelled
  | crashed => cases hc
  | sent =>
    rw [loads_modify_self]
    exact .inr (.inl rfl)
  | threw e stream =>
    rw [loads_connect, loads_modify_self]
    exact Load.handled_fail _ _ _

theorem applyAll_crashed (hc : s.crashed = true) (sending : Nat → Sending) (ks : List Nat) :
    s.applyAll sending ks = s := by
  cases ks with
  | nil => rfl
  | cons k ks => simp only [applyAll, hc, if_true]

theorem handled_applyAll {j : Nat} (h : (s.loads j).Handled) (sending : Nat → Sending)
    (ks : List Nat) : ((s.applyAll sending ks).loads j).Handled := by
  induction ks generalizing s with
  | nil => exact h
  | cons k ks ih =>
    simp only [applyAll]
    split
    · exact h
    · exact ih ((applied k (sending k)).handled h)

variable {sending : Nat → Sending}

theorem handled_applyAll_mem {ks : List Nat} (hc : (s.applyAll sending ks).crashed = false) :
    ∀ k ∈ ks, ((s.applyAll sending ks).loads k).Handled := by
  induction ks generalizing s with
  | nil => simp
  | cons j ks ih =>
    simp only [applyAll] at hc ⊢
    split at hc <;> rename_i hcrashed
    · rw [hc] at hcrashed
      cases hcrashed
    · rw [if_neg hcrashed]
      intro k hk
      cases hk with
      | head =>
        refine handled_applyAll ((applied j (sending j)).handled_self ?_) sending ks
        -- A crash of the first one would be the end.
        cases hj : (s.apply j (sending j)).crashed with
        | false => rfl
        | true => rw [applyAll_crashed hj, hj] at hc; cases hc
      | tail _ hk => exact ih hc k hk

theorem handled_failAll {j : Nat} (h : (s.loads j).Handled) (ec : ErrorCode) (ks : List Nat) :
    ((s.failAll ec ks).loads j).Handled := by
  induction ks generalizing s with
  | nil => exact h
  | cons k ks ih =>
    refine ih (s := s.modify k _) ?_
    exact handled_modify h fun hk => hk.fail _ _

theorem handled_failAll_mem (ec : ErrorCode) (ks : List Nat) :
    ∀ k ∈ ks, ((s.failAll ec ks).loads k).Handled := by
  induction ks generalizing s with
  | nil => simp
  | cons j ks ih =>
    intro k hk
    cases hk with
    | head =>
      refine handled_failAll (s := s.modify j _) ?_ ec ks
      rw [loads_modify_self]
      exact Load.handled_fail _ _ _
    | tail _ hk => exact ih (s := s.modify j _) k hk

/-! ## The end of a connection -/

/-- Both queues are empty, and what was in them is handled. -/
structure Emptied (s t : Inner) : Prop where
  spoolQueue : t.spoolQueue = []
  spawnQueue : t.spawnQueue = []
  handled : t.crashed = false → ∀ k, k ∈ s.spoolQueue ∨ k ∈ s.spawnQueue → (t.loads k).Handled

theorem applied_emptied (sending : Nat → Sending) :
    Emptied s ((s.applySpool sending).applySpawn sending) := by
  have hfirst := Keeps.applyAll (s := s) sending s.spoolQueue
  have hsecond := Keeps.applyAll (s := s.applySpool sending) sending
    (s.applySpool sending).spawnQueue
  refine ⟨hsecond.spoolQueue, rfl, fun hc k hk => ?_⟩
  obtain hk | hk := hk
  · refine handled_applyAll (s := s.applySpool sending) (handled_applyAll_mem ?_ k hk) sending _
    -- A crash in the first queue would have been the end of the second one.
    cases hcrash : (s.applyAll sending s.spoolQueue).crashed with
    | false => rfl
    | true =>
      have hend := applyAll_crashed (s := s.applySpool sending) hcrash sending
        (s.applySpool sending).spawnQueue
      have hc' : ((s.applySpool sending).applyAll sending
        (s.applySpool sending).spawnQueue).crashed = false := hc
      rw [hend] at hc'
      exact hcrash.symm.trans hc'
  · refine handled_applyAll_mem hc k ?_
    show k ∈ (s.applyAll sending s.spoolQueue).spawnQueue
    rw [hfirst.spawnQueue]
    exact hk

theorem onFail_emptied (ec : ErrorCode) : Emptied s (s.onFail ec) := by
  let s₁ : Inner := { s with lastFailed := s.now, sealTime := min (s.sealTime * 2) maxSealTime }
  have hfirst := Keeps.failAll (s := s₁) ec s₁.spoolQueue
  have hsecond := Keeps.failAll (s := s₁.failSpool ec) ec (s₁.failSpool ec).spawnQueue
  refine ⟨hsecond.spoolQueue, rfl, fun _ k hk => ?_⟩
  obtain hk | hk := hk
  · exact handled_failAll (s := s₁.failSpool ec) (handled_failAll_mem ec _ k hk) ec _
  · refine handled_failAll_mem (s := s₁.failSpool ec) ec _ k ?_
    show k ∈ (s₁.failAll ec s₁.spoolQueue).spawnQueue
    rw [hfirst.spawnQueue]
    exact hk

/-- Whether the context is prepared does not change, and if it is, the queues are worked off. -/
theorem readied_emptied (hr : Readied s sending t) :
    t.prepared = s.prepared ∧ (s.prepared = true → s.session = true → Emptied s t) := by
  cases hr with
  | missing hmissing => exact ⟨rfl, fun hp hs => absurd ⟨hp, hs⟩ hmissing⟩
  | ready hp hs =>
    have hfirst := Keeps.applyAll (s := { s with sealTime := minSealTime }) sending s.spoolQueue
    have hsecond := Keeps.applyAll (s := applySpool { s with sealTime := minSealTime } sending)
      sending (applySpool { s with sealTime := minSealTime } sending).spawnQueue
    have he := applied_emptied (s := { s with sealTime := minSealTime }) sending
    exact ⟨hsecond.prepared.trans hfirst.prepared,
      fun _ _ => ⟨he.spoolQueue, he.spawnQueue, he.handled⟩⟩

theorem onConnect_emptied (ec : ErrorCode) (sending : Nat → Sending) :
    (s.onConnect ec sending).prepared = s.prepared ∧
      (s.prepared = true → Emptied s (s.onConnect ec sending)) := by
  simp only [onConnect]
  split
  · obtain ⟨hp, he⟩ := readied_emptied (readied (s := { s with
      connecting := false, connectTimer := s.connectTimer.cancel, session := true }) sending)
    refine ⟨hp, fun hprepared => ?_⟩
    have he := he hprepared rfl
    exact ⟨he.spoolQueue, he.spawnQueue, he.handled⟩
  · have he := onFail_emptied (s := { s with
      connecting := false, connectTimer := s.connectTimer.cancel }) ec
    refine ⟨?_, fun _ => ⟨he.spoolQueue, he.spawnQueue, he.handled⟩⟩
    have hfirst := Keeps.failAll (s := { s with
      connecting := false, connectTimer := s.connectTimer.cancel, lastFailed := s.now
      sealTime := min (s.sealTime * 2) maxSealTime }) ec s.spoolQueue
    exact (Keeps.failAll ec _).prepared.trans hfirst.prepared

/-! ## Every run -/

/-- A request that is queued in a prepared context finds a connection under way, or one may be
started; and so does the preparation, if requests are queued. -/
def Unsealed (s : Inner) : Label → Prop
  | .process _ _ => s.prepared = true →
    s.session = true ∨ s.connecting = true ∨ s.lastFailed + s.sealTime ≤ s.now
  | .prepare _ =>
    s.session = true ∨ s.connecting = true ∨ s.spoolQueue = [] ∧ s.spawnQueue = []
  | .request _ | .metrics _ | .expire | .timeout | .connected _ _ | .cancel _ _ | .receive _ _
  | .tick _ => True

instance (s : Inner) : (a : Label) → Decidable (s.Unsealed a)
  | .process _ _ => inferInstanceAs (Decidable (s.prepared = true →
    s.session = true ∨ s.connecting = true ∨ s.lastFailed + s.sealTime ≤ s.now))
  | .prepare _ => inferInstanceAs (Decidable
    (s.session = true ∨ s.connecting = true ∨ s.spoolQueue = [] ∧ s.spawnQueue = []))
  | .request _ | .metrics _ | .expire | .timeout | .connected _ _ | .cancel _ _ | .receive _ _
  | .tick _ => inferInstanceAs (Decidable True)

/-- A queue is empty unless a connection is under way. -/
def Attended (s : Inner) : Prop :=
  s.prepared = true → s.connecting = false → s.spoolQueue = [] ∧ s.spawnQueue = []

theorem Keeps.attended (hk : Keeps s t) (h : Attended s) : Attended t := by
  intro hp hc
  have hc' : s.connecting = false := by
    cases hconn : s.connecting with
    | false => rfl
    | true => exact (hk.connecting hconn).symm.trans hc
  rw [hk.spoolQueue, hk.spawnQueue]
  exact h (hk.prepared ▸ hp) hc'

theorem connecting_connect (h : s.connecting = true ∨ s.lastFailed + s.sealTime ≤ s.now) :
    s.connect.connecting = true := by
  simp only [connect]
  split
  · assumption
  · rename_i hc
    rw [if_neg (Nat.not_lt.mpr (h.resolve_left hc))]

theorem enqueue_eq (k : Nat) :
    ∃ spool spawn, s.enqueue k = { s with spoolQueue := spool, spawnQueue := spawn } := by
  simp only [enqueue]
  split
  · exact ⟨_, _, rfl⟩
  · exact ⟨_, _, rfl⟩

namespace Attended

theorem process (h : Attended s) {k : Nat} {sending : Sending}
    (hok : s.Unsealed (.process k sending)) : Attended (s.process k sending) := by
  simp only [Inner.process]
  split
  · refine (Keeps.of_applied (applied k sending)).attended ?_
    exact h
  · rename_i hwait
    obtain ⟨spool, spawn, heq⟩ := enqueue_eq (s := { s with posted := s.posted.erase k }) k
    rw [heq]
    split
    · rename_i hp
      have hp : s.prepared = true := hp
      have hsession : ¬s.session = true := by
        intro hs
        simp [hs, hp] at hwait
      -- `connect` finds a connection under way, or starts one.
      have hc := connecting_connect (s := { s with
        posted := s.posted.erase k, spoolQueue := spool, spawnQueue := spawn })
        ((hok hp).resolve_left hsession)
      intro _ hc'
      rw [hc] at hc'
      cases hc'
    · rename_i hp
      intro hp'
      exact absurd hp' hp

theorem prepare (hok : s.Unsealed (.prepare sending))
    (hr : Readied { s with prepared := true } sending t) : Attended t := by
  have he := (readied_emptied hr).2 rfl
  cases hr with
  | ready _ hs => exact fun _ _ => ⟨(he hs).spoolQueue, (he hs).spawnQueue⟩
  | missing hmissing =>
    intro _ hc
    obtain hs | hconn | hempty := hok
    · exact absurd ⟨rfl, hs⟩ hmissing
    · exact absurd (hconn.symm.trans hc) (by decide)
    · exact hempty

theorem step (h : Attended s) {a : Label} (hok : s.Unsealed a)
    (hs : externalSystem.step s a = some t) : Attended t := by
  cases (stepped hs).2 with
  | prepare => exact prepare hok (readied _)
  | request | expire _ | tick => exact h
  | process hk => exact h.process hok
  | metrics => exact (Keeps.metrics _).attended h
  | timeout _ =>
    simp only [onTimeout]
    split
    · exact h
    · exact h
  | @connected ec sending _ =>
    obtain ⟨hp, he⟩ := onConnect_emptied (s := s) ec sending
    intro hp' _
    have he := he (hp.symm.trans hp')
    exact ⟨he.spoolQueue, he.spawnQueue⟩
  | cancel hk | receive _ _ _ => exact (Keeps.modify _ _).attended h

theorem of_reachable (hr : externalSystem.Reachable Unsealed s) : Attended s := by
  refine hr.induct (P := Attended) ?_ ?_
  · rintro s ⟨now, -, rfl⟩
    refine Keeps.connect.attended (s := { now }) ?_
    exact fun _ _ => ⟨rfl, rfl⟩
  · intro s a t h hok hs
    exact h.step hok hs

end Attended

/-- While a request is queued in a prepared context, a connection is under way, and its end
leaves no request in a queue: each is sent or has failed, unless it was cancelled. -/
theorem requests_attended (hr : externalSystem.Reachable Unsealed s) :
    (s.prepared = true → s.spoolQueue ≠ [] ∨ s.spawnQueue ≠ [] → s.connecting = true) ∧
      ∀ ec sending t, s.prepared = true →
        externalSystem.step s (.connected ec sending) = some t →
        t.spoolQueue = [] ∧ t.spawnQueue = [] ∧
          (t.crashed = false →
            ∀ k, k ∈ s.spoolQueue ∨ k ∈ s.spawnQueue → (t.loads k).Handled) := by
  refine ⟨fun hp hq => ?_, fun ec sending t hp hs => ?_⟩
  · cases hc : s.connecting with
    | true => rfl
    | false =>
      obtain ⟨hspool, hspawn⟩ := Attended.of_reachable hr hp hc
      exact hq.elim (absurd hspool) (absurd hspawn)
  · cases (stepped hs).2 with
    | connected _ =>
      have he := (onConnect_emptied ec sending).2 hp
      exact ⟨he.spoolQueue, he.spawnQueue, he.handled⟩

/-- A request waits for the first connection, which fails. -/
theorem requests_attended_first :
    ∃ s t, externalSystem.Reachable Unsealed s ∧ s.prepared = true ∧ s.spoolQueue = [0] ∧
      externalSystem.step s (.connected ⟨1, .asio⟩ fun _ => .sent) = some t ∧
      s.connecting = true ∧ t.spoolQueue = [] ∧ (t.loads 0).Handled := by
  obtain ⟨s, hr, hp, hq, hstep⟩ := externalSystem.exists_reachable Unsealed
    (P := fun s => s.prepared = true ∧ s.spoolQueue = [0] ∧
      ∃ t ∈ externalSystem.step s (.connected ⟨1, .asio⟩ fun _ => .sent), t.crashed = false)
    [.request .spool, .process 0 .sent, .prepare fun _ => .sent] ⟨1000, Nat.le_refl _, rfl⟩
    (by decide +kernel)
  obtain ⟨t, ht, hcrash⟩ := hstep
  obtain ⟨hconn, hend⟩ := requests_attended hr
  obtain ⟨hspool, -, hhandled⟩ := hend _ _ t hp ht
  exact ⟨s, t, hr, hp, hq, ht, hconn hp (.inl (by simp [hq])), hspool,
    hhandled hcrash 0 (.inl (by simp [hq]))⟩

/-- The first connection fails. A request right after it is queued while `connect` is sealed; and
one that came before the context was prepared stays where it is when that is done. -/
theorem request_stranded :
    (∃ s, externalSystem.Reachable System.Any s ∧ s.prepared = true ∧ s.spoolQueue = [0] ∧
        s.connecting = false) ∧
      ∃ s, externalSystem.Reachable System.Any s ∧ s.prepared = true ∧ s.spawnQueue = [0] ∧
        s.connecting = false ∧ s.lastFailed + s.sealTime ≤ s.now := by
  constructor
  · exact externalSystem.exists_reachable System.Any
      [.prepare fun _ => .sent, .connected ⟨1, .asio⟩ fun _ => .sent, .request .spool,
        .process 0 .sent] ⟨1000, Nat.le_refl _, rfl⟩ (by decide +kernel)
  · exact externalSystem.exists_reachable System.Any
      [.connected ⟨1, .asio⟩ fun _ => .sent, .tick 5000, .request .spawn, .process 0 .sent,
        .prepare fun _ => .sent] ⟨1000, Nat.le_refl _, rfl⟩ (by decide +kernel)

end Inner

end Cocaine.Isolate
