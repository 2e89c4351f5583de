import CocainePlugins.Isolate.Stranded

/-!
# The queues are worked off

`on_ready` applies the queued loads one after the other. A load that cannot be sent gives the
session up and connects anew inside the loop, so that the next load finds a null pointer, unless
`connect` does nothing: it is sealed for a second after a failure. `withSession_iff` says for
which queues the session is there throughout, and `served_applyAll` that then every load is sent
or its handle is told.
-/

namespace Cocaine.Isolate

open Framework Node

/-- The request is not sent. -/
def Sending.throws : Sending → Bool
  | .sent => false
  | .forkThrows _ | .sendThrows _ => true

/-- A load after some time: what it has been told and sent stays. -/
structure Load.Grows (load load' : Load) : Prop where
  cancelled : load'.cancelled = load.cancelled
  sent : load.sent = true → load'.sent = true
  calls : load.calls <:+ load'.calls

namespace Load.Grows

variable {load load' load'' : Load}

theorem refl : Grows load load := ⟨rfl, id, List.suffix_refl _⟩

theorem trans (h : Grows load load') (h' : Grows load' load'') : Grows load load'' :=
  ⟨h'.cancelled.trans h.cancelled, fun hs => h'.sent (h.sent hs), h.calls.trans h'.calls⟩

theorem fail (stream : Bool) (ec : ErrorCode) (reason : Str) :
    Grows load ({ load with stream }.fail ec reason) :=
  ⟨rfl, id, List.suffix_cons ..⟩

end Load.Grows

namespace Inner

variable {s t u : Inner} {sending : Nat → Sending}

/-- The session is there whenever a load of the list is applied. -/
def WithSession (sending : Nat → Sending) : List Nat → Inner → Prop
  | [], _ => True
  | k :: ks, s => s.session = true ∧ WithSession sending ks (s.apply k (sending k))

/-- `connect` does nothing: a connection is under way, or it is sealed. -/
def Idle (s : Inner) : Prop := s.connecting = true ∨ s.now < s.lastFailed + s.sealTime

instance (s : Inner) : Decidable s.Idle := inferInstanceAs (Decidable (_ ∨ _))

/-- A load that nobody has cancelled cannot be sent. -/
def Fails (s : Inner) (sending : Nat → Sending) (k : Nat) : Prop :=
  (s.loads k).cancelled = false ∧ (sending k).throws = true

instance (s : Inner) (sending : Nat → Sending) (k : Nat) : Decidable (s.Fails sending k) :=
  inferInstanceAs (Decidable (_ ∧ _))

/-- The load has been sent, or its handle has been told that it failed, since `s`. -/
def Served (s t : Inner) (k : Nat) : Prop :=
  (t.loads k).sent = true ∨
  ∃ ec reason, (Origin.failure, Load.failure (s.loads k).kind ec reason) :: (s.loads k).calls <:+
    (t.loads k).calls

/-! ## One load -/

/-- What `apply` does while there is a session. -/
inductive Ran (s : Inner) (k : Nat) (sending : Sending) : Inner → Prop where
  | cancelled (cancelled : (s.loads k).cancelled = true) : Ran s k sending s
  | sent (cancelled : (s.loads k).cancelled = false) (throws : sending.throws = false) :
      Ran s k sending (s.modify k fun load => { load with stream := true, sent := true })
  | threw (cancelled : (s.loads k).cancelled = false) (throws : sending.throws = true)
      (e : SystemError) (stream : Load → Bool) :
      Ran s k sending (s.modify k fun load =>
        { load with stream := stream load }.fail e.code (Load.reason load.kind e)).connect

theorem apply_of_session {k : Nat} (hc : (s.loads k).cancelled = false) (hs : s.session = true)
    (sending : Sending) : s.apply k sending =
      match sending with
      | .sent => s.modify k fun load => { load with stream := true, sent := true }
      | .forkThrows e => (s.modify k fun load => load.fail e.code (Load.reason load.kind e)).connect
      | .sendThrows e =>
        (s.modify k fun load =>
          { load with stream := true }.fail e.code (Load.reason load.kind e)).connect := by
  have hwanted : ¬ (s.loads k).cancelled = true := by simp [hc]
  exact (if_neg hwanted).trans (if_neg (by simp [hs]))

theorem ran (hs : s.session = true) (k : Nat) (sending : Sending) :
    Ran s k sending (s.apply k sending) := by
  cases hc : (s.loads k).cancelled with
  | true =>
    have hskip : s.apply k sending = s := if_pos hc
    rw [hskip]
    exact .cancelled hc
  | false =>
    rw [apply_of_session hc hs]
    cases sending with
    | sent => exact .sent hc rfl
    | forkThrows e => exact .threw hc rfl e Load.stream
    | sendThrows e => exact .threw hc rfl e fun _ => true

theorem connect_of_idle (h : s.Idle) : s.connect = s := by
  unfold connect
  split
  · rfl
  · rename_i hconnecting
    rw [if_pos (h.resolve_left hconnecting)]

theorem session_connect (h : ¬ s.Idle) : s.connect.session = false := by
  rw [Idle, not_or] at h
  rw [connect, if_neg h.1, if_neg h.2]

theorem idle_modify (k : Nat) (f : Load → Load) : (s.modify k f).Idle ↔ s.Idle := Iff.rfl

section Run

variable {k : Nat} {sending : Sending}

/-- The session goes with a load that fails, unless `connect` does nothing. -/
theorem Ran.session (h : Ran s k sending t) (hs : s.session = true) :
    t.session = true ↔ s.Idle ∨ ¬ ((s.loads k).cancelled = false ∧ sending.throws = true) := by
  cases h with
  | cancelled hc => simp [hs, hc]
  | sent hc ht =>
    have hsession : (s.modify k fun load => { load with stream := true, sent := true }).session = true :=
      hs
    simp [hsession, ht]
  | threw hc ht e stream =>
    by_cases hidle : s.Idle
    · rw [connect_of_idle ((idle_modify k _).mpr hidle)]
      exact ⟨fun _ => .inl hidle, fun _ => hs⟩
    · rw [session_connect (fun h => hidle ((idle_modify k _).mp h))]
      simp [hidle, hc, ht]

theorem Ran.idle (h : Ran s k sending t) (ht : t.session = true) : t.Idle ↔ s.Idle := by
  cases h with
  | cancelled _ | sent _ _ => exact Iff.rfl
  | threw _ _ e stream =>
    by_cases hidle : s.Idle
    · rw [connect_of_idle ((idle_modify k _).mpr hidle)]
      exact Iff.rfl
    · rw [session_connect (fun h => hidle ((idle_modify k _).mp h))] at ht
      cases ht

theorem Ran.grows (h : Ran s k sending t) (j : Nat) : (s.loads j).Grows (t.loads j) := by
  cases h with
  | cancelled _ => exact .refl
  | sent _ _ =>
    by_cases hj : j = k
    · rw [hj, loads_modify_self]
      exact ⟨rfl, fun _ => rfl, List.suffix_refl _⟩
    · rw [loads_modify_ne hj]
      exact .refl
  | threw _ _ e stream =>
    rw [loads_connect]
    by_cases hj : j = k
    · rw [hj, loads_modify_self]
      exact .fail ..
    · rw [loads_modify_ne hj]
      exact .refl

theorem Ran.served (h : Ran s k sending t) (hc : (s.loads k).cancelled = false) : Served s t k := by
  cases h with
  | cancelled hcancelled =>
    rw [hc] at hcancelled
    cases hcancelled
  | sent _ _ =>
    left
    rw [loads_modify_self]
  | threw _ _ e stream =>
    right
    rw [loads_connect, loads_modify_self]
    exact ⟨_, _, List.suffix_refl _⟩

theorem Ran.loads_of_ne {j : Nat} (h : Ran s k sending t) (hj : j ≠ k) : t.loads j = s.loads j := by
  cases h with
  | cancelled _ => rfl
  | sent _ _ => exact loads_modify_ne hj _
  | threw _ _ e stream =>
    rw [loads_connect]
    exact loads_modify_ne hj _

theorem Ran.crashed (h : Ran s k sending t) : t.crashed = s.crashed := by
  cases h with
  | cancelled _ | sent _ _ => rfl
  | threw _ _ e stream =>
    unfold connect
    split
    · rfl
    · split <;> rfl

end Run

/-! ## The loops -/

variable {ks : List Nat}

theorem withSession_iff (hs : s.session = true) :
    WithSession sending ks s ↔ s.Idle ∨ ∀ k ∈ ks.dropLast, ¬ s.Fails sending k := by
  induction ks generalizing s with
  | nil => simp [WithSession]
  | cons k ks ih =>
    have hran := ran hs k (sending k)
    have hnext := hran.session hs
    simp only [WithSession, hs, true_and]
    cases ks with
    | nil => simp [WithSession]
    | cons j ks =>
      rw [List.dropLast_cons_cons, List.forall_mem_cons, or_and_left]
      by_cases hsession : (s.apply k (sending k)).session = true
      · have hfails : ∀ i, (s.apply k (sending k)).Fails sending i ↔ s.Fails sending i :=
          fun i => by rw [Fails, (hran.grows i).cancelled, Fails]
        have hk : s.Idle ∨ ¬ s.Fails sending k := hnext.mp hsession
        rw [ih hsession, hran.idle hsession]
        simp only [hfails]
        exact (and_iff_right hk).symm
      · have hlost : ¬ (s.Idle ∨ ¬ s.Fails sending k) := fun h => hsession (hnext.mpr h)
        have hnone : ¬ WithSession sending (j :: ks) (s.apply k (sending k)) :=
          fun h => hsession h.1
        exact iff_of_false hnone fun h => hlost h.1

/-- A loop that has its session does not crash. -/
theorem applyAll_cons {k : Nat} (hc : s.crashed = false) :
    s.applyAll sending (k :: ks) = (s.apply k (sending k)).applyAll sending ks := by
  simp only [applyAll, hc, Bool.false_eq_true, if_false]

theorem grows_applyAll (h : WithSession sending ks s) (hc : s.crashed = false)
    (j : Nat) : (s.loads j).Grows ((s.applyAll sending ks).loads j) := by
  induction ks generalizing s with
  | nil => exact .refl
  | cons k ks ih =>
    have hran := ran h.1 k (sending k)
    rw [applyAll_cons hc]
    exact (hran.grows j).trans (ih h.2 (hran.crashed.trans hc))

/-- Every load that is applied with a session is sent, or its handle is told. -/
theorem served_applyAll (h : WithSession sending ks s) (hc : s.crashed = false) :
    ∀ j ∈ ks, (s.loads j).cancelled = false → Served s (s.applyAll sending ks) j := by
  induction ks generalizing s with
  | nil => simp
  | cons k ks ih =>
    intro j hj hcancelled
    have hran := ran h.1 k (sending k)
    have hnext := hran.crashed.trans hc
    rw [applyAll_cons hc]
    by_cases hjk : j = k
    · subst hjk
      have hgrows := grows_applyAll h.2 hnext j
      exact (hran.served hcancelled).imp hgrows.sent
        fun ⟨ec, reason, hcalls⟩ => ⟨ec, reason, hcalls.trans hgrows.calls⟩
    · have hsame := hran.loads_of_ne hjk
      have hserved := ih h.2 hnext j ((List.mem_cons.mp hj).resolve_left hjk)
        (by rw [hsame]; exact hcancelled)
      rwa [Served, hsame] at hserved

/-! ## Between the loops the spool queue is cleared, which `apply` does not notice -/

theorem modify_clearSpool (k : Nat) (f : Load → Load) :
    s.clearSpool.modify k f = (s.modify k f).clearSpool := rfl

theorem connect_clearSpool : s.clearSpool.connect = s.connect.clearSpool := by
  by_cases h : s.Idle
  · rw [connect_of_idle h]
    exact connect_of_idle h
  · rw [Idle, not_or] at h
    rw [connect, connect, if_neg h.1, if_neg h.2]
    exact (if_neg h.1).trans (if_neg h.2)

theorem apply_clearSpool (k : Nat) (x : Sending) :
    s.clearSpool.apply k x = (s.apply k x).clearSpool := by
  cases hc : (s.loads k).cancelled with
  | true =>
    have hskip : s.apply k x = s := if_pos hc
    rw [hskip]
    exact if_pos hc
  | false =>
    have hwanted : ¬ (s.loads k).cancelled = true := by simp [hc]
    cases hs : s.session with
    | true =>
      rw [apply_of_session hc hs, apply_of_session (s := s.clearSpool) hc hs]
      cases x with
      | sent => rfl
      | forkThrows e | sendThrows e =>
        dsimp only
        rw [modify_clearSpool, connect_clearSpool]
    | false =>
      have hcrash : s.apply k x = { s with crashed := true } :=
        (if_neg hwanted).trans (if_pos (by simp [hs]))
      rw [hcrash]
      exact (if_neg hwanted).trans (if_pos (by simp [clearSpool, hs]))

theorem applyAll_clearSpool (ks : List Nat) :
    s.clearSpool.applyAll sending ks = (s.applyAll sending ks).clearSpool := by
  induction ks generalizing s with
  | nil => rfl
  | cons k ks ih =>
    cases hc : s.crashed with
    | true => rw [applyAll_crashed hc, applyAll_crashed (s := s.clearSpool) hc]
    | false =>
      rw [applyAll_cons hc, applyAll_cons (s := s.clearSpool) hc, apply_clearSpool, ih]

theorem applyAll_append (ks ls : List Nat) :
    s.applyAll sending (ks ++ ls) = (s.applyAll sending ks).applyAll sending ls := by
  induction ks generalizing s with
  | nil => rfl
  | cons k ks ih =>
    simp only [List.cons_append, applyAll]
    split
    · rename_i hc
      rw [applyAll_crashed hc]
    · exact ih

/-- The queued loads, in the order in which they are applied. -/
def queued (s : Inner) : List Nat := s.spoolQueue ++ s.spawnQueue

/-- `on_ready` is one loop over both queues. -/
theorem onReady_eq (hp : s.prepared = true) (hs : s.session = true) :
    s.onReady sending =
      (applyAll sending s.queued { s with sealTime := minSealTime }).clearSpool.clearSpawn := by
  have hspawn : (applySpool { s with sealTime := minSealTime } sending).spawnQueue = s.spawnQueue :=
    (Keeps.applyAll sending s.spoolQueue).spawnQueue
  have hready : s.onReady sending =
      (applySpool { s with sealTime := minSealTime } sending).applySpawn sending := by
    simp [onReady, hp, hs]
  rw [hready, applySpawn, hspawn, applySpool, applyAll_clearSpool, queued, applyAll_append]

/-- While the queues are worked off, the session is there whenever a load is applied and no load is
lost, exactly if `connect` does nothing or only the last load fails to be sent. -/
theorem drain_loses_nothing_iff (hcrashed : s.crashed = false) (hp : s.prepared = true)
    (hs : s.session = true) :
    (WithSession sending s.queued { s with sealTime := minSealTime } ∧
      ∀ k ∈ s.queued, (s.loads k).cancelled = false → Served s (s.onReady sending) k) ↔
    s.connecting = true ∨ s.now < s.lastFailed + minSealTime ∨
      ∀ k ∈ s.queued.dropLast, ¬ s.Fails sending k := by
  have hsession : WithSession sending s.queued { s with sealTime := minSealTime } ↔ _ :=
    withSession_iff hs
  rw [← or_assoc]
  refine (and_iff_left_of_imp fun h => ?_).trans hsession
  rw [onReady_eq hp hs]
  exact served_applyAll h hcrashed

/-- A request is queued for an application and one for a worker, and one of them cannot be sent. -/
def onlyFails (j : Nat) : Nat → Sending := fun k =>
  if k = j then .sendThrows { code := ⟨1, .asio⟩, failed := rfl } else .sent

/-- The second of two queued requests cannot be sent; its handle is told. -/
theorem drain_loses_nothing_last :
    ∃ s, externalSystem.Reachable System.Any s ∧ s.queued = [0, 1] ∧
      Served s (onReady { s with prepared := true } (onlyFails 1)) 1 := by
  obtain ⟨s, hr, hq, hcrashed, hs, hwanted⟩ := externalSystem.exists_reachable System.Any
    (P := fun s => s.queued = [0, 1] ∧ s.crashed = false ∧ s.session = true ∧
      (s.loads 1).cancelled = false)
    [.request .spool, .request .spawn, .process 0 .sent, .process 1 .sent,
      .connected .success fun _ => .sent]
    ⟨1000, Nat.le_refl _, rfl⟩ (by decide +kernel)
  have hq' : queued { s with prepared := true } = [0, 1] := hq
  have hlast : ∀ k ∈ (queued { s with prepared := true }).dropLast,
      ¬ Fails { s with prepared := true } (onlyFails 1) k := by
    rw [hq']
    rintro k hk ⟨-, hthrows⟩
    rw [List.mem_singleton.mp hk] at hthrows
    cases hthrows
  obtain ⟨-, hserved⟩ := (drain_loses_nothing_iff (s := { s with prepared := true }) hcrashed rfl
    hs).mpr (.inr (.inr hlast))
  exact ⟨s, hr, hq, hserved 1 (by rw [hq']; decide) hwanted⟩

/-- The first of two queued requests cannot be sent: the second one finds no session, and its handle
is not told. -/
theorem drain_loses_request :
    ∃ s, externalSystem.Reachable System.Any s ∧ s.queued = [0, 1] ∧
      (s.loads 1).cancelled = false ∧
      (apply { s with prepared := true, sealTime := minSealTime } 0 (onlyFails 0 0)).session = false ∧
      (onReady { s with prepared := true } (onlyFails 0)).crashed = true ∧
      ((onReady { s with prepared := true } (onlyFails 0)).loads 1).sent = false ∧
      ((onReady { s with prepared := true } (onlyFails 0)).loads 1).calls = [] :=
  externalSystem.exists_reachable System.Any
    [.request .spool, .request .spawn, .process 0 .sent, .process 1 .sent,
      .connected .success fun _ => .sent]
    ⟨1000, Nat.le_refl _, rfl⟩ (by decide +kernel)

end Inner

end Cocaine.Isolate
