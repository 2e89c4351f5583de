import Mathlib.Data.List.Nodup
import CocainePlugins.Isolate.External

/-!
# One outcome a request

A load is in one place at a time: its handler is posted, or it is in a queue, or it has been
sent or has failed. It leaves the first two once, and a failure ends it there, so its handle is
told one outcome. Two things break this. The cancellation of a load that has had its outcome
fails to be sent, and is reported as another one; and a connection that is made when its time
is already over is reported as a failure with its code, which is that of a success.
-/

namespace Cocaine.Isolate

open Framework Node

/-- The calls of which a handle gets one: of a spool handle `on_ready` and `on_abort`, of a spawn
handle `on_terminate`. -/
def Call.outcome : Kind → Call → Bool
  | .spool, .onReady | .spool, .onAbort _ _ | .spawn, .onTerminate _ _ => true
  | .spool, _ | .spawn, _ => false

/-- An abort has a code, and a termination does unless the daemon has sent it. -/
def Call.Coded (origin : Origin) : Call → Prop
  | .onAbort ec _ => ec.failed = true
  | .onTerminate ec _ => origin = .failure → ec.failed = true
  | .onReady | .onData _ => True

namespace Load

variable {load : Load}

def outcomes (load : Load) : Nat := load.calls.countP fun c => c.2.outcome load.kind

/-- It has not been sent, and its handle has not been called. -/
structure Untouched (load : Load) : Prop where
  calls : load.calls = []
  sent : load.sent = false

structure Good (load : Load) : Prop where
  once : load.outcomes ≤ 1
  /-- The daemon still owes the outcome. -/
  owed : load.sent = true → load.answered = false → load.outcomes = 0
  coded : ∀ c ∈ load.calls, c.2.Coded c.1

theorem Untouched.good (h : load.Untouched) : load.Good := by
  refine ⟨?_, fun hs => ?_, ?_⟩
  · simp [outcomes, h.calls]
  · rw [h.sent] at hs
    cases hs
  · simp [h.calls]

theorem outcome_failure (kind : Kind) (ec : ErrorCode) (reason : Str) :
    (failure kind ec reason).outcome kind = true := by
  cases kind with
  | spool | spawn => rfl

theorem coded_failure (kind : Kind) {ec : ErrorCode} (hec : ec.failed = true) (reason : Str)
    (origin : Origin) : (failure kind ec reason).Coded origin := by
  cases kind with
  | spool => exact hec
  | spawn => exact fun _ => hec

theorem Untouched.fail (h : load.Untouched) {ec : ErrorCode} (hec : ec.failed = true)
    (reason : Str) : (load.fail ec reason).Good where
  once := by simp [outcomes, Load.fail, h.calls, outcome_failure]
  owed hs := absurd (h.sent.symm.trans hs) (by decide)
  coded c hc := by
    simp only [Load.fail, h.calls, List.mem_singleton] at hc
    subst hc
    exact coded_failure load.kind hec reason _

/-- A cancellation that is sent, or need not be. -/
theorem cancel_none (load : Load) : ∃ cancelled, load.cancel none = { load with cancelled } := by
  simp only [cancel]
  split
  · exact ⟨load.cancelled, rfl⟩
  · refine ⟨true, ?_⟩
    cases load.stream with
    | true | false => rfl

theorem outcomes_call (load : Load) (c : Call) :
    (load.call c).outcomes = load.outcomes + if c.outcome load.kind then 1 else 0 :=
  List.countP_cons

theorem Good.call (h : load.Good) (hs : load.sent = true) (ha : load.answered = false) (c : Call)
    (hc : c.Coded .reply) (ready answered : Bool)
    (hlast : c.outcome load.kind = true → answered = true) :
    Good { load.call c with ready, answered } := by
  have howed := h.owed hs ha
  have hcount := load.outcomes_call c
  rw [howed, Nat.zero_add] at hcount
  refine ⟨?_, fun _ ha' => ?_, ?_⟩
  · show (load.call c).outcomes ≤ 1
    rw [hcount]
    split <;> omega
  · show (load.call c).outcomes = 0
    rw [hcount, if_neg]
    intro hout
    exact absurd ((hlast hout).symm.trans ha') (by decide)
  · intro x hx
    cases hx with
    | head => exact hc
    | tail _ hx => exact h.coded x hx

theorem Good.receive (h : load.Good) (hs : load.sent = true) (ha : load.answered = false)
    {reply : Reply} {load' : Load} (hr : load.receive reply = some load')
    (hcode : ∀ ec reason, reply = .error ec reason → load.kind = .spool → ec.failed = true) :
    load'.Good := by
  cases reply with
  | value =>
    simp only [Load.receive] at hr
    split at hr
    · cases hr
      exact h.call hs ha .onReady trivial load.ready true fun _ => rfl
    · cases hr
  | chunk data =>
    simp only [Load.receive] at hr
    split at hr
    · cases hr
    · rename_i hkind
      split at hr <;> cases hr
      · exact h.call hs ha .onReady trivial true load.answered (by simp [hkind, Call.outcome])
      · exact h.call hs ha (.onData data) trivial load.ready load.answered
          (by simp [hkind, Call.outcome])
  | choke =>
    simp only [Load.receive] at hr
    split at hr
    · cases hr
    · cases hr
      exact h.call hs ha (.onTerminate .success []) (by rintro ⟨⟩) load.ready true fun _ => rfl
  | error ec reason =>
    cases hr
    refine h.call hs ha _ ?_ load.ready true fun _ => rfl
    cases hkind : load.kind with
    | spool => exact hcode ec reason rfl hkind
    | spawn => rintro ⟨⟩

end Load

namespace Inner

variable {s t : Inner} {ws : List Nat}

/-! ## Where the loads are -/

/-- The loads `ws` are still to be sent. -/
structure Tidy (ws : List Nat) (s : Inner) : Prop where
  nodup : ws.Nodup
  made : ∀ k ∈ ws, k < s.made
  waiting : ∀ k ∈ ws, (s.loads k).Untouched
  fresh : ∀ k, s.made ≤ k → (s.loads k).Untouched
  good : ∀ k, (s.loads k).Good

/-- The loads whose handler is posted, and those in the queues. -/
def waiting (s : Inner) : List Nat := s.posted ++ (s.spoolQueue ++ s.spawnQueue)

namespace Tidy

theorem sublist {ws' : List Nat} (h : Tidy ws s) (hsub : ws'.Sublist ws) : Tidy ws' s :=
  ⟨h.nodup.sublist hsub, fun k hk => h.made k (hsub.subset hk),
    fun k hk => h.waiting k (hsub.subset hk), h.fresh, h.good⟩

theorem perm {ws' : List Nat} (h : Tidy ws s) (hp : ws.Perm ws') : Tidy ws' s :=
  ⟨hp.nodup_iff.mp h.nodup, fun k hk => h.made k (hp.mem_iff.mpr hk),
    fun k hk => h.waiting k (hp.mem_iff.mpr hk), h.fresh, h.good⟩

theorem congr (h : Tidy ws s) (hl : t.loads = s.loads) (hm : t.made = s.made) : Tidy ws t :=
  ⟨h.nodup, hm ▸ h.made, hl ▸ h.waiting, hl ▸ hm ▸ h.fresh, hl ▸ h.good⟩

theorem connect (h : Tidy ws s) : Tidy ws s.connect :=
  h.congr loads_connect Keeps.connect.made

theorem modify (h : Tidy ws s) {k : Nat} (hk : k ∉ ws) (hm : k < s.made) {f : Load → Load}
    (hf : (f (s.loads k)).Good) : Tidy ws (s.modify k f) where
  nodup := h.nodup
  made := h.made
  waiting j hj := by
    rw [loads_modify_ne (ne_of_mem_of_not_mem hj hk)]
    exact h.waiting j hj
  fresh j hj := by
    have hjk : j ≠ k := by
      rintro rfl
      exact absurd hm (Nat.not_lt.mpr hj)
    rw [loads_modify_ne hjk]
    exact h.fresh j hj
  good j := by
    by_cases hjk : j = k
    · rw [hjk, loads_modify_self]
      exact hf
    · rw [loads_modify_ne hjk]
      exact h.good j

theorem fail {k : Nat} (h : Tidy (k :: ws) s) {f : Load → Load}
    (hf : (s.loads k).Untouched → (f (s.loads k)).Good) : Tidy ws (s.modify k f) :=
  (h.sublist (List.sublist_cons_self k ws)).modify (List.nodup_cons.mp h.nodup).1
    (h.made k List.mem_cons_self) (hf (h.waiting k List.mem_cons_self))

theorem applied {k : Nat} (h : Tidy (k :: ws) s) (ha : Applied s k t) : Tidy ws t := by
  have htail := h.sublist (List.sublist_cons_self k ws)
  cases ha with
  | cancelled _ => exact htail
  | crashed => exact htail.congr rfl rfl
  | sent =>
    refine h.fail fun hu => ⟨?_, fun _ _ => ?_, ?_⟩
    · simp [Load.outcomes, hu.calls]
    · simp [Load.outcomes, hu.calls]
    · simp [hu.calls]
  | threw e stream =>
    refine (h.fail fun hu => ?_).connect
    have hu' : Load.Untouched { s.loads k with stream := stream (s.loads k) } := ⟨hu.calls, hu.sent⟩
    exact hu'.fail e.failed _

theorem applyAll {sending : Nat → Sending} {ks : List Nat} (h : Tidy (ks ++ ws) s) :
    Tidy ws (s.applyAll sending ks) := by
  induction ks generalizing s with
  | nil => exact h
  | cons k ks ih =>
    simp only [Inner.applyAll]
    split
    · exact h.sublist (List.sublist_append_right _ _)
    · exact ih (h.applied (Inner.applied k (sending k)))

theorem failAll {ec : ErrorCode} (hec : ec.failed = true) {ks : List Nat} (h : Tidy (ks ++ ws) s) :
    Tidy ws (s.failAll ec ks) := by
  induction ks generalizing s with
  | nil => exact h
  | cons k ks ih =>
    refine ih (s := s.modify k _) ?_
    exact Tidy.fail h fun hu => hu.fail hec _

end Tidy

/-- Every load that is still to be sent is waiting. -/
def Settled (s : Inner) : Prop := Tidy s.waiting s

namespace Settled

theorem of_keeps (hk : Keeps s t) (h : Tidy s.waiting t) : Settled t := by
  have hw : t.waiting = s.waiting := by
    simp only [waiting, hk.posted, hk.spoolQueue, hk.spawnQueue]
  rw [Settled, hw]
  exact h

theorem clearSpool (hk : Keeps s t) (h : Tidy (s.posted ++ s.spawnQueue) t) :
    Settled t.clearSpool := by
  have hw : t.clearSpool.waiting = s.posted ++ s.spawnQueue := by
    simp [waiting, Inner.clearSpool, hk.posted, hk.spawnQueue]
  rw [Settled, hw]
  exact h.congr rfl rfl

theorem clearSpawn (hk : Keeps s t) (h : Tidy (s.posted ++ s.spoolQueue) t) :
    Settled t.clearSpawn := by
  have hw : t.clearSpawn.waiting = s.posted ++ s.spoolQueue := by
    simp [waiting, Inner.clearSpawn, hk.posted, hk.spoolQueue]
  rw [Settled, hw]
  exact h.congr rfl rfl

/-- The spool queue first, or the spawn queue. -/
theorem spoolFirst (h : Settled s) : Tidy (s.spoolQueue ++ (s.posted ++ s.spawnQueue)) s := by
  refine Tidy.perm h ?_
  simp only [waiting, ← List.append_assoc]
  exact List.perm_append_comm.append_right _

theorem spawnFirst (h : Settled s) : Tidy (s.spawnQueue ++ (s.posted ++ s.spoolQueue)) s := by
  refine Tidy.perm h ?_
  simp only [waiting, ← List.append_assoc]
  exact List.perm_append_comm.trans (by simp)

theorem readied {sending : Nat → Sending} (h : Settled s) (hr : Readied s sending t) :
    Settled t := by
  have hseal : Settled { s with sealTime := minSealTime } := Tidy.congr h rfl rfl
  cases hr with
  | missing _ => exact hseal
  | ready _ _ =>
    have hspool : Settled (applySpool { s with sealTime := minSealTime } sending) :=
      clearSpool (.applyAll sending _) hseal.spoolFirst.applyAll
    exact clearSpawn (.applyAll sending _) hspool.spawnFirst.applyAll

theorem onFail (h : Settled s) {ec : ErrorCode} (hec : ec.failed = true) : Settled (s.onFail ec) := by
  have hseal : Settled { s with
      lastFailed := s.now, sealTime := min (s.sealTime * 2) maxSealTime } := Tidy.congr h rfl rfl
  have hspool := clearSpool (.failAll ec _) (hseal.spoolFirst.failAll hec)
  exact clearSpawn (.failAll ec _) (hspool.spawnFirst.failAll hec)

theorem onConnect (h : Settled s) {ec : ErrorCode}
    (hok : ec.failed = false → s.connectTimer.armed = true) (sending : Nat → Sending) :
    Settled (s.onConnect ec sending) := by
  have hended : Settled { s with
      connecting := false, connectTimer := s.connectTimer.cancel } := Tidy.congr h rfl rfl
  simp only [Inner.onConnect]
  split
  · have hsession : Settled { s with
        connecting := false, connectTimer := s.connectTimer.cancel, session := true } :=
      Tidy.congr h rfl rfl
    exact hsession.readied (Inner.readied sending)
  · rename_i hlate
    refine hended.onFail ?_
    -- With no error the timer was cancelled, and the connection is there.
    cases hec : ec.failed with
    | true => rfl
    | false => exact absurd ⟨by simp [hok hec], hec⟩ hlate

theorem request (h : Settled s) (kind : Kind) : Settled (s.request kind) := by
  have hnew : s.made ∉ s.waiting := fun hmem => Nat.lt_irrefl _ (h.made s.made hmem)
  have hloads (k : Nat) (hk : k ≠ s.made) : (s.request kind).loads k = s.loads k :=
    Function.update_of_ne hk _ _
  have hfresh : ((s.request kind).loads s.made).Untouched := by
    simp only [Inner.request, Function.update_self]
    exact ⟨rfl, rfl⟩
  have hperm : (s.made :: s.waiting).Perm (s.request kind).waiting := by
    simp only [waiting, Inner.request, List.append_assoc, List.singleton_append]
    exact List.perm_middle.symm
  refine Tidy.perm ⟨List.nodup_cons.mpr ⟨hnew, h.nodup⟩, fun k hk => ?_, fun k hk => ?_,
    fun k hk => ?_, fun k => ?_⟩ hperm
  · cases hk with
    | head => exact Nat.lt_succ_self _
    | tail _ hk => exact Nat.lt_succ_of_lt (h.made k hk)
  · cases hk with
    | head => exact hfresh
    | tail _ hk =>
      rw [hloads k (ne_of_mem_of_not_mem hk hnew)]
      exact h.waiting k hk
  · have hk : s.made + 1 ≤ k := hk
    rw [hloads k (by omega)]
    exact h.fresh k (by omega)
  · by_cases hk : k = s.made
    · rw [hk]
      exact hfresh.good
    · rw [hloads k hk]
      exact h.good k

theorem enqueue {k : Nat} (h : Tidy (k :: s.waiting) s) : Settled (s.enqueue k) := by
  simp only [Inner.enqueue]
  split
  · refine (h.perm ?_).congr rfl rfl
    simp only [waiting, List.append_assoc, List.singleton_append]
    rw [← List.append_assoc, ← List.append_assoc]
    exact List.perm_middle.symm
  · refine (h.perm ?_).congr rfl rfl
    simp only [waiting, ← List.append_assoc]
    exact (List.perm_append_singleton k _).symm

theorem connect (h : Settled s) : Settled s.connect := of_keeps .connect (Tidy.connect h)

theorem process (h : Settled s) {k : Nat} (hk : k ∈ s.posted) (sending : Sending) :
    Settled (s.process k sending) := by
  have htaken : Tidy (k :: waiting { s with posted := s.posted.erase k })
      { s with posted := s.posted.erase k } := by
    refine (Tidy.perm h ?_).congr rfl rfl
    exact (List.perm_cons_erase hk).append_right _
  simp only [Inner.process]
  split
  · have happlied := Inner.applied (s := { s with posted := s.posted.erase k }) k sending
    exact of_keeps (.of_applied happlied) (htaken.applied happlied)
  · split
    · exact (enqueue htaken).connect
    · exact enqueue htaken

/-- A load is changed that the daemon has, or a cancellation is sent. -/
theorem receive (h : Settled s) {k : Nat} (hs : (s.loads k).sent = true) {load : Load}
    (hl : load.Good) : Settled (s.modify k fun _ => load) := by
  have hk : k ∉ s.waiting := by
    intro hmem
    exact absurd (hs.symm.trans (h.waiting k hmem).sent) (by decide)
  have hm : k < s.made := by
    refine Nat.lt_of_not_le fun hle => ?_
    exact absurd (hs.symm.trans (h.fresh k hle).sent) (by decide)
  exact of_keeps (.modify k _) (Tidy.modify h hk hm hl)

theorem cancel (h : Settled s) (k : Nat) : Settled (s.modify k fun load => load.cancel none) := by
  have hl (j : Nat) : ∃ cancelled,
      (s.modify k fun load => load.cancel none).loads j = { s.loads j with cancelled } := by
    by_cases hj : j = k
    · rw [hj, loads_modify_self]
      exact Load.cancel_none _
    · rw [loads_modify_ne hj]
      exact ⟨_, rfl⟩
  refine of_keeps (.modify k _) ⟨h.nodup, h.made, fun j hj => ?_, fun j hj => ?_, fun j => ?_⟩
  · obtain ⟨cancelled, heq⟩ := hl j
    rw [heq]
    exact ⟨(h.waiting j hj).calls, (h.waiting j hj).sent⟩
  · obtain ⟨cancelled, heq⟩ := hl j
    rw [heq]
    exact ⟨(h.fresh j hj).calls, (h.fresh j hj).sent⟩
  · obtain ⟨cancelled, heq⟩ := hl j
    rw [heq]
    exact ⟨(h.good j).once, (h.good j).owed, (h.good j).coded⟩

end Settled

/-! ## Every run -/

/-- No connection is made when its time is over, every cancellation is sent, and the daemon aborts
with a code. -/
def Orderly (s : Inner) : Label → Prop
  | .connected ec _ => ec.failed = false → s.connectTimer.armed = true
  | .cancel _ throws => throws.isNone = true
  | .receive k (.error ec _) => (s.loads k).kind = .spool → ec.failed = true
  | .receive _ .value | .receive _ (.chunk _) | .receive _ .choke => True
  | .prepare _ | .request _ | .process _ _ | .metrics _ | .expire | .timeout | .tick _ => True

instance (s : Inner) (a : Label) : Decidable (s.Orderly a) := by
  unfold Orderly
  split <;> infer_instance

theorem Settled.step (h : Settled s) {a : Label} (hok : s.Orderly a)
    (hs : externalSystem.step s a = some t) : Settled t := by
  cases (stepped hs).2 with
  | @prepare sending =>
    have hp : Settled { s with prepared := true } := Tidy.congr h rfl rfl
    exact hp.readied (Inner.readied sending)
  | request => exact h.request _
  | process hk => exact h.process hk _
  | @metrics sending =>
    cases sending with
    | sent | forkThrows e | sendThrows e =>
      simp only [metrics]
      split
      · exact h.connect
      · exact h
  | expire _ | tick => exact Tidy.congr h rfl rfl
  | timeout _ =>
    simp only [onTimeout]
    split
    · exact Tidy.congr h rfl rfl
    · exact Tidy.congr h rfl rfl
  | connected _ => exact h.onConnect hok _
  | @cancel k throws hk =>
    obtain rfl := Option.isNone_iff_eq_none.mp hok
    exact h.cancel k
  | @receive k reply load hsent hopen hreceived =>
    refine h.receive hsent ((h.good k).receive hsent hopen hreceived ?_)
    rintro ec reason rfl
    exact hok

theorem Settled.of_reachable (hr : externalSystem.Reachable Orderly s) : Settled s := by
  refine hr.induct (P := Settled) ?_ ?_
  · rintro s ⟨now, -, rfl⟩
    refine connect (s := { now }) ?_
    exact ⟨List.nodup_nil, by simp [waiting], by simp [waiting], fun _ _ => ⟨rfl, rfl⟩,
      fun _ => Load.Untouched.good ⟨rfl, rfl⟩⟩
  · intro s a t h hok hs
    exact h.step hok hs

/-- A handle is told one outcome, and its failures have a code. -/
theorem one_outcome (hr : externalSystem.Reachable Orderly s) (k : Nat) :
    (s.loads k).outcomes ≤ 1 ∧ ∀ c ∈ (s.loads k).calls, c.2.Coded c.1 :=
  have h := (Settled.of_reachable hr).good k
  ⟨h.once, h.coded⟩

/-- A worker is spawned, writes something and ends, and its handle goes. -/
theorem one_outcome_spawn :
    ∃ s, externalSystem.Reachable Orderly s ∧
      (s.loads 0).calls = [(.reply, .onTerminate .success []), (.reply, .onData "out".toList),
        (.reply, .onReady)] ∧ (s.loads 0).outcomes ≤ 1 := by
  obtain ⟨s, hr, hcalls⟩ := externalSystem.exists_reachable Orderly
    (P := fun s => (s.loads 0).calls = [(.reply, .onTerminate .success []),
      (.reply, .onData "out".toList), (.reply, .onReady)])
    [.prepare fun _ => .sent, .request .spawn, .process 0 .sent, .connected .success fun _ => .sent,
      .receive 0 (.chunk []), .receive 0 (.chunk "out".toList), .receive 0 .choke, .cancel 0 none]
    ⟨1000, Nat.le_refl _, rfl⟩ (by decide +kernel)
  exact ⟨s, hr, hcalls, (one_outcome hr 0).1⟩

/-- An application is spooled, and then the cancellation fails to be sent; a worker has ended, and
then it cannot be killed; and a connection is made when its time is over. -/
theorem outcome_repeated :
    (∃ s, externalSystem.Reachable System.Any s ∧
        (s.loads 0).kind = .spool ∧ (s.loads 0).outcomes = 2) ∧
      (∃ s, externalSystem.Reachable System.Any s ∧
        (s.loads 0).kind = .spawn ∧ (s.loads 0).outcomes = 2) ∧
      ∃ s, externalSystem.Reachable System.Any s ∧
        (s.loads 0).calls = [(.failure, .onAbort .success
          "could not connect to external dispatch".toList)] := by
  refine ⟨?_, ?_, ?_⟩
  · exact externalSystem.exists_reachable System.Any
      [.prepare fun _ => .sent, .request .spool, .process 0 .sent, .connected .success fun _ => .sent,
        .receive 0 .value, .cancel 0 (some { code := ⟨1, .asio⟩, failed := rfl })]
      ⟨1000, Nat.le_refl _, rfl⟩ (by decide +kernel)
  · exact externalSystem.exists_reachable System.Any
      [.prepare fun _ => .sent, .request .spawn, .process 0 .sent, .connected .success fun _ => .sent,
        .receive 0 .choke, .cancel 0 (some { code := ⟨1, .asio⟩, failed := rfl })]
      ⟨1000, Nat.le_refl _, rfl⟩ (by decide +kernel)
  · exact externalSystem.exists_reachable System.Any
      [.prepare fun _ => .sent, .request .spool, .process 0 .sent, .expire,
        .connected .success fun _ => .sent] ⟨1000, Nat.le_refl _, rfl⟩ (by decide +kernel)

end Inner

end Cocaine.Isolate
