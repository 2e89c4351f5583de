import CocainePlugins.Framework.Transition
import CocainePlugins.Framework.Waits
import Mathlib.Logic.Function.Basic

/-!
# The timers of the chrono service

`chrono_t` keeps a table of timers by random numbers. A timer that fires once has the
interval zero, and `restart` starts the wait again with the interval: of a timer that
fires once it waits no time at all. A handler that is queued when its timer is set again
or removed runs all the same, and finds its timer by the number. `timers_fire` says what
holds in every run and what restarting must avoid. Times are in microseconds.
-/

namespace Cocaine.Chrono

open Framework

/-- `timer_desc_t`. The timer and the promise have the same number. -/
structure Desc where
  timer : Nat
  interval : Nat
  /-- The delay that the timer was made with. -/
  delay : Nat
deriving DecidableEq, Repr

/-- What is bound to `on_timer`, and the call that started the wait. -/
structure OnTimer where
  timerId : Nat
  started : Nat
  delay : Nat
deriving DecidableEq, Repr

inductive Entry where
  | notified (client : Nat)
  | cancelled (client : Nat)
deriving DecidableEq, Repr

structure Timers where
  now : Nat := 0
  table : Nat → Option Desc := fun _ => none
  made : Nat := 0
  waits : List (Wait OnTimer) := []
  gone : List Nat := []
  /-- What has happened, the latest first. -/
  log : List Entry := []

namespace Timers

variable (st : Timers)

def removeTimer (id : Nat) : Timers :=
  match st.table id with
  | none => st
  | some d => { st with
      table := Function.update st.table id none
      waits := Waits.abort st.waits d.timer }

/-- `expires_from_now` and `async_wait`. -/
def startWait (id : Nat) (d : Desc) (time : Nat) : Timers :=
  { st with waits :=
      { handler := { timerId := id, started := st.now, delay := d.delay }
        timer := d.timer, due := st.now + time } :: Waits.abort st.waits d.timer }

def notify (client : Nat) : Timers := { st with log := .notified client :: st.log }

/-- A new timer, put in the table and started. -/
def insert (id first interval : Nat) : Timers :=
  let d : Desc := { timer := st.made, interval := interval, delay := first }
  { st with table := Function.update st.table id (some d), made := st.made + 1 }.startWait id d first

/-- `set_timer_impl` with the number that it found; `throws` says that the number cannot
be written to the client. -/
def setTimerImpl (id first interval : Nat) (sendId throws : Bool) : Timers :=
  if sendId then
    if throws then (st.insert id first interval).removeTimer id
    else (st.insert id first interval).notify st.made
  else st.insert id first interval

/-- `restart`: a number that is not there throws. -/
def restart (id : Nat) : Timers :=
  match st.table id with
  | none => st
  | some d => st.startWait id d d.interval

def cancel (id : Nat) : Timers :=
  match st.table id with
  | none => st
  | some d => { st.removeTimer id with log := .cancelled d.timer :: st.log }

/-- `on_timer`; a client that has gone cannot be written to, and others may fail to be. -/
def onTimer (phase : Phase) (id : Nat) (throws : Bool) : Timers :=
  if phase = .aborted then st
  else
    match st.table id with
    | none => st
    | some d =>
      if throws || st.gone.contains d.timer then st.removeTimer id
      else if d.interval = 0 then (st.notify d.timer).removeTimer id
      else (st.notify d.timer).restart id

inductive Label where
  | tick (n : Nat)
  | notifyAfter (id time : Nat) (sendId throws : Bool)
  | notifyEvery (id time : Nat) (sendId throws : Bool)
  | restart (id : Nat)
  | cancel (id : Nat)
  | disconnect (client : Nat)
  /-- The time of a wait has come. -/
  | expire (i : Nat)
  /-- A handler that is queued runs. -/
  | handle (i : Nat) (throws : Bool)
deriving DecidableEq, Repr

def step (st : Timers) : Label → Option Timers
  | .tick n => some { st with now := st.now + n }
  | .notifyAfter id time sendId throws =>
    if st.table id = none ∧ 0 < time then some (st.setTimerImpl id time 0 sendId throws) else none
  | .notifyEvery id time sendId throws =>
    if st.table id = none ∧ 0 < time then some (st.setTimerImpl id time time sendId throws) else none
  | .restart id => some (st.restart id)
  | .cancel id => some (st.cancel id)
  | .disconnect client => some { st with gone := client :: st.gone }
  | .expire i =>
    match st.waits[i]? with
    | some w =>
      if w.pending ∧ w.due ≤ st.now then some { st with waits := Waits.expire st.waits i } else none
    | none => none
  | .handle i throws =>
    match st.waits[i]? with
    | some w =>
      if w.pending then none
      else some ({ st with waits := st.waits.eraseIdx i }.onTimer w.phase w.handler.timerId throws)
    | none => none

end Timers

def timersSystem : System Timers Timers.Label where
  init st := st = {}
  step := Timers.step

namespace Timers

/-! ## What a step does -/

inductive Stepped (st : Timers) : Label → Timers → Prop where
  | tick {n : Nat} : Stepped st (.tick n) { st with now := st.now + n }
  | disconnect {c : Nat} : Stepped st (.disconnect c) { st with gone := c :: st.gone }
  /-- The number is not there. -/
  | unknown {a : Label} : Stepped st a st
  | inserts {a : Label} {id first interval : Nat} : st.table id = none →
      interval = 0 ∨ interval = first → Stepped st a (st.insert id first interval)
  | sends {a : Label} {id first interval : Nat} : st.table id = none →
      interval = 0 ∨ interval = first → Stepped st a ((st.insert id first interval).notify st.made)
  | withdraws {a : Label} {id first interval : Nat} : st.table id = none →
      interval = 0 ∨ interval = first →
      Stepped st a ((st.insert id first interval).removeTimer id)
  | restart {id : Nat} {d : Desc} : st.table id = some d →
      Stepped st (.restart id) (st.startWait id d d.interval)
  | cancel {id : Nat} {d : Desc} : st.table id = some d →
      Stepped st (.cancel id) { st.removeTimer id with log := .cancelled d.timer :: st.log }
  | expire {i : Nat} {w : Wait OnTimer} : st.waits[i]? = some w → w.pending = true →
      w.due ≤ st.now → Stepped st (.expire i) { st with waits := Waits.expire st.waits i }
  /-- An aborted handler, or one whose timer is not there. -/
  | forgets {i : Nat} {w : Wait OnTimer} {throws : Bool} : st.waits[i]? = some w →
      w.phase = .aborted ∨ st.table w.handler.timerId = none →
      Stepped st (.handle i throws) { st with waits := st.waits.eraseIdx i }
  /-- The client cannot be written to. -/
  | breaks {i : Nat} {w : Wait OnTimer} {d : Desc} {throws : Bool} : st.waits[i]? = some w →
      w.phase = .fired → st.table w.handler.timerId = some d →
      Stepped st (.handle i throws)
        ({ st with waits := st.waits.eraseIdx i }.removeTimer w.handler.timerId)
  | finishes {i : Nat} {w : Wait OnTimer} {d : Desc} {throws : Bool} : st.waits[i]? = some w →
      w.phase = .fired → st.table w.handler.timerId = some d →
      Stepped st (.handle i throws)
        (({ st with waits := st.waits.eraseIdx i }.notify d.timer).removeTimer w.handler.timerId)
  | repeats {i : Nat} {w : Wait OnTimer} {d : Desc} {throws : Bool} : st.waits[i]? = some w →
      w.phase = .fired → st.table w.handler.timerId = some d → d.interval ≠ 0 →
      Stepped st (.handle i throws)
        (({ st with waits := st.waits.eraseIdx i }.notify d.timer).startWait
          w.handler.timerId d d.interval)

variable {st st' : Timers} {a : Label} {d : Desc} {id : Nat}

theorem restart_eq (h : st.table id = some d) :
    st.restart id = st.startWait id d d.interval := by
  rw [restart, h]

theorem removeTimer_eq (h : st.table id = some d) :
    st.removeTimer id = { st with
      table := Function.update st.table id none
      waits := Waits.abort st.waits d.timer } := by
  rw [removeTimer, h]

theorem stepped_setTimerImpl {id first interval : Nat} (hid : st.table id = none)
    (hi : interval = 0 ∨ interval = first) (sendId throws : Bool) :
    Stepped st a (st.setTimerImpl id first interval sendId throws) := by
  unfold setTimerImpl
  split
  · split
    · exact .withdraws hid hi
    · exact .sends hid hi
  · exact .inserts hid hi

theorem stepped_onTimer {i : Nat} {w : Wait OnTimer} (hw : st.waits[i]? = some w)
    (hp : ¬w.pending = true) (throws : Bool) : Stepped st (.handle i throws)
      ({ st with waits := st.waits.eraseIdx i }.onTimer w.phase w.handler.timerId throws) := by
  have hphase : w.phase = .fired ∨ w.phase = .aborted := by
    cases h : w.phase with
    | pending => simp [Wait.pending, h] at hp
    | fired => exact .inl rfl
    | aborted => exact .inr rfl
  unfold onTimer
  split
  · rename_i h
    exact .forgets hw (.inl h)
  · rename_i h
    have hfired := hphase.resolve_right h
    split
    · rename_i hid
      exact .forgets hw (.inr hid)
    · rename_i d hid
      split
      · exact .breaks hw hfired hid
      split
      · exact .finishes hw hfired hid
      · rename_i hinterval
        have hid' : (notify { st with waits := st.waits.eraseIdx i } d.timer).table
            w.handler.timerId = some d := hid
        rw [restart_eq hid']
        exact .repeats hw hfired hid hinterval

theorem stepped (h : st.step a = some st') : Stepped st a st' := by
  cases a with
  | tick n =>
    cases h
    exact .tick
  | disconnect c =>
    cases h
    exact .disconnect
  | notifyAfter id time sendId throws =>
    obtain ⟨hc, rfl⟩ := of_guard h
    exact stepped_setTimerImpl hc.1 (.inl rfl) sendId throws
  | notifyEvery id time sendId throws =>
    obtain ⟨hc, rfl⟩ := of_guard h
    exact stepped_setTimerImpl hc.1 (.inr rfl) sendId throws
  | restart id =>
    cases h
    cases hid : st.table id with
    | none =>
      rw [restart, hid]
      exact .unknown
    | some d =>
      rw [restart_eq hid]
      exact .restart hid
  | cancel id =>
    cases h
    unfold cancel
    split
    · exact .unknown
    · exact .cancel ‹_›
  | expire i =>
    simp only [step] at h
    split at h
    · rename_i w hw
      obtain ⟨hc, rfl⟩ := of_guard h
      exact .expire hw hc.1 hc.2
    · cases h
  | handle i throws =>
    simp only [step] at h
    split at h
    · rename_i w hw
      split at h
      · cases h
      · cases h
        exact stepped_onTimer hw ‹_› throws
    · cases h

/-! ## The table and the waits -/

/-- Timers in the table are different, and a wait of one of them has its number. -/
structure Wf (st : Timers) : Prop where
  timer_lt : ∀ id d, st.table id = some d → d.timer < st.made
  inj : ∀ id id' d d', st.table id = some d → st.table id' = some d' → d.timer = d'.timer → id = id'
  wait_lt : ∀ w ∈ st.waits, w.timer < st.made
  own : ∀ w ∈ st.waits, ∀ id d, st.table id = some d → w.timer = d.timer → w.handler.timerId = id

theorem eq_some_of_update {table : Nat → Option Desc} {id id' : Nat} {v : Option Desc}
    (h : Function.update table id v id' = some d) :
    id' = id ∧ v = some d ∨ id' ≠ id ∧ table id' = some d := by
  by_cases heq : id' = id
  · rw [heq, Function.update_self] at h
    exact .inl ⟨heq, h⟩
  · rw [Function.update_of_ne heq] at h
    exact .inr ⟨heq, h⟩

namespace Wf

theorem waits (h : Wf st) (ws : List (Wait OnTimer))
    (hws : ∀ w ∈ ws, ∃ v ∈ st.waits, v.timer = w.timer ∧ v.handler = w.handler) :
    Wf { st with waits := ws } := by
  refine ⟨h.timer_lt, h.inj, fun w hw => ?_, fun w hw id d hid ht => ?_⟩
  · obtain ⟨v, hv, htimer, -⟩ := hws w hw
    exact htimer ▸ h.wait_lt v hv
  · obtain ⟨v, hv, htimer, hhandler⟩ := hws w hw
    exact hhandler ▸ h.own v hv id d hid (htimer.trans ht)

theorem abort (h : Wf st) (t : Nat) : Wf { st with waits := Waits.abort st.waits t } := by
  refine h.waits _ fun w hw => ?_
  obtain ⟨v, hv, rfl⟩ := List.mem_map.mp hw
  exact ⟨v, hv, by simp, by simp⟩

theorem expire (h : Wf st) (i : Nat) : Wf { st with waits := Waits.expire st.waits i } := by
  refine h.waits _ fun w hw => ?_
  rcases Waits.mem_expire hw with hw | ⟨v, hv, rfl⟩
  · exact ⟨w, hw, rfl, rfl⟩
  · exact ⟨v, List.mem_of_getElem? hv, rfl, rfl⟩

theorem eraseIdx (h : Wf st) (i : Nat) : Wf { st with waits := st.waits.eraseIdx i } :=
  h.waits _ fun w hw => ⟨w, List.mem_of_mem_eraseIdx hw, rfl, rfl⟩

theorem notify (h : Wf st) (client : Nat) : Wf (st.notify client) :=
  ⟨h.timer_lt, h.inj, h.wait_lt, h.own⟩

theorem startWait (h : Wf st) (hid : st.table id = some d) (time : Nat) :
    Wf (st.startWait id d time) := by
  have h' := h.abort d.timer
  refine ⟨h.timer_lt, h.inj, List.forall_mem_cons.mpr ⟨h.timer_lt id d hid, h'.wait_lt⟩,
    List.forall_mem_cons.mpr ⟨fun id' d' hid' ht => h.inj id id' d d' hid hid' ht, h'.own⟩⟩

theorem removeTimer (h : Wf st) (id : Nat) : Wf (st.removeTimer id) := by
  unfold Timers.removeTimer
  split
  · exact h
  · rename_i d _
    have h' := h.abort d.timer
    have hold : ∀ {id' d'}, Function.update st.table id none id' = some d' →
        st.table id' = some d' := by
      intro id' d' hid'
      rcases eq_some_of_update hid' with ⟨-, hnone⟩ | ⟨-, hid'⟩
      · cases hnone
      · exact hid'
    exact ⟨fun id' d' hid' => h.timer_lt id' d' (hold hid'),
      fun id₁ id₂ d₁ d₂ h₁ h₂ => h.inj id₁ id₂ d₁ d₂ (hold h₁) (hold h₂), h'.wait_lt,
      fun w hw id' d' hid' => h'.own w hw id' d' (hold hid')⟩

theorem register (h : Wf st) (id first interval : Nat) : Wf { st with
    table := Function.update st.table id (some ⟨st.made, interval, first⟩)
    made := st.made + 1 } := by
  refine ⟨fun id' d' hid' => ?_, fun id₁ id₂ d₁ d₂ hid₁ hid₂ ht => ?_,
    fun w hw => Nat.lt_succ_of_lt (h.wait_lt w hw), fun w hw id' d' hid' ht => ?_⟩
  · rcases eq_some_of_update hid' with ⟨-, hd⟩ | ⟨-, hid'⟩
    · cases hd
      exact Nat.lt_succ_self st.made
    · exact Nat.lt_succ_of_lt (h.timer_lt id' d' hid')
  · rcases eq_some_of_update hid₁ with ⟨h₁, hd₁⟩ | ⟨-, h₁⟩ <;>
      rcases eq_some_of_update hid₂ with ⟨h₂, hd₂⟩ | ⟨-, h₂⟩
    · exact h₁.trans h₂.symm
    · cases hd₁
      exact absurd ht (Nat.ne_of_gt (h.timer_lt id₂ d₂ h₂))
    · cases hd₂
      exact absurd ht (Nat.ne_of_lt (h.timer_lt id₁ d₁ h₁))
    · exact h.inj id₁ id₂ d₁ d₂ h₁ h₂ ht
  · rcases eq_some_of_update hid' with ⟨-, hd⟩ | ⟨-, hid'⟩
    · cases hd
      exact absurd ht (Nat.ne_of_lt (h.wait_lt w hw))
    · exact h.own w hw id' d' hid' ht

theorem insert (h : Wf st) (id first interval : Nat) : Wf (st.insert id first interval) :=
  (h.register id first interval).startWait (Function.update_self ..) first

theorem step (hw : Wf st) (h : Stepped st a st') : Wf st' := by
  cases h with
  | tick | disconnect | unknown => exact ⟨hw.timer_lt, hw.inj, hw.wait_lt, hw.own⟩
  | inserts => exact hw.insert ..
  | sends => exact (hw.insert ..).notify _
  | withdraws => exact (hw.insert ..).removeTimer _
  | restart hid => exact hw.startWait hid _
  | @cancel id d hid =>
    have := hw.removeTimer id
    exact ⟨this.timer_lt, this.inj, this.wait_lt, this.own⟩
  | expire => exact hw.expire _
  | forgets => exact hw.eraseIdx _
  | breaks => exact (hw.eraseIdx _).removeTimer _
  | finishes => exact ((hw.eraseIdx _).notify _).removeTimer _
  | repeats _ _ hid => exact ((hw.eraseIdx _).notify _).startWait hid _

end Wf

/-! ## One wait each -/

/-- Each timer in the table, but the one with this number, has one outstanding wait. -/
def Others (st : Timers) (id : Nat) : Prop :=
  ∀ id' d, id' ≠ id → st.table id' = some d → Waits.outstanding st.waits d.timer = 1

/-- Each timer in the table has one outstanding wait. -/
def One (st : Timers) : Prop :=
  ∀ id d, st.table id = some d → Waits.outstanding st.waits d.timer = 1

namespace One

theorem others (h : One st) (id : Nat) : Others st id := fun id' d _ hid' => h id' d hid'

/-- A wait that is started replaces the pending one, but not one that has expired. -/
theorem startWait (hw : Wf st) (hid : st.table id = some d)
    (h : Others st id) (hidle : Waits.expired st.waits d.timer = 0) (time : Nat) :
    One (st.startWait id d time) := by
  intro id' d' hid'
  show Waits.outstanding (_ :: Waits.abort st.waits d.timer) d'.timer = 1
  rw [Waits.outstanding_cons]
  by_cases heq : id' = id
  · subst heq
    cases hid.symm.trans hid'
    rw [Waits.outstanding_abort, hidle]
    simp [Wait.outstanding]
  · have hne : d'.timer ≠ d.timer := fun ht => heq (hw.inj id' id d' d hid' hid ht)
    rw [Waits.outstanding_abort_of_ne hne, h id' d' heq hid']
    simp [Wait.outstanding, Ne.symm hne]

theorem removeTimer (hw : Wf st) (hid : st.table id = some d)
    (h : Others st id) : One (st.removeTimer id) := by
  rw [removeTimer_eq hid]
  intro id' d' hid'
  rcases eq_some_of_update hid' with ⟨-, hnone⟩ | ⟨hne, hid'⟩
  · cases hnone
  · show Waits.outstanding (Waits.abort st.waits d.timer) d'.timer = 1
    rw [Waits.outstanding_abort_of_ne fun ht => hne (hw.inj id' id d' d hid' hid ht)]
    exact h id' d' hne hid'

theorem insert (hw : Wf st) (h : One st) (id first interval : Nat) :
    One (st.insert id first interval) := by
  refine startWait (hw.register id first interval) (Function.update_self ..) ?_ ?_ first
  · intro id' d' hne hid'
    rcases eq_some_of_update hid' with ⟨heq, -⟩ | ⟨-, hid'⟩
    · exact absurd heq hne
    · exact h id' d' hid'
  · have hzero : Waits.outstanding st.waits st.made = 0 :=
      Waits.outstanding_eq_zero fun w hw' => Nat.ne_of_lt (hw.wait_lt w hw')
    exact Nat.le_zero.mp (hzero ▸ Waits.expired_le)

end One

/-- A restart, by the client or by a queued handler of an earlier timer with the same
number, does not come while an expired wait of the timer itself is queued. -/
def Unqueued (st : Timers) : Label → Prop
  | .restart id => ∀ d, st.table id = some d → Waits.expired st.waits d.timer = 0
  | .handle i _ => ∀ w, st.waits[i]? = some w → ∀ d, st.table w.handler.timerId = some d →
    w.timer ≠ d.timer → Waits.expired st.waits d.timer = 0
  | _ => True

section Handle

variable {i : Nat} {w : Wait OnTimer}

/-- A handler of a timer that is not there takes no one's wait. -/
theorem One.eraseIdx (h : One st) (hi : st.waits[i]? = some w)
    (hw : w.phase = .aborted ∨ ∀ id d, st.table id = some d → w.timer ≠ d.timer) :
    One { st with waits := st.waits.eraseIdx i } := by
  intro id d hid
  have hcount := Waits.outstanding_eraseIdx hi d.timer
  have hzero : w.outstanding d.timer = false := by
    rcases hw with hw | hw
    · simp [Wait.outstanding, hw]
    · simp [Wait.outstanding, hw id d hid]
  rw [h id d hid, hzero] at hcount
  exact hcount.symm

/-- A handler that runs takes its own timer's wait, or that of no timer in the table. -/
theorem One.handled (hwf : Wf st) (h : One st) (hi : st.waits[i]? = some w)
    (hfired : w.phase = .fired) (hid : st.table w.handler.timerId = some d)
    (hok : w.timer ≠ d.timer → Waits.expired st.waits d.timer = 0) :
    Others { st with waits := st.waits.eraseIdx i } w.handler.timerId ∧
      Waits.expired (st.waits.eraseIdx i) d.timer = 0 := by
  have hmem : w ∈ st.waits := List.mem_of_getElem? hi
  refine ⟨fun id' d' hne hid' => ?_, ?_⟩
  · have hcount := Waits.outstanding_eraseIdx hi d'.timer
    have hother : w.timer ≠ d'.timer := fun ht => hne (hwf.own w hmem id' d' hid' ht).symm
    have hzero : w.outstanding d'.timer = false := by simp [Wait.outstanding, hother]
    rw [h id' d' hid', hzero] at hcount
    exact hcount.symm
  · by_cases ht : w.timer = d.timer
    · have hcount := Waits.outstanding_eraseIdx hi d.timer
      have hone : w.outstanding d.timer = true := by simp [Wait.outstanding, ht, hfired]
      rw [h _ d hid, hone, Bool.toNat_true] at hcount
      have hle : Waits.expired (st.waits.eraseIdx i) d.timer ≤ _ := Waits.expired_le
      omega
    · exact Nat.le_zero.mp (hok ht ▸ Waits.expired_eraseIdx_le i d.timer)

end Handle

theorem One.step (hwf : Wf st) (hone : One st) (hok : Unqueued st a) (h : Stepped st a st') :
    One st' := by
  cases h with
  | tick | disconnect | unknown => exact hone
  | inserts => exact hone.insert hwf _ _ _
  | sends => exact hone.insert hwf _ _ _
  | withdraws =>
    exact removeTimer (hwf.insert ..) (Function.update_self ..) ((hone.insert hwf _ _ _).others _)
  | restart hid => exact startWait hwf hid (hone.others _) (hok _ hid) _
  | cancel hid => exact removeTimer hwf hid (hone.others _)
  | expire hi hp => exact fun id d hid => (Waits.outstanding_expire hi hp).trans (hone id d hid)
  | @forgets i w throws hi hw =>
    refine hone.eraseIdx hi (hw.imp_right fun hnone id d hid ht => ?_)
    cases hwf.own w (List.mem_of_getElem? hi) id d hid ht
    cases hnone.symm.trans hid
  | @breaks i w d throws hi hf hid =>
    exact removeTimer (hwf.eraseIdx i) hid (hone.handled hwf hi hf hid (hok w hi d hid)).1
  | @finishes i w d throws hi hf hid =>
    exact removeTimer ((hwf.eraseIdx i).notify _) hid
      (hone.handled hwf hi hf hid (hok w hi d hid)).1
  | @repeats i w d throws hi hf hid =>
    obtain ⟨hothers, hidle⟩ := hone.handled hwf hi hf hid (hok w hi d hid)
    exact startWait ((hwf.eraseIdx i).notify _) hid hothers hidle _

/-! ## The time of a wait -/

/-- Only timers that repeat are restarted by their clients. -/
def Periodic (st : Timers) : Label → Prop
  | .restart id => ∀ d, st.table id = some d → d.interval ≠ 0
  | _ => True

/-- No wait is over before the delay has passed that its timer was made with. -/
structure Timely (st : Timers) : Prop where
  interval : ∀ id d, st.table id = some d → d.interval = 0 ∨ d.interval = d.delay
  due : ∀ w ∈ st.waits, w.handler.started + w.handler.delay ≤ w.due
  fired : ∀ w ∈ st.waits, w.phase = .fired → w.due ≤ st.now

namespace Timely

theorem notify (h : Timely st) (client : Nat) : Timely (st.notify client) :=
  ⟨h.interval, h.due, h.fired⟩

theorem eraseIdx (h : Timely st) (i : Nat) : Timely { st with waits := st.waits.eraseIdx i } :=
  ⟨h.interval, fun w hw => h.due w (List.mem_of_mem_eraseIdx hw),
    fun w hw => h.fired w (List.mem_of_mem_eraseIdx hw)⟩

theorem abort (h : Timely st) (t : Nat) : Timely { st with waits := Waits.abort st.waits t } := by
  refine ⟨h.interval, fun w hw => ?_, fun w hw hf => ?_⟩
  · obtain ⟨v, hv, rfl⟩ := List.mem_map.mp hw
    simpa using h.due v hv
  · obtain ⟨v, hv, rfl⟩ := List.mem_map.mp hw
    simpa using h.fired v hv (Wait.fired_abort.mp hf)

theorem removeTimer (h : Timely st) (id : Nat) : Timely (st.removeTimer id) := by
  unfold Timers.removeTimer
  split
  · exact h
  · rename_i d _
    refine ⟨fun id' d' hid' => ?_, (h.abort d.timer).due, (h.abort d.timer).fired⟩
    rcases eq_some_of_update hid' with ⟨-, hnone⟩ | ⟨-, hid'⟩
    · cases hnone
    · exact h.interval id' d' hid'

theorem startWait (h : Timely st) (id : Nat) {time : Nat} (hle : d.delay ≤ time) :
    Timely (st.startWait id d time) :=
  ⟨h.interval, List.forall_mem_cons.mpr ⟨Nat.add_le_add_left hle _, (h.abort d.timer).due⟩,
    List.forall_mem_cons.mpr ⟨nofun, (h.abort d.timer).fired⟩⟩

theorem insert (h : Timely st) (id : Nat) {first interval : Nat}
    (hi : interval = 0 ∨ interval = first) : Timely (st.insert id first interval) := by
  have hnew : Timely { st with
      table := Function.update st.table id (some ⟨st.made, interval, first⟩)
      made := st.made + 1 } := by
    refine ⟨fun id' d' hid' => ?_, h.due, h.fired⟩
    rcases eq_some_of_update hid' with ⟨-, hd⟩ | ⟨-, hid'⟩
    · cases hd
      exact hi
    · exact h.interval id' d' hid'
  exact hnew.startWait id (Nat.le_refl first)

theorem expire (h : Timely st) {i : Nat} {w : Wait OnTimer} (hi : st.waits[i]? = some w)
    (hdue : w.due ≤ st.now) : Timely { st with waits := Waits.expire st.waits i } := by
  refine ⟨h.interval, fun v hv => ?_, fun v hv hf => ?_⟩
  · rcases Waits.mem_expire hv with hv | ⟨u, hu, rfl⟩
    · exact h.due v hv
    · exact h.due u (List.mem_of_getElem? hu)
  · rcases Waits.mem_expire hv with hv | ⟨u, hu, rfl⟩
    · exact h.fired v hv hf
    · cases hi.symm.trans hu
      exact hdue

theorem step (ht : Timely st) (hok : Periodic st a) (h : Stepped st a st') : Timely st' := by
  have hrepeat : ∀ {id d}, st.table id = some d → d.interval ≠ 0 → d.delay ≤ d.interval :=
    fun hid hne => Nat.le_of_eq ((ht.interval _ _ hid).resolve_left hne).symm
  cases h with
  | tick => exact ⟨ht.interval, ht.due, fun w hw hf => Nat.le_add_right_of_le (ht.fired w hw hf)⟩
  | disconnect | unknown => exact ⟨ht.interval, ht.due, ht.fired⟩
  | inserts _ hi => exact ht.insert _ hi
  | sends _ hi => exact (ht.insert _ hi).notify _
  | withdraws _ hi => exact (ht.insert _ hi).removeTimer _
  | restart hid => exact ht.startWait _ (hrepeat hid (hok _ hid))
  | @cancel id d hid =>
    have := ht.removeTimer id
    exact ⟨this.interval, this.due, this.fired⟩
  | expire hi _ hdue => exact ht.expire hi hdue
  | forgets => exact ht.eraseIdx _
  | breaks => exact (ht.eraseIdx _).removeTimer _
  | finishes => exact ((ht.eraseIdx _).notify _).removeTimer _
  | repeats _ _ hid hne => exact ((ht.eraseIdx _).notify _).startWait _ (hrepeat hid hne)

end Timely

/-! ## Cancelled timers -/

/-- A cancelled timer is not in the table again, and nothing was written for it since. -/
structure Silent (st : Timers) : Prop where
  silent : st.log.Pairwise fun later earlier => ∀ c, earlier = .cancelled c → later ≠ .notified c
  removed : ∀ c, .cancelled c ∈ st.log → ∀ id d, st.table id = some d → d.timer ≠ c
  cancelled_lt : ∀ c, .cancelled c ∈ st.log → c < st.made

namespace Silent

theorem waits (h : Silent st) (ws : List (Wait OnTimer)) : Silent { st with waits := ws } :=
  ⟨h.silent, h.removed, h.cancelled_lt⟩

theorem removeTimer (h : Silent st) (id : Nat) : Silent (st.removeTimer id) := by
  unfold Timers.removeTimer
  split
  · exact h
  · refine ⟨h.silent, fun c hc id' d' hid' => ?_, h.cancelled_lt⟩
    rcases eq_some_of_update hid' with ⟨-, hnone⟩ | ⟨-, hid'⟩
    · cases hnone
    · exact h.removed c hc id' d' hid'

/-- What is in the table was not cancelled. -/
theorem notify (h : Silent st) (hid : st.table id = some d) :
    Silent (st.notify d.timer) := by
  refine ⟨List.pairwise_cons.mpr ⟨fun e he c hc hn => ?_, h.silent⟩, fun c hc => ?_, fun c hc => ?_⟩
  · cases hn
    exact h.removed d.timer (hc ▸ he) id d hid rfl
  · rcases List.mem_cons.mp hc with hc | hc
    · cases hc
    · exact h.removed c hc
  · rcases List.mem_cons.mp hc with hc | hc
    · cases hc
    · exact h.cancelled_lt c hc

theorem insert (h : Silent st) (id first interval : Nat) : Silent (st.insert id first interval) := by
  refine ⟨h.silent, fun c hc id' d' hid' => ?_, fun c hc => Nat.lt_succ_of_lt (h.cancelled_lt c hc)⟩
  rcases eq_some_of_update hid' with ⟨-, hd⟩ | ⟨-, hid'⟩
  · cases hd
    exact Nat.ne_of_gt (h.cancelled_lt c hc)
  · exact h.removed c hc id' d' hid'

theorem cancel (h : Silent st) (hw : Wf st) (hid : st.table id = some d) :
    Silent { st.removeTimer id with log := .cancelled d.timer :: st.log } := by
  rw [removeTimer_eq hid]
  refine ⟨List.pairwise_cons.mpr ⟨fun _ _ _ _ => nofun, h.silent⟩, fun c hc id' d' hid' => ?_,
    fun c hc => ?_⟩
  · rcases eq_some_of_update hid' with ⟨-, hnone⟩ | ⟨hne, hid'⟩
    · cases hnone
    rcases List.mem_cons.mp hc with hc | hc
    · cases hc
      exact fun ht => hne (hw.inj id' id d' d hid' hid ht)
    · exact h.removed c hc id' d' hid'
  · rcases List.mem_cons.mp hc with hc | hc
    · cases hc
      exact hw.timer_lt id d hid
    · exact h.cancelled_lt c hc

theorem step (hs : Silent st) (hw : Wf st) (h : Stepped st a st') : Silent st' := by
  cases h with
  | tick | disconnect | unknown => exact ⟨hs.silent, hs.removed, hs.cancelled_lt⟩
  | inserts => exact hs.insert ..
  | @sends _ id first interval =>
    have hid : (st.insert id first interval).table id = some ⟨st.made, interval, first⟩ :=
      Function.update_self ..
    exact (hs.insert ..).notify hid
  | withdraws => exact (hs.insert ..).removeTimer _
  | restart => exact hs.waits _
  | cancel hid => exact hs.cancel hw hid
  | expire | forgets => exact hs.waits _
  | breaks => exact (hs.waits _).removeTimer _
  | @finishes i _ _ _ _ _ hid => exact ((hs.waits (st.waits.eraseIdx i)).notify hid).removeTimer _
  | @repeats i _ _ _ _ _ hid => exact ((hs.waits (st.waits.eraseIdx i)).notify hid).waits _

end Silent

/-! ## Runs -/

theorem Wf.init : Wf {} := ⟨nofun, nofun, nofun, nofun⟩

theorem One.of_reachable (hr : timersSystem.Reachable Unqueued st) : One st := by
  have h : Wf st ∧ One st := by
    refine hr.induct (P := fun st => Wf st ∧ One st) ?_ fun ⟨hw, hone⟩ hok hs => ?_
    · rintro _ rfl
      exact ⟨.init, nofun⟩
    · exact ⟨hw.step (stepped hs), hone.step hw hok (stepped hs)⟩
  exact h.2

theorem Timely.of_reachable (hr : timersSystem.Reachable Periodic st) : Timely st := by
  refine hr.induct ?_ fun ht hok hs => ht.step hok (stepped hs)
  rintro _ rfl
  exact ⟨nofun, nofun, nofun⟩

theorem Silent.of_reachable (hr : timersSystem.Reachable System.Any st) : Silent st := by
  have h : Wf st ∧ Silent st := by
    refine hr.induct (P := fun st => Wf st ∧ Silent st) ?_ fun ⟨hw, hsilent⟩ _ hs => ?_
    · rintro _ rfl
      exact ⟨.init, .nil, nofun, nofun⟩
    · exact ⟨hw.step (stepped hs), hsilent.step hw (stepped hs)⟩
  exact h.2

/-- In every run nothing is written for a timer after its `cancel`. Each timer in the table
has exactly one outstanding wait in a run whose restarts do not come while an expired
wait of the timer is queued. No wait expires before the delay has passed that its timer
was made with in a run whose clients restart only timers that repeat. -/
theorem timers_fire (hr : timersSystem.Reachable System.Any st) :
    (st.log.Pairwise fun later earlier => ∀ c, earlier = .cancelled c → later ≠ .notified c) ∧
    (timersSystem.Reachable Unqueued st → ∀ id d, st.table id = some d →
      Waits.outstanding st.waits d.timer = 1) ∧
    (timersSystem.Reachable Periodic st → ∀ w ∈ st.waits,
      w.handler.started + w.handler.delay ≤ w.due ∧
      (w.phase = .fired → w.handler.started + w.handler.delay ≤ st.now)) := by
  refine ⟨(Silent.of_reachable hr).silent, fun hu => One.of_reachable hu, fun hp w hw => ?_⟩
  have ht := Timely.of_reachable hp
  exact ⟨ht.due w hw, fun hf => Nat.le_trans (ht.due w hw) (ht.fired w hw hf)⟩

section Runs

instance (st : Timers) (a : Label) : Decidable (Unqueued st a) := by
  unfold Unqueued
  cases a <;> infer_instance

instance (st : Timers) (a : Label) : Decidable (Periodic st a) := by
  unfold Periodic
  cases a <;> infer_instance

/-- A timer that repeats expires, its handler runs, and its client restarts it. -/
theorem timers_fire_restarted : ∃ st : Timers, st.table 7 = some ⟨0, 5, 5⟩ ∧ st.now = 6 ∧
    Waits.outstanding st.waits 0 = 1 ∧
    ∀ w ∈ st.waits, w.handler.started + w.handler.delay ≤ w.due := by
  obtain ⟨st, hr, htable, hnow⟩ := timersSystem.exists_reachable
    (fun st a => Unqueued st a ∧ Periodic st a)
    (P := fun st => st.table 7 = some ⟨0, 5, 5⟩ ∧ st.now = 6)
    [.notifyEvery 7 5 true false, .tick 5, .expire 0, .handle 0 false, .tick 1, .restart 7] rfl
    (by decide +kernel)
  obtain ⟨-, hone, htimely⟩ := timers_fire hr.any
  refine ⟨st, htable, hnow, hone (hr.mono fun _ _ h => h.1) 7 _ htable, fun w hw => ?_⟩
  exact (htimely (hr.mono fun _ _ h => h.2) w hw).1

/-- A timer that fires once is restarted after 3 of its 5 microseconds, and expires at
once. And a timer that is restarted when its handler is queued has two outstanding waits. -/
theorem timers_misfire :
    (∃ st, timersSystem.Reachable System.Any st ∧ ∃ w ∈ st.waits, w.phase = .fired ∧
      w.handler.started = 3 ∧ w.handler.delay = 5 ∧ st.now = 3) ∧
    ∃ st, timersSystem.Reachable System.Any st ∧ st.table 7 = some ⟨0, 5, 5⟩ ∧
      Waits.outstanding st.waits 0 = 2 := by
  constructor
  · exact timersSystem.exists_reachable System.Any
      [.notifyAfter 7 5 true false, .tick 3, .restart 7, .expire 0] rfl (by decide +kernel)
  · exact timersSystem.exists_reachable System.Any
      [.notifyEvery 7 5 true false, .tick 5, .expire 0, .restart 7] rfl (by decide +kernel)

end Runs

end Timers

end Cocaine.Chrono
