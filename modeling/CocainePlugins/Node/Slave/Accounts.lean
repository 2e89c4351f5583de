import CocainePlugins.Node.Slave.Channels

/-!
# The accounts of the channels

As long as both sides of a channel are closed at once only where the other dispatch has
ended, a side that is closed has its dispatch closed. Then nothing is left to call a
channel that is over, so its callback has run once, and `revoke` has taken it out of the
map.
-/

namespace Cocaine.Node.Slave

open Framework

/-! ## Channels and dispatches -/

/-- The dispatches `t` of a channel whose own state is `k`: a side that is closed has its
dispatch closed, so a channel that is over has nothing left to call it. -/
structure Fits (k : Chan) (t : Stream) : Prop where
  tx : k.tx = false → t.client = .closed
  rx : k.rx = false → t.workerClosed = true
  watched : k.watched = true ↔ t.stage = .done
  code : t.client ≠ .closed → t.ec.failed = false
  bound : t.client = .bound → t.stage = .attached ∨ t.stage = .done

theorem Fits.congr {k k' : Chan} {t : Stream} (h : Fits k t) (hs : k'.sides = k.sides) :
    Fits k' t := by
  obtain ⟨htx, hrx, hw⟩ : k'.tx = k.tx ∧ k'.rx = k.rx ∧ k'.watched = k.watched := by
    simpa [Chan.sides] using hs
  exact ⟨by rw [htx]; exact h.tx, by rw [hrx]; exact h.rx, by rw [hw]; exact h.watched, h.code,
    h.bound⟩

theorem Fits.unwatched {k : Chan} {t : Stream} (h : Fits k t) (ht : t.stage ≠ .done) :
    k.watched = false := by
  by_contra hw
  exact ht (h.watched.mp (by simpa using hw))

/-- The callback has not run while a side is open, or while nobody watches. -/
theorem Chan.over_eq_false {k : Chan} (h : k.tx = true ∨ k.rx = true ∨ k.watched = false) :
    k.over = false := by
  rcases h with h | h | h <;> simp [Chan.over, h]

structure Sound (s : Session) (c : Nat) : Prop where
  fits : Fits (s.machine.chans c) (s.streams c)
  runs : s.runs c = if (s.machine.chans c).over then 1 else 0

structure Accounted (s : Session) : Prop where
  sound : ∀ c, Sound s c
  fresh : ∀ c, s.machine.counter < c → (s.streams c).stage = .absent
  nodup : s.machine.channels.Nodup
  map : s.machine.shutdowned = false → ∀ c, c ∈ s.machine.channels ↔
    (s.streams c).stage.registers = true ∧ (s.machine.chans c).over = false

/-- What is known of a channel carries over when its sides, its dispatches and its count
are the same. -/
theorem Sound.congr {s s' : Session} {c : Nat} (h : Sound s c)
    (hs : (s'.machine.chans c).sides = (s.machine.chans c).sides)
    (ht : s'.streams c = s.streams c) (hr : s'.runs c = s.runs c) : Sound s' c := by
  refine ⟨?_, ?_⟩
  · rw [ht]
    exact h.fits.congr hs
  · rw [hr, Chan.over_eq hs]
    exact h.runs

theorem Sound.setStream {s : Session} (h : ∀ c, Sound s c) {c : Nat} {f : Stream → Stream}
    (hf : Fits (s.machine.chans c) (f (s.streams c))) (c' : Nat) : Sound (s.setStream c f) c' := by
  by_cases hc : c' = c
  · subst hc
    exact ⟨by simpa using hf, (h c').runs⟩
  · exact (h c').congr rfl (by simp [hc]) rfl

namespace Accounted

variable {s s' : Session} {c : Nat}

/-- A step of the machine that is not about the channels. -/
theorem spared (h : Accounted s) {m : Machine} (hm : Spares s.machine m)
    (hn : m.channels.Nodup) : Accounted { s with machine := m } where
  sound c := (h.sound c).congr (hm.sides c) rfl rfl
  fresh c hc := h.fresh c (by rw [← hm.counter]; exact hc)
  nodup := hn
  map hs c := by
    have hs' : s.machine.shutdowned = false := by
      by_contra hne
      have hs₁ : m.shutdowned = false := hs
      simp [hm.shut (by simpa using hne)] at hs₁
    have hover : (m.chans c).over = (s.machine.chans c).over := Chan.over_eq (hm.sides c)
    rw [hover]
    exact (iff_of_eq (congrArg (c ∈ ·) (hm.channels hs))).trans (h.map hs' c)

theorem setStream (h : Accounted s) {f : Stream → Stream}
    (hf : Fits (s.machine.chans c) (f (s.streams c)))
    (hreg : (f (s.streams c)).stage.registers = (s.streams c).stage.registers)
    (hpre : (s.streams c).stage = .absent → (f (s.streams c)).stage = .absent) :
    Accounted (s.setStream c f) where
  sound := Sound.setStream h.sound hf
  fresh c' hc' := by
    by_cases hc : c' = c
    · subst hc
      simpa using hpre (h.fresh c' hc')
    · simpa [hc] using h.fresh c' hc'
  nodup := h.nodup
  map hs c' := by
    by_cases hc : c' = c
    · subst hc
      simpa [hreg] using h.map hs c'
    · simpa [hc] using h.map hs c'

/-- A call of a channel that is not over; `t` is the state of its dispatches. -/
theorem notify (h : Accounted s) {m : Machine} {f : Chan → Chan} {t : Stream}
    (hm : Touches c f s.machine m)
    (hn : m.channels.Nodup) (hnot : (s.machine.chans c).over = false)
    (hf : Fits (f (s.machine.chans c)) t)
    (hreg : t.stage.registers = (s.streams c).stage.registers)
    (hpre : (s.streams c).stage = .absent → t.stage = .absent) :
    Accounted
      { machine := m
        streams := Function.update s.streams c t
        runs := if (m.chans c).over then Function.update s.runs c (s.runs c + 1) else s.runs } where
  sound c' := by
    by_cases hc : c' = c
    · subst hc
      have hzero : s.runs c' = 0 := by simpa [hnot] using (h.sound c').runs
      refine ⟨by simpa using hf.congr hm.sides, ?_⟩
      dsimp only
      split
      · simp [hzero]
      · exact hzero
    · refine (h.sound c').congr (hm.other c' hc) (by simp [hc]) ?_
      dsimp only
      split
      · simp [hc]
      · rfl
  fresh c' hc' := by
    have hlt : s.machine.counter < c' := by
      rw [← hm.counter]
      exact hc'
    by_cases hc : c' = c
    · subst hc
      simpa using hpre (h.fresh c' hlt)
    · simpa [hc] using h.fresh c' hlt
  nodup := hn
  map hs c' := by
    have hs' : s.machine.shutdowned = false := by
      by_contra hne
      have hs₁ : m.shutdowned = false := hs
      simp [hm.shut (by simpa using hne)] at hs₁
    have hmap := h.map hs' c'
    have hover : (m.chans c).over = (f (s.machine.chans c)).over := Chan.over_eq hm.sides
    dsimp only
    rw [hm.channels hs]
    by_cases hc : c' = c
    · subst hc
      rw [hover, Function.update_self, hreg]
      split
      · rename_i ho
        simp [ho, h.nodup.mem_erase_iff]
      · rename_i ho
        rw [hmap]
        simp [hnot, ho]
    · have hover' := Chan.over_eq (hm.other c' hc)
      rw [hover', Function.update_of_ne hc]
      split
      · rw [h.nodup.mem_erase_iff]
        simpa [hc] using hmap
      · exact hmap

variable {g : Stream → Stream}

theorem called (h : Accounted s) {a : Act} {f : Chan → Chan}
    (ht : Touches c f s.machine (s.machine.effect a)) (ha : ∀ c, a ≠ .register c)
    (hnot : (s.machine.chans c).over = false) (hf : Fits (f (s.machine.chans c)) (g (s.streams c)))
    (hreg : (g (s.streams c)).stage.registers = (s.streams c).stage.registers)
    (hpre : (s.streams c).stage = .absent → (g (s.streams c)).stage = .absent)
    (hs : (s.setStream c g).notify c a = some s') : Accounted s' := by
  obtain ⟨m, hm, rfl⟩ := Option.map_eq_some_iff.mp hs
  obtain ⟨-, -, rfl⟩ := Machine.step_eq_some.mp hm
  exact h.notify ht (h.nodup.sublist (Machine.channels_effect ha)) hnot hf hreg hpre

variable {lost : Bool}

theorem closeSend (h : Accounted s) (hnot : (s.machine.chans c).over = false)
    (hf : Fits { s.machine.chans c with tx := false } (g (s.streams c)))
    (hreg : (g (s.streams c)).stage.registers = (s.streams c).stage.registers)
    (hpre : (s.streams c).stage = .absent → (g (s.streams c)).stage = .absent)
    (hs : (s.setStream c g).notify c (.closeSend c lost) = some s') : Accounted s' :=
  h.called (.maybeNotify _ c (fun k => { k with tx := false }) lost) (by simp) hnot hf hreg hpre hs

theorem closeBoth (h : Accounted s) (hnot : (s.machine.chans c).over = false)
    (hf : Fits { s.machine.chans c with tx := false, rx := false } (g (s.streams c)))
    (hreg : (g (s.streams c)).stage.registers = (s.streams c).stage.registers)
    (hpre : (s.streams c).stage = .absent → (g (s.streams c)).stage = .absent)
    (hs : (s.setStream c g).notify c (.closeBoth c lost) = some s') : Accounted s' :=
  h.called (.maybeNotify _ c (fun k => { k with tx := false, rx := false }) lost) (by simp) hnot hf
    hreg hpre hs

theorem clientFinalize (h : Accounted s) (hs : s.clientFinalize c lost = some s') :
    Accounted s' := by
  have hfit := (h.sound c).fits
  unfold Session.clientFinalize at hs
  split at hs
  · cases hs
    exact h.setStream ⟨fun _ => rfl, hfit.rx, hfit.watched, by simp, by simp⟩ rfl id
  · rename_i hb
    have htx : (s.machine.chans c).tx = true := by
      by_contra hne
      rw [hfit.tx (by simpa using hne)] at hb
      cases hb
    have hcode : (s.streams c).ec.failed = false := hfit.code (by simp [hb])
    unfold Session.clientCallback at hs
    rw [if_neg (by simp [hcode])] at hs
    refine h.closeSend (Chan.over_eq_false (.inl htx)) ?_ rfl id hs
    exact ⟨fun _ => rfl, hfit.rx, hfit.watched, by simp, by simp⟩
  · cases hs
    exact h

theorem clientDiscard (h : Accounted s) {ec : ErrorCode}
    (hb : (s.streams c).client = .bound → (s.streams c).workerClosed = true)
    (hs : s.clientDiscard c ec lost = some s') : Accounted s' := by
  have hfit := (h.sound c).fits
  unfold Session.clientDiscard at hs
  split at hs
  · rename_i hec
    unfold Session.clientFinalize at hs
    rw [Session.setStream_setStream] at hs
    split at hs
    · cases hs
      exact h.setStream ⟨fun _ => rfl, hfit.rx, hfit.watched, by simp, by simp⟩ rfl id
    · rename_i hbound
      have hbound : (s.streams c).client = .bound := by simpa using hbound
      have htx : (s.machine.chans c).tx = true := by
        by_contra hne
        rw [hfit.tx (by simpa using hne)] at hbound
        cases hbound
      unfold Session.clientCallback at hs
      rw [if_pos (by simpa using hec)] at hs
      refine h.closeBoth (Chan.over_eq_false (.inl htx)) ?_ rfl id hs
      exact ⟨fun _ => rfl, fun _ => hb hbound, hfit.watched, by simp, by simp⟩
    · rename_i hclosed
      have hclosed : (s.streams c).client = .closed := by simpa using hclosed
      cases hs
      exact h.setStream ⟨fun _ => hclosed, hfit.rx, hfit.watched, fun hne => absurd hclosed hne,
        hfit.bound⟩ rfl id
  · cases hs
    exact h

theorem setStage (h : Accounted s) {stage : Injection} (hd : stage ≠ .done)
    (hd' : (s.streams c).stage ≠ .done)
    (hb : (s.streams c).client = .bound → stage = .attached)
    (hreg : stage.registers = (s.streams c).stage.registers)
    (hpre : (s.streams c).stage ≠ .absent) : Accounted (s.setStage c stage) := by
  have hfit := (h.sound c).fits
  refine h.setStream ⟨hfit.tx, hfit.rx, ?_, hfit.code, fun hbound => .inl (hb hbound)⟩ hreg
    fun ha => absurd ha hpre
  exact hfit.watched.trans (iff_of_false hd' hd)

/-- The client is not bound before `attach`. -/
theorem unbound (h : Accounted s) (ha : (s.streams c).stage ≠ .attached)
    (hd : (s.streams c).stage ≠ .done) : (s.streams c).client ≠ .bound :=
  fun hb => ((h.sound c).fits.bound hb).elim ha hd

theorem advance (h : Accounted s) {k k' : Injection} (hstage : (s.streams c).stage = k)
    (hk : k ≠ .absent ∧ k ≠ .attached ∧ k ≠ .done) (hd : k' ≠ .done)
    (hreg : k'.registers = k.registers) : Accounted (s.setStage c k') := by
  subst hstage
  exact h.setStage hd hk.2.2 (fun hb => absurd hb (h.unbound hk.2.1 hk.2.2)) hreg hk.1

theorem perform (h : Accounted s) {a : Act} (ha : ∀ c, a ≠ .register c)
    (hm : Spares s.machine (s.machine.effect a)) (hs : s.perform a = some s') : Accounted s' := by
  obtain ⟨m, hstep, rfl⟩ := Option.map_eq_some_iff.mp hs
  obtain ⟨-, -, rfl⟩ := Machine.step_eq_some.mp hstep
  exact h.spared hm (h.nodup.sublist (Machine.channels_effect ha))

theorem inject (h : Accounted s) {t : Stream} (ht : t.stage = .created) (hb : t.client ≠ .bound)
    (hcode : t.client ≠ .closed → t.ec.failed = false) (hs : s.perform .newChannel = some s') :
    Accounted (s'.setStream (s.machine.counter + 1) fun _ => t) := by
  obtain ⟨m, hstep, rfl⟩ := Option.map_eq_some_iff.mp hs
  obtain ⟨-, -, rfl⟩ := Machine.step_eq_some.mp hstep
  have habsent : (s.streams (s.machine.counter + 1)).stage = .absent := h.fresh _ (Nat.lt_succ_self _)
  refine ⟨fun c => ?_, fun c hc => ?_, h.nodup, fun hsd c => ?_⟩
  · by_cases hc : c = s.machine.counter + 1
    · subst hc
      have hnot : (s.machine.chans (s.machine.counter + 1)).over = false :=
        Chan.over_eq_false (.inr (.inr ((h.sound _).fits.unwatched (by simp [habsent]))))
      refine ⟨?_, ?_⟩
      · constructor
        · simp [Machine.effect, Machine.newChannel]
        · simp [Machine.effect, Machine.newChannel]
        · simp [Machine.effect, Machine.newChannel, ht]
        · simpa using hcode
        · simp [hb]
      · have hzero : s.runs (s.machine.counter + 1) = 0 := by
          simpa [hnot] using (h.sound (s.machine.counter + 1)).runs
        simpa [Session.setStream, Machine.effect, Machine.newChannel, Chan.over] using hzero
    · refine (h.sound c).congr ?_ ?_ rfl
      · simp [Machine.effect, Machine.newChannel, hc]
      · simp [hc]
  · have hc' : s.machine.counter + 1 < c := hc
    have hne : c ≠ s.machine.counter + 1 := by omega
    simpa [hne] using h.fresh c (by omega)
  · have hmap := h.map hsd c
    by_cases hc : c = s.machine.counter + 1
    · subst hc
      rw [habsent] at hmap
      simpa [Machine.effect, Machine.newChannel, ht, Injection.registers] using hmap
    · simpa [Machine.effect, Machine.newChannel, hc] using hmap

theorem register (h : Accounted s) (hstage : (s.streams c).stage = .sent)
    (hs : s.perform (.register c) = some s') : Accounted (s'.setStage c .registered) := by
  obtain ⟨m, hstep, rfl⟩ := Option.map_eq_some_iff.mp hs
  obtain ⟨-, -, rfl⟩ := Machine.step_eq_some.mp hstep
  have hfit := (h.sound c).fits
  have hnot := hfit.unwatched (by simp [hstage])
  have hmem : ∀ c', c' ∈ (s.machine.effect (.register c)).channels ↔
      c' = c ∨ c' ∈ s.machine.channels := by
    intro c'
    simp only [Machine.effect, Machine.register]
    split
    · rename_i hc
      exact ⟨.inr, fun hx => hx.elim (fun heq => heq ▸ hc) id⟩
    · exact List.mem_cons
  refine ⟨?_, fun c' hc' => ?_, ?_, fun hsd c' => ?_⟩
  · refine Sound.setStream (s := { s with machine := s.machine.effect (.register c) })
      (fun c' => (h.sound c').congr rfl rfl rfl) ?_
    refine ⟨hfit.tx, hfit.rx, iff_of_false ?_ (by simp), hfit.code, fun hb => ?_⟩
    · simp [Machine.effect, Machine.register, hnot]
    · have := hfit.bound hb
      simp [hstage] at this
  · have hfresh := h.fresh c' hc'
    by_cases hcc : c' = c
    · subst hcc
      rw [hstage] at hfresh
      cases hfresh
    · simpa [hcc] using hfresh
  · simp only [Session.setStage, Session.setStream, Machine.effect, Machine.register]
    split
    · exact h.nodup
    · rename_i hc
      exact List.nodup_cons.mpr ⟨hc, h.nodup⟩
  · refine (hmem c').trans ?_
    by_cases hcc : c' = c
    · subst hcc
      have hover : (s.machine.chans c').over = false := Chan.over_eq_false (.inr (.inr hnot))
      simpa [Injection.registers, Machine.effect, Machine.register] using hover
    · have hmap := h.map hsd c'
      simpa [hcc, Machine.effect, Machine.register] using hmap

theorem attach (h : Accounted s) (hstage : (s.streams c).stage = .timed)
    (hok : (s.streams c).client = .closed → (s.streams c).ec.failed = true →
      (s.streams c).workerClosed = true)
    (hs : (s.setStage c .attached).clientAttach c lost = some s') : Accounted s' := by
  have hfit := (h.sound c).fits
  have hnot := hfit.unwatched (by simp [hstage])
  have hw : (s.machine.chans c).watched = true ↔ Injection.attached = Injection.done := by
    simp [hnot]
  have hpre : (s.streams c).stage = .absent → Injection.attached = .absent := by simp [hstage]
  have hreg : Injection.attached.registers = (s.streams c).stage.registers := by
    rw [hstage]
    rfl
  unfold Session.clientAttach at hs
  split at hs
  · rename_i ho
    have ho : (s.streams c).client = .opened := by simpa using ho
    rw [Session.setStage, Session.setStream_setStream] at hs
    cases hs
    refine h.setStream ⟨fun ht => ?_, hfit.rx, hw, fun _ => hfit.code (by simp [ho]), fun _ => .inl rfl⟩
      hreg hpre
    rw [hfit.tx ht] at ho
    cases ho
  · rename_i hcl
    have hcl : (s.streams c).client = .closed := by simpa using hcl
    have hover := Chan.over_eq_false (.inr (.inr hnot))
    unfold Session.clientCallback at hs
    split at hs
    · rename_i hec
      have hec : (s.streams c).ec.failed = true := by simpa using hec
      refine h.closeBoth hover ?_ hreg hpre hs
      exact ⟨fun _ => hcl, fun _ => hok hcl hec, hw, hfit.code, fun _ => .inl rfl⟩
    · refine h.closeSend hover ?_ hreg hpre hs
      exact ⟨fun _ => hcl, hfit.rx, hw, hfit.code, fun _ => .inl rfl⟩
  · cases hs
    exact h.setStage (by simp) (by simp [hstage]) (fun _ => rfl) hreg (by simp [hstage])

theorem watch (h : Accounted s) (hstage : (s.streams c).stage = .attached)
    (hs : (s.setStage c .done).notify c (.watch c lost) = some s') : Accounted s' := by
  have hfit := (h.sound c).fits
  have hnot := hfit.unwatched (by simp [hstage])
  refine h.called (.maybeNotify _ c (fun k => { k with watched := true }) lost) (by simp)
    (Chan.over_eq_false (.inr (.inr hnot))) ?_ ?_ (by simp [hstage]) hs
  · exact ⟨hfit.tx, hfit.rx, by simp, hfit.code, fun _ => .inr rfl⟩
  · rw [hstage]
    rfl

theorem workerFinalize (h : Accounted s) {fails lost : Bool} (hw : (s.streams c).workerClosed = false)
    (hok : fails = true → (s.streams c).client = .closed)
    (hs : s.workerFinalize c fails lost = some s') : Accounted s' := by
  have hfit := (h.sound c).fits
  have hrx : (s.machine.chans c).rx = true := by
    by_contra hne
    rw [hfit.rx (by simpa using hne)] at hw
    cases hw
  have hover := Chan.over_eq_false (.inr (.inl hrx))
  cases fails with
  | true =>
    refine h.closeBoth hover ?_ rfl id hs
    exact ⟨fun _ => hok rfl, fun _ => rfl, hfit.watched, hfit.code, hfit.bound⟩
  | false =>
    refine h.called (.maybeNotify _ c (fun k => { k with rx := false }) lost) (by simp) hover ?_ rfl
      id hs
    exact ⟨hfit.tx, fun _ => rfl, hfit.watched, hfit.code, hfit.bound⟩

theorem runCloseBoth (h : Accounted s) (hcl : (s.streams c).client = .closed)
    (hw : (s.streams c).workerClosed = true) (hnot : (s.machine.chans c).watched = false)
    (hs : s.notify c (.runCloseBoth c lost) = some s') : Accounted s' := by
  have hfit := (h.sound c).fits
  have hsame : s.setStream c id = s := by simp [Session.setStream]
  rw [← hsame] at hs
  have ht := Touches.maybeNotify (s.machine.take (.closeBoth c)) c
    (fun k => { k with tx := false, rx := false }) lost
  have ht' : Touches c (fun k => { k with tx := false, rx := false }) s.machine
      (s.machine.effect (.runCloseBoth c lost)) :=
    ⟨ht.other, ht.sides, ht.counter, ht.shut, ht.channels⟩
  refine h.called ht' (by simp) (Chan.over_eq_false (.inr (.inr hnot))) ?_ rfl id hs
  exact ⟨fun _ => hcl, fun _ => hw, hfit.watched, hfit.code, hfit.bound⟩

theorem send (h : Accounted s) (hstage : (s.streams c).stage = .created) (sent : Bool) :
    Accounted (s.setStage c (if sent then .sent else .refused)) := by
  cases sent with
  | true => exact h.advance hstage (by simp) (by simp) rfl
  | false => exact h.advance hstage (by simp) (by simp) rfl

theorem arm (h : Accounted s) (hstage : (s.streams c).stage = .registered)
    (hs : s.perform (.arm c) = some s') : Accounted (s'.setStage c .timed) := by
  have h' := h.perform (by simp) (.timer c Timer.start) hs
  refine h'.advance (k := .registered) ?_ (by simp) (by simp) rfl
  obtain ⟨m, -, rfl⟩ := Option.map_eq_some_iff.mp hs
  exact hstage

/-- There was no time left for the request. -/
theorem expired (h : Accounted s) (hstage : (s.streams c).stage = .registered)
    (hs : (s.setStage c .timed).clientDiscard c NodeErrors.timeoutError.code lost = some s') :
    Accounted s' := by
  have h' : Accounted (s.setStage c .timed) := h.advance hstage (by simp) (by simp) rfl
  refine h'.clientDiscard (fun hb => ?_) hs
  have hunbound := h.unbound (c := c) (by simp [hstage]) (by simp [hstage])
  simp [hunbound] at hb

/-- A step of the injection is taken where the injection stands. -/
theorem of_isAt {k : Injection} {t : Option Session}
    (h : (if s.isAt c k then t else none) = some s') : (s.streams c).stage = k ∧ t = some s' := by
  simpa only [Session.isAt, beq_iff_eq, Option.ite_none_right_eq_some] using h

theorem step (h : Accounted s) {a : Session.Label} (hok : s.Calm a) (hs : s.step a = some s') :
    Accounted s' := by
  cases a with
  | inject closed =>
    obtain ⟨s₁, hs₁, rfl⟩ := Option.map_eq_some_iff.mp hs
    refine h.inject rfl ?_ ?_ hs₁
    · dsimp only
      split <;> simp
    · cases closed <;> simp [ErrorCode.success, ErrorCode.failed]
  | send c throws =>
    obtain ⟨hstage, hs⟩ := of_isAt hs
    cases hs
    exact h.send hstage _
  | register c =>
    obtain ⟨hstage, hs⟩ := of_isAt hs
    obtain ⟨s₁, hs₁, rfl⟩ := Option.map_eq_some_iff.mp hs
    exact h.register hstage hs₁
  | arm c =>
    obtain ⟨hstage, hs⟩ := of_isAt hs
    obtain ⟨s₁, hs₁, rfl⟩ := Option.map_eq_some_iff.mp hs
    exact h.arm hstage hs₁
  | expired c lost =>
    obtain ⟨hstage, hs⟩ := of_isAt hs
    exact h.expired hstage hs
  | attach c lost =>
    obtain ⟨hstage, hs⟩ := of_isAt hs
    exact h.attach hstage hok hs
  | attachThrows c =>
    obtain ⟨hstage, hs⟩ := of_isAt hs
    cases hs
    exact h.advance hstage (by simp) (by simp) rfl
  | watch c lost =>
    obtain ⟨hstage, hs⟩ := of_isAt hs
    exact h.watch hstage hs
  | clientClose c lost =>
    simp only [Session.step] at hs
    split at hs
    · exact h.clientFinalize hs
    · cases hs
  | clientDiscard c ec lost =>
    simp only [Session.step] at hs
    split at hs
    · exact h.clientDiscard hok hs
    · cases hs
  | worker c fails lost =>
    simp only [Session.step] at hs
    split at hs
    · rename_i hc
      simp only [Bool.and_eq_true, Bool.not_eq_true'] at hc
      refine h.workerFinalize hc.2 ?_ hs
      rintro rfl
      exact hok
    · cases hs
  | expireRequest c => exact h.perform (by simp) (.timer c Timer.expire) hs
  | timeout c lost =>
    simp only [Session.step] at hs
    split at hs
    · obtain ⟨s₁, hs₁, hs⟩ := Option.bind_eq_some_iff.mp hs
      refine (h.perform (by simp) (.timer c Timer.complete) hs₁).clientDiscard ?_ hs
      obtain ⟨m, -, rfl⟩ := Option.map_eq_some_iff.mp hs₁
      exact hok
    · cases hs
  | runCloseBoth c lost => exact h.runCloseBoth hok.1 hok.2.1 hok.2.2 hs
  | act a =>
    simp only [Session.step] at hs
    split at hs
    · cases hs
    · rename_i ha
      refine h.perform ?_ (.effect (by simpa using ha)) hs
      rintro c rfl
      exact ha rfl

end Accounted

theorem accounted {s : Session} (hr : sessionSystem.Reachable Session.Calm s) : Accounted s := by
  refine hr.induct (P := Accounted) ?_ fun h hok hs => h.step hok hs
  rintro _ rfl
  refine ⟨fun c => ⟨⟨?_, ?_, ?_, ?_, ?_⟩, rfl⟩, fun _ _ => rfl, List.nodup_nil, ?_⟩
  all_goals simp [ErrorCode.success, ErrorCode.failed, Injection.registers]

/-- The callback of a channel runs once, when the channel is watched and both sides are
closed, and until the machine is shut down the map holds the channels that were put into it
and are not over. -/
theorem channel_accounting {s : Session} (hr : sessionSystem.Reachable Session.Calm s) (c : Nat) :
    s.runs c ≤ 1 ∧
    (s.runs c = 1 ↔ (s.machine.chans c).watched = true ∧ (s.machine.chans c).tx = false ∧
      (s.machine.chans c).rx = false) ∧
    (s.machine.shutdowned = false → (c ∈ s.machine.channels ↔
      (s.streams c).stage.registers = true ∧ ¬((s.machine.chans c).watched = true ∧
        (s.machine.chans c).tx = false ∧ (s.machine.chans c).rx = false))) := by
  have h := accounted hr
  have hruns := (h.sound c).runs
  have hover : (s.machine.chans c).over = true ↔ (s.machine.chans c).watched = true ∧
      (s.machine.chans c).tx = false ∧ (s.machine.chans c).rx = false := by
    simp only [Chan.over, Bool.and_eq_true, Bool.not_eq_true']
    exact and_comm
  refine ⟨?_, ?_, fun hs => ?_⟩
  · rw [hruns]
    split <;> simp
  · rw [hruns, ← hover]
    simp
  · rw [h.map hs c, ← hover, Bool.not_eq_true]

/-- A slave that has become active, and a channel of it that is watched. -/
def watchedChannel : List Session.Label :=
  [.act (.prepare false), .act (.token {}), .act (.refresh {} .spawned), .act (.ready 1 false),
    .act (.activate false), .inject none, .send 2 false, .register 2, .arm 2, .attach 2 false,
    .watch 2 false]

/-- The worker's choke, then the client's. -/
theorem channel_accounting_chokes : ∃ s, sessionSystem.Reachable Session.Calm s ∧
    s.runs 2 = 1 ∧ (s.machine.chans 2).watched = true ∧ (s.machine.chans 2).tx = false ∧
      (s.machine.chans 2).rx = false := by
  obtain ⟨s, hr, hs⟩ := sessionSystem.exists_reachable Session.Calm (P := fun s => s.runs 2 = 1)
    (watchedChannel ++ [.worker 2 false false, .clientClose 2 false]) rfl (by decide +kernel)
  exact ⟨s, hr, hs, (channel_accounting hr 2).2.1.mp hs⟩

/-- The request times out, and the handler of the timer discards both dispatches. -/
theorem callback_runs_twice : ∃ s, sessionSystem.Reachable System.Any s ∧ s.runs 2 = 2 :=
  sessionSystem.exists_reachable System.Any
    (watchedChannel ++ [.expireRequest 2, .timeout 2 false, .worker 2 false false]) rfl
    (by decide +kernel)

end Cocaine.Node.Slave
