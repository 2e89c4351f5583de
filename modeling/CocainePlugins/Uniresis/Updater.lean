import CocainePlugins.Framework.Timer
import CocainePlugins.Framework.Transition
import CocainePlugins.Unicorn.Value

/-!
# The announcement of a machine's resources

The updater of `uniresis` creates the resource node, and subscribes to it when it has been
created. A failed create is tried again a second later, a failed subscription at once.

A value, on the other hand, is only looked at: `on_subscribe` returns for version 0, and warns
about every other one. The value that tells of a node that is not there is such a value too, so
after it the node stays away.
-/

namespace Cocaine.Uniresis

open Framework Unicorn

inductive Created where
  | created | existing | failed
deriving DecidableEq, Repr

inductive Report where
  | value (version : Int)
  | failed
deriving DecidableEq, Repr

/-- What unicorn is doing for the updater, with what it has yet to report. -/
inductive Scope where
  | closed
  | create (reply : Option Created)
  | subscribe (reports : Option (List Report))
deriving DecidableEq, Repr

structure Updater where
  /-- The version of the resource node, if there is one. -/
  node : Option Nat := none
  /-- The request that the scope is for. -/
  scope : Scope := .closed
  timer : Timer := {}
  /-- The last version that `on_subscribe` was given. -/
  seen : Option Int := none
deriving DecidableEq, Repr

namespace Updater

variable (s : Updater)

def value : Report := .value (s.node.elim notExistingVersion Nat.cast)

def notify : Updater := { s with scope := .create none }

def notifyLater : Updater := { s with timer := s.timer.start }

def subscribe : Updater := { s with scope := .subscribe none }

def onCreate : Created → Updater
  | .created => s.subscribe
  | .existing | .failed => s.notifyLater

def onSubscribe : Report → Updater
  -- Version 0 is what is expected, any other one is logged.
  | .value version => { s with seen := some version }
  | .failed => s.notify

/-- The subscription, if it has looked at the node, has something to report. -/
def report (r : Report) : Updater :=
  match s.scope with
  | .subscribe (some reports) => { s with scope := .subscribe (some (reports ++ [r])) }
  | _ => s

inductive Label where
  /-- The create request is served. One that fails may have made the node all the same. -/
  | serve (reply : Created) (applied : Bool)
  /-- The subscription looks at the node for the first time. It may take an error for a missing
  node. -/
  | look (r : Report)
  | deliver
  /-- The timer expires; its handler runs. -/
  | expire
  | fire
  /-- The node is deleted, which the subscription reports in this way. -/
  | delete (r : Report)
  /-- Another party changes the node, or makes it. -/
  | put
  | make
  /-- The connection fails. -/
  | lose
deriving DecidableEq, Repr

def serve : Created → Bool → Option Updater
  | .created, _ =>
    if s.node = none then some { s with node := some 0, scope := .create (some .created) } else none
  | .existing, _ =>
    if s.node = none then none else some { s with scope := .create (some .existing) }
  | .failed, applied =>
    some { s with node := if applied then s.node.or (some 0) else s.node,
                  scope := .create (some .failed) }

def deliver : Option Updater :=
  match s.scope with
  | .create (some r) => some ({ s with scope := .closed }.onCreate r)
  | .subscribe (some (r :: reports)) =>
    some ({ s with scope := .subscribe (some reports) }.onSubscribe r)
  | _ => none

def step : Label → Option Updater
  | .serve reply applied => if s.scope = .create none then s.serve reply applied else none
  | .look r =>
    if s.scope = .subscribe none ∧ (r = s.value ∨ r = .value notExistingVersion ∨ r = .failed) then
      some { s with scope := .subscribe (some [r]) }
    else none
  | .deliver => s.deliver
  | .expire => if s.timer.armed then some { s with timer := s.timer.expire } else none
  | .fire =>
    if s.timer.fired ≠ 0 then some { s with timer := s.timer.complete }.notify else none
  | .delete r =>
    if s.node ≠ none ∧ (r = .value notExistingVersion ∨ r = .failed) then
      some ({ s with node := none }.report r)
    else none
  | .put =>
    match s.node with
    | none => none
    | some version =>
      let s := { s with node := some (version + 1) }
      some (s.report s.value)
  | .make =>
    if s.node = none then
      let s := { s with node := some 0 }
      some (s.report s.value)
    else none
  | .lose => some (s.report .failed)

/-- A reply, a notification or the timer is pending. -/
def pending : Bool :=
  s.timer.waits ||
    match s.scope with
    | .closed | .subscribe (some []) => false
    | .create _ | .subscribe none | .subscribe (some (_ :: _)) => true

end Updater

/-- The service has called `notify`. -/
def updaterSystem : System Updater Updater.Label where
  init s := ∃ node, s = Updater.notify { node }
  step := Updater.step

namespace Updater

variable {s t : Updater}

/-! ## What a step does -/

inductive Stepped (s : Updater) : Updater → Prop where
  | served (requested : s.scope = .create none) (node : Option Nat) (reply : Created) :
      Stepped s { s with node, scope := .create (some reply) }
  | looked (requested : s.scope = .subscribe none) (r : Report)
      (missing : s.node = none → r = .value notExistingVersion ∨ r = .failed) :
      Stepped s { s with scope := .subscribe (some [r]) }
  | subscribed (replied : s.scope = .create (some .created)) :
      Stepped s { s with scope := .subscribe none }
  | delayed (reply : Created) (replied : s.scope = .create (some reply)) :
      Stepped s { s with scope := .closed, timer := s.timer.start }
  | told (version : Int) (reports : List Report)
      (reported : s.scope = .subscribe (some (.value version :: reports))) :
      Stepped s { s with scope := .subscribe (some reports), seen := some version }
  | renewed (reports : List Report) (reported : s.scope = .subscribe (some (.failed :: reports))) :
      Stepped s { s with scope := .create none }
  | expired (armed : s.timer.armed = true) : Stepped s { s with timer := s.timer.expire }
  | fired (fired : s.timer.fired ≠ 0) :
      Stepped s { s with scope := .create none, timer := s.timer.complete }
  | changed (node : Option Nat) (r : Report)
      (missing : node = none → r = .value notExistingVersion ∨ r = .failed) :
      Stepped s (report { s with node } r)

theorem stepped_serve {reply : Created} {applied : Bool} (hs : s.scope = .create none)
    (h : s.serve reply applied = some t) : Stepped s t := by
  cases reply with
  | created =>
    obtain ⟨-, rfl⟩ := of_guard h
    exact .served hs _ _
  | existing =>
    simp only [serve, Option.ite_none_left_eq_some] at h
    obtain ⟨-, h⟩ := h
    cases h
    exact .served hs _ _
  | failed =>
    cases h
    exact .served hs _ _

theorem stepped_deliver (h : s.deliver = some t) : Stepped s t := by
  simp only [deliver] at h
  split at h
  · rename_i r hs
    cases h
    cases r with
    | created => exact .subscribed hs
    | existing | failed => exact .delayed _ hs
  · rename_i r reports hs
    cases h
    cases r with
    | value version => exact .told version reports hs
    | failed => exact .renewed reports hs
  · cases h

theorem stepped {a : Label} (h : s.step a = some t) : Stepped s t := by
  cases a with
  | serve reply applied =>
    simp only [step, Option.ite_none_right_eq_some] at h
    exact stepped_serve h.1 h.2
  | look r =>
    obtain ⟨⟨hs, hr⟩, rfl⟩ := of_guard h
    refine .looked hs r fun hnode => ?_
    obtain rfl | hr := hr
    · simp [value, hnode]
    · exact hr
  | deliver => exact stepped_deliver h
  | expire =>
    obtain ⟨harmed, rfl⟩ := of_guard h
    exact .expired harmed
  | fire =>
    obtain ⟨hfired, rfl⟩ := of_guard h
    exact .fired hfired
  | delete r =>
    obtain ⟨⟨-, hr⟩, rfl⟩ := of_guard h
    exact .changed none r fun _ => hr
  | put =>
    simp only [step] at h
    split at h
    · cases h
    · rename_i version _
      cases h
      exact .changed (some (version + 1)) _ fun hnone => by cases hnone
  | make =>
    obtain ⟨-, rfl⟩ := of_guard h
    exact .changed (some 0) _ fun hnone => by cases hnone
  | lose =>
    cases h
    exact .changed s.node .failed fun _ => .inr rfl

/-- A report is only added to a subscription that is there. -/
theorem report_cases (r : Report) :
    (∃ reports, s.scope = .subscribe (some reports) ∧
      s.report r = { s with scope := .subscribe (some (reports ++ [r])) }) ∨
    ((∀ reports, s.scope ≠ .subscribe (some reports)) ∧ s.report r = s) := by
  simp only [report]
  split
  · rename_i reports hs
    exact .inl ⟨reports, hs, rfl⟩
  · rename_i hne
    exact .inr ⟨hne, rfl⟩

/-! ## Always at work -/

/-- Either the timer waits, once, or there is a request; so `notify` and `subscribe` never drop
one that is not finished. -/
inductive Sole (s : Updater) : Prop where
  | armed (closed : s.scope = .closed) (timer : s.timer = ⟨true, 0⟩)
  | fired (closed : s.scope = .closed) (timer : s.timer = ⟨false, 1⟩)
  | request (requested : s.scope ≠ .closed) (timer : s.timer = {})

namespace Sole

/-- With a request, the timer is idle. -/
theorem idle (h : Sole s) (hne : s.scope ≠ .closed) : s.timer = {} := by
  cases h with
  | armed closed _ | fired closed _ => exact absurd closed hne
  | request _ timer => exact timer

theorem step (h : Sole s) (hs : Stepped s t) : Sole t := by
  cases hs with
  | served requested => exact .request (by simp) (h.idle (by simp [requested]))
  | looked requested => exact .request (by simp) (h.idle (by simp [requested]))
  | subscribed replied => exact .request (by simp) (h.idle (by simp [replied]))
  | delayed reply replied =>
    refine .armed rfl ?_
    rw [h.idle (by simp [replied])]
    rfl
  | told version reports reported => exact .request (by simp) (h.idle (by simp [reported]))
  | renewed reports reported => exact .request (by simp) (h.idle (by simp [reported]))
  | expired armed =>
    cases h with
    | armed closed timer => exact .fired closed (by rw [timer]; rfl)
    | fired _ timer | request _ timer => simp [timer] at armed
  | fired fired =>
    cases h with
    | fired _ timer => exact .request (by simp) (by rw [timer]; rfl)
    | armed _ timer | request _ timer => simp [timer] at fired
  | changed node r =>
    obtain ⟨reports, hscope, ht⟩ | ⟨-, ht⟩ := report_cases (s := { s with node }) r
    · rw [ht]
      exact .request (by simp) (h.idle (by simp [show s.scope = _ from hscope]))
    · rw [ht]
      cases h with
      | armed closed timer => exact .armed closed timer
      | fired closed timer => exact .fired closed timer
      | request requested timer => exact .request requested timer

end Sole

/-! ## What the subscription has told -/

/-- The reports of the subscription, from the last one that was given to `on_subscribe` on. -/
def heard (s : Updater) (reports : List Report) : List Report :=
  s.seen.toList.map .value ++ reports

/-- If the node is missing, a subscription has failed, or says so last. -/
def Current (s : Updater) : Prop :=
  ∀ reports, s.scope = .subscribe (some reports) → s.node = none →
    .failed ∈ reports ∨ (s.heard reports).getLast? = some (.value notExistingVersion)

namespace Current

/-- The newest report speaks for itself. -/
theorem newest (reports : List Report) {r : Report}
    (hr : r = .value notExistingVersion ∨ r = .failed) :
    .failed ∈ reports ++ [r] ∨
      (s.heard (reports ++ [r])).getLast? = some (.value notExistingVersion) := by
  obtain rfl | rfl := hr
  · right
    rw [heard, ← List.append_assoc]
    exact List.getLast?_concat
  · left
    simp

theorem told (h : Current s) {version : Int} {reports : List Report}
    (hs : s.scope = .subscribe (some (.value version :: reports))) :
    Current { s with scope := .subscribe (some reports), seen := some version } := by
  intro reports' hscope hnode
  cases hscope
  obtain hfailed | hlast := h _ hs hnode
  · left
    simpa using hfailed
  · right
    -- What was heard before does not matter, there is a report after it.
    rw [heard, List.getLast?_append_of_ne_nil _ (List.cons_ne_nil _ _)] at hlast
    exact hlast

theorem step (h : Current s) (hs : Stepped s t) : Current t := by
  cases hs with
  | served | subscribed | delayed | renewed | fired =>
    intro reports hscope
    cases hscope
  | looked requested r missing =>
    intro reports hscope hnode
    cases hscope
    exact newest [] (missing hnode)
  | told version reports reported => exact h.told reported
  | expired => exact h
  | changed node r missing =>
    obtain ⟨reports, hscope, ht⟩ | ⟨hne, ht⟩ := report_cases (s := { s with node }) r
    · rw [ht]
      intro reports' hscope' hnode
      cases hscope'
      exact newest reports (missing hnode)
    · rw [ht]
      exact fun reports hscope => absurd hscope (hne reports)

end Current

theorem sole_current (hr : updaterSystem.Reachable System.Any s) : Sole s ∧ Current s := by
  refine hr.induct (P := fun s => Sole s ∧ Current s) ?_ ?_
  · rintro s ⟨node, rfl⟩
    refine ⟨.request (by simp [notify]) rfl, fun reports hscope => ?_⟩
    cases hscope
  · rintro s a t ⟨hsole, hcurrent⟩ - hs
    exact ⟨hsole.step (stepped hs), hcurrent.step (stepped hs)⟩

/-- When nothing is pending, the updater has a subscription that has told everything. -/
theorem Sole.subscribed (h : Sole s) (hq : s.pending = false) :
    s.scope = .subscribe (some []) := by
  simp only [pending, Bool.or_eq_false_iff] at hq
  obtain ⟨htimer, hscope⟩ := hq
  cases h with
  | armed _ timer | fired _ timer => simp [timer, Timer.waits] at htimer
  | request requested _ =>
    split at hscope
    · exact absurd ‹_› requested
    · assumption
    all_goals cases hscope

/-- When nothing is pending, the resource node is there, unless `on_subscribe` was told of a
missing node last. -/
theorem node_kept (hr : updaterSystem.Reachable System.Any s) (hq : s.pending = false)
    (hseen : s.seen ≠ some notExistingVersion) : s.node ≠ none := by
  obtain ⟨hsole, hcurrent⟩ := sole_current hr
  intro hnode
  obtain hfailed | hlast := hcurrent [] (hsole.subscribed hq) hnode
  · cases hfailed
  · refine hseen ?_
    cases hs : s.seen with
    | none => simp [heard, hs] at hlast
    | some version => simpa [heard, hs] using hlast

/-- The node is deleted and the connection lost, and the updater makes the node again. -/
theorem node_kept_again :
    ∃ s, updaterSystem.Reachable System.Any s ∧ s.pending = false ∧ s.seen = some 0 ∧
      s.node ≠ none := by
  obtain ⟨s, hr, hq, hseen⟩ := updaterSystem.exists_reachable System.Any
    (P := fun s => s.pending = false ∧ s.seen = some 0)
    [.serve .failed false, .deliver, .expire, .fire, .serve .created false, .deliver,
      .look (.value 0), .deliver, .delete (.value notExistingVersion), .lose, .deliver, .deliver,
      .serve .created false, .deliver, .look (.value 0), .deliver]
    ⟨none, rfl⟩ (by decide +kernel)
  exact ⟨s, hr, hq, hseen, node_kept hr hq (by rw [hseen]; decide)⟩

/-- The subscription reports a deletion by a value. -/
def Valued (_ : Updater) : Label → Prop
  | .delete r => r = .value notExistingVersion
  | _ => True

instance (s : Updater) (a : Label) : Decidable (s.Valued a) := by
  unfold Valued
  split <;> infer_instance

/-- The node is deleted while the subscription watches it, or before it looks for the first time.
Nobody makes it again. -/
theorem node_lost :
    (∃ s t, updaterSystem.Reachable Valued s ∧ s.pending = false ∧ s.node = some 0 ∧
      updaterSystem.Path Valued s t ∧ t.pending = false ∧ t.node = none) ∧
      ∃ s t, updaterSystem.Reachable Valued s ∧ s.scope = .subscribe none ∧ s.node = some 0 ∧
        updaterSystem.Path Valued s t ∧ t.pending = false ∧ t.node = none := by
  constructor
  · exact ⟨⟨some 0, .subscribe (some []), {}, some 0⟩, ⟨none, .subscribe (some []), {}, some (-1)⟩,
      .of_run [.serve .created false, .deliver, .look (.value 0), .deliver] ⟨none, rfl⟩
        (by decide +kernel),
      rfl, rfl, .of_run [.delete (.value notExistingVersion), .deliver] (by decide +kernel), rfl, rfl⟩
  · exact ⟨⟨some 0, .subscribe none, {}, none⟩, ⟨none, .subscribe (some []), {}, some (-1)⟩,
      .of_run [.serve .created false, .deliver] ⟨none, rfl⟩ (by decide +kernel),
      rfl, rfl,
      .of_run [.delete (.value notExistingVersion), .look (.value notExistingVersion), .deliver]
        (by decide +kernel), rfl, rfl⟩

end Updater

end Cocaine.Uniresis
