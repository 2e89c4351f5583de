import CocainePlugins.Framework.OrderedMap
import CocainePlugins.Framework.Text
import CocainePlugins.Node.Error

/-!
# The node service's applications

`node_t` keeps the running applications by their names. `pause_app` erases the
entry of its name and takes an application from the position that the erasure
gives, which is the entry that followed: another application is handed over to be
destroyed, and for the last name there is none. `get?_startApp` and
`get?_pauseApp` say what the calls do to the table.
-/

namespace Cocaine.Node.Service

open Framework

/-- The applications under their names; `α` are pointers to them. -/
abbrev Apps (α : Type) := OrderedMap Str α

variable {α : Type}

/-- How a call ends. -/
inductive Outcome (α : Type) where
  /-- The call throws a `std::system_error`. -/
  | throws (ec : ErrorCode) (what : Str)
  | started
  /-- An application is handed over to a thread that destroys it. -/
  | handed (app : α)
  /-- The position behind the last entry was dereferenced. -/
  | dereferencedEnd
deriving DecidableEq

/-- `node_t::start_app`. `state` is the state that an application's info tells, and
`made` is the new application, or the error of its constructor. -/
def startApp (state : α → Str) (made : Except (ErrorCode × Str) α) (name : Str) (apps : Apps α) :
    Outcome α × Apps α :=
  match apps.item? (apps.find name) with
  | some (_, app) =>
    (.throws NodeErrors.alreadyStarted.code
      ("app '".toList ++ name ++ "' is ".toList ++ state app), apps)
  | none =>
    match made with
    | .error (ec, what) => (.throws ec what, apps)
    | .ok app => (.started, apps.put name app)

/-- The application of an entry, for the thread that destroys it. -/
def handOver : Option (Str × α) → Outcome α
  | some (_, app) => .handed app
  | none => .dereferencedEnd

/-- `node_t::pause_app`. -/
def pauseApp (name : Str) (apps : Apps α) : Outcome α × Apps α :=
  let it := apps.find name
  if it = apps.size then
    (.throws NodeErrors.notRunning.code ("app '".toList ++ name ++ "' is not running".toList), apps)
  else
    let (apps, it) := apps.erase it
    (handOver (apps.item? it), apps)

section Calls

variable {name : Str} {apps : Apps α}

/-- A name is taken only by a call that returns. -/
theorem get?_startApp (state : α → Str) (made : Except (ErrorCode × Str) α) (other : Str) :
    (startApp state made name apps).2.get? other =
      match made with
      | .ok app => if other = name ∧ apps.get? name = none then some app else apps.get? other
      | .error _ => apps.get? other := by
  unfold startApp
  cases h : apps.item? (apps.find name) with
  | some e =>
    have hsome : apps.get? name = some e.2 := by
      rw [OrderedMap.get?, h]
      rfl
    cases made <;> simp [hsome]
  | none =>
    have hnone : apps.get? name = none := by
      rw [OrderedMap.get?, h]
      rfl
    cases made with
    | error e => rfl
    | ok app => simp [hnone, OrderedMap.get?_put]

theorem pauseApp_absent (h : apps.get? name = none) : pauseApp name apps =
    (.throws NodeErrors.notRunning.code ("app '".toList ++ name ++ "' is not running".toList),
      apps) := by
  rw [pauseApp, if_pos (OrderedMap.get?_eq_none.mp h)]

/-- What is handed over is the next application. -/
theorem pauseApp_present {app : α} (h : apps.get? name = some app) :
    pauseApp name apps = (handOver (apps.next name), (apps.erase (apps.find name)).1) := by
  have hfound : apps.find name ≠ apps.size := by
    intro hend
    rw [OrderedMap.get?_eq_none.mpr hend] at h
    cases h
  rw [pauseApp, if_neg hfound, ← OrderedMap.item?_erase (OrderedMap.get?_eq_some.mp h)]

theorem get?_pauseApp (other : Str) :
    (pauseApp name apps).2.get? other = if other = name then none else apps.get? other := by
  cases h : apps.get? name with
  | none =>
    rw [pauseApp_absent h]
    split
    · rename_i heq
      rw [heq, h]
    · rfl
  | some app =>
    rw [pauseApp_present h]
    have herase := OrderedMap.get?_erase (OrderedMap.get?_eq_some.mp h) other
    exact herase.trans (ite_congr rfl (fun _ => rfl) (fun _ => rfl))

theorem handOver_eq_handed {e : Option (Str × α)} {app : α} :
    handOver e = .handed app ↔ ∃ key, e = some (key, app) := by
  cases e with
  | none => simp [handOver]
  | some e => simp [handOver, Prod.ext_iff]

/-- What pausing an application is to do. -/
structure Pauses (name : Str) (apps : Apps α) (r : Outcome α × Apps α) : Prop where
  absent : apps.get? name = none → r.1 = .throws NodeErrors.notRunning.code
    ("app '".toList ++ name ++ "' is not running".toList)
  present : ∀ app, apps.get? name = some app → r.1 = .handed app
  table : ∀ other, r.2.get? other = if other = name then none else apps.get? other
  inside : r.1 ≠ .dereferencedEnd

/-- `pause_app` always erases the entry of its name and leaves the others, and throws
for a name that is not there. It hands over the application that it names if and
only if the next name's application is the same one; so, where no application has
two names, for no name that is there. -/
theorem pause_app_iff (name : Str) (apps : Apps α) :
    (∀ other, (pauseApp name apps).2.get? other =
      if other = name then none else apps.get? other) ∧
    (apps.get? name = none → Pauses name apps (pauseApp name apps)) ∧
    (Pauses name apps (pauseApp name apps) ↔
      ∀ app, apps.get? name = some app → ∃ key, apps.next name = some (key, app)) ∧
    ((apps.entries.map Prod.snd).Nodup →
      (Pauses name apps (pauseApp name apps) ↔ apps.get? name = none)) := by
  have habsent : apps.get? name = none → Pauses name apps (pauseApp name apps) := by
    intro h
    refine ⟨fun _ => ?_, fun app happ => ?_, fun other => get?_pauseApp other, ?_⟩
    · rw [pauseApp_absent h]
    · rw [h] at happ
      cases happ
    · rw [pauseApp_absent h]
      exact nofun
  have hiff : Pauses name apps (pauseApp name apps) ↔
      ∀ app, apps.get? name = some app → ∃ key, apps.next name = some (key, app) := by
    constructor
    · intro hp app happ
      have hhanded := hp.present app happ
      rw [pauseApp_present happ] at hhanded
      exact handOver_eq_handed.mp hhanded
    · intro hnext
      cases h : apps.get? name with
      | none => exact habsent h
      | some app =>
        have hhanded : (pauseApp name apps).1 = .handed app := by
          rw [pauseApp_present h]
          exact handOver_eq_handed.mpr (hnext app h)
        refine ⟨fun hn => ?_, fun app' happ' => ?_, fun other => get?_pauseApp other, ?_⟩
        · rw [h] at hn
          cases hn
        · rw [hhanded, Option.some.inj (h.symm.trans happ')]
        · rw [hhanded]
          exact nofun
  refine ⟨fun other => get?_pauseApp other, habsent, hiff, fun hnd => ⟨fun hp => ?_, habsent⟩⟩
  cases h : apps.get? name with
  | none => rfl
  | some app =>
    obtain ⟨key, hkey⟩ := hiff.mp hp app h
    obtain ⟨hmem, hlt⟩ := OrderedMap.next_eq_some hkey
    have hsame := List.inj_on_of_nodup_map hnd hmem (OrderedMap.get?_eq_some.mp h) rfl
    rw [hsame] at hlt
    exact absurd hlt (lt_irrefl name)

end Calls

def twoApps : Apps Nat := (OrderedMap.put {} "echo".toList 1).put "proxy".toList 2

/-- Pausing the first destroys the second, and pausing the second goes past the end. -/
theorem pause_app_takes_next :
    twoApps.get? "echo".toList = some 1 ∧ (pauseApp "echo".toList twoApps).1 = .handed 2 ∧
    twoApps.get? "proxy".toList = some 2 ∧
    (pauseApp "proxy".toList twoApps).1 = .dereferencedEnd := by
  decide

end Cocaine.Node.Service
