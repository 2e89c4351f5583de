import CocainePlugins.Framework.Text
import Mathlib.Data.List.Perm.Basic
import Mathlib.Logic.Function.Basic

/-!
# A remote of the ipvs gateway

A remote has a virtual service in the kernel for each protocol family, and records the
destinations of its backends. `insert` skips a destination that the kernel refuses, and
records the others in the end. `remove` takes the destinations of a backend out of the
kernel one by one, throws at the first that the kernel does not remove, and only in the
end forgets them: those that it has removed before the throw stay recorded.
-/

namespace Cocaine.Ipvs

open Framework

inductive Family where
  | inet | inet6
deriving DecidableEq, Repr

structure Endpoint where
  family : Family
  address : Nat
  port : Nat
deriving DecidableEq, Repr

/-- A destination for each family, as `insert` collects them. -/
abbrev Handles := Family → Option Endpoint

def Handles.toList (handles : Handles) : List Endpoint :=
  (handles .inet).toList ++ (handles .inet6).toList

structure Remote where
  /-- The families that have a virtual service. -/
  services : List Family
  /-- The destinations of each backend's uuid, in the order of their insertion. -/
  backends : List (Str × Endpoint) := []
deriving DecidableEq, Repr

/-- The loop of the constructor over the local addresses, from the `i`-th on. -/
def publish (refused : Nat → Bool) (i : Nat) (services : List Family) : List Family → List Family
  | [] => services
  | family :: addresses =>
    if services.contains family || refused i then publish refused (i + 1) services addresses
    else publish refused (i + 1) (services ++ [family]) addresses

/-- The loop of `insert` from the `i`-th endpoint on, with the service's destinations in the
kernel. The kernel refuses a destination that it has. -/
def insertLoop (services : List Family) (refused : Nat → Bool) (i : Nat)
    (kernel : List Endpoint) (handles : Handles) : List Endpoint → List Endpoint × Handles
  | [] => (kernel, handles)
  | ep :: endpoints =>
    if !services.contains ep.family || (handles ep.family).isSome || refused i ||
        kernel.contains ep then
      insertLoop services refused (i + 1) kernel handles endpoints
    else
      insertLoop services refused (i + 1) (ep :: kernel)
        (Function.update handles ep.family (some ep)) endpoints

/-- The loop of `remove`, and the destination that the kernel did not remove. -/
def removeLoop (refused : Endpoint → Bool) (kernel : List Endpoint) :
    List Endpoint → List Endpoint × Option Endpoint
  | [] => (kernel, none)
  | ep :: endpoints =>
    if refused ep || !kernel.contains ep then (kernel, some ep)
    else removeLoop refused (kernel.erase ep) endpoints

namespace Remote

variable (r : Remote)

/-- `remote_t::insert`; without a destination it throws. -/
def insert (uuid : Str) (endpoints : List Endpoint) (refused : Nat → Bool)
    (kernel : List Endpoint) : Remote × List Endpoint :=
  let p := insertLoop r.services refused 0 kernel (fun _ => none) endpoints
  ({ r with backends := r.backends ++ p.2.toList.map (uuid, ·) }, p.1)

def destinations (uuid : Str) : List Endpoint :=
  (r.backends.filter fun b => b.1 = uuid).map Prod.snd

/-- `remote_t::remove`, and the destination at which it threw. -/
def remove (uuid : Str) (refused : Endpoint → Bool) (kernel : List Endpoint) :
    Remote × List Endpoint × Option Endpoint :=
  match removeLoop refused kernel (r.destinations uuid) with
  | (kernel, some ep) => (r, kernel, some ep)
  | (kernel, none) =>
    ({ r with backends := r.backends.filter fun b => b.1 ≠ uuid }, kernel, none)

/-- The kernel has the destinations that are recorded, each once. -/
structure Mirrors (kernel : List Endpoint) : Prop where
  nodup : kernel.Nodup
  perm : kernel.Perm (r.backends.map Prod.snd)

/-- The kernel removes all destinations of the backend. -/
def Clears (uuid : Str) (refused : Endpoint → Bool) : Prop :=
  ∀ ep ∈ r.destinations uuid, refused ep = false

/-- If the kernel removes the first destination of the backend, it removes all. -/
def Whole (uuid : Str) (refused : Endpoint → Bool) : Prop :=
  ∀ ep ∈ (r.destinations uuid).head?, refused ep = false →
    ∀ ep' ∈ r.destinations uuid, refused ep' = false

end Remote

/-! ## Insertion -/

theorem Handles.toList_update {handles : Handles} {ep : Endpoint} (h : handles ep.family = none) :
    Handles.toList (Function.update handles ep.family (some ep)) |>.Perm (ep :: handles.toList) := by
  unfold Handles.toList
  cases hf : ep.family with
  | inet =>
    rw [hf] at h
    simp [h]
  | inet6 =>
    rw [hf] at h
    simp [h]

/-- The loop adds to the kernel what it adds to the handles. -/
theorem insertLoop_perm (services : List Family) (refused : Nat → Bool) {base : List Endpoint}
    (endpoints : List Endpoint) (i : Nat) {kernel : List Endpoint} {handles : Handles}
    (hnd : kernel.Nodup) (hp : kernel.Perm (base ++ handles.toList)) :
    (insertLoop services refused i kernel handles endpoints).1.Nodup ∧
      (insertLoop services refused i kernel handles endpoints).1.Perm
        (base ++ (insertLoop services refused i kernel handles endpoints).2.toList) := by
  induction endpoints generalizing i kernel handles with
  | nil => exact ⟨hnd, hp⟩
  | cons ep endpoints ih =>
    unfold insertLoop
    split
    · exact ih (i + 1) hnd hp
    · rename_i hc
      simp only [Bool.or_eq_true, not_or, Bool.not_eq_true] at hc
      obtain ⟨⟨⟨-, hfree⟩, -⟩, hnew⟩ := hc
      have hmem : ep ∉ kernel := by simpa using hnew
      have hnone : handles ep.family = none := by simpa using hfree
      refine ih (i + 1) (List.nodup_cons.mpr ⟨hmem, hnd⟩) ?_
      have hcons : (ep :: kernel).Perm (base ++ ep :: handles.toList) :=
        (hp.cons ep).trans List.perm_middle.symm
      exact hcons.trans ((Handles.toList_update hnone).symm.append_left base)

namespace Remote

variable {r : Remote} {kernel : List Endpoint} {uuid : Str}

theorem Mirrors.insert (h : r.Mirrors kernel) (endpoints : List Endpoint) (refused : Nat → Bool) :
    (r.insert uuid endpoints refused kernel).1.Mirrors (r.insert uuid endpoints refused kernel).2 := by
  have hbase : kernel.Perm (r.backends.map Prod.snd ++ Handles.toList fun _ => none) := by
    simpa [Handles.toList] using h.perm
  obtain ⟨hnd, hp⟩ := insertLoop_perm r.services refused endpoints 0 h.nodup hbase
  refine ⟨hnd, ?_⟩
  simpa [Remote.insert, Function.comp_def] using hp

/-! ## Removal -/

end Remote

/-- If the kernel refuses none of them, the destinations are removed. -/
theorem removeLoop_eq {refused : Endpoint → Bool} (endpoints : List Endpoint)
    {kernel base : List Endpoint} (hp : kernel.Perm (endpoints ++ base))
    (h : ∀ ep ∈ endpoints, refused ep = false) :
    ∃ kernel', removeLoop refused kernel endpoints = (kernel', none) ∧ kernel'.Perm base := by
  induction endpoints generalizing kernel with
  | nil => exact ⟨kernel, rfl, hp⟩
  | cons ep endpoints ih =>
    obtain ⟨hep, h⟩ := List.forall_mem_cons.mp h
    have hmem : ep ∈ kernel := hp.mem_iff.mpr List.mem_cons_self
    have herase : (kernel.erase ep).Perm (endpoints ++ base) := by
      simpa using hp.erase ep
    obtain ⟨kernel', heq, hperm⟩ := ih herase h
    refine ⟨kernel', ?_, hperm⟩
    rw [removeLoop, if_neg (by simp [hep, hmem])]
    exact heq

namespace Remote

variable {r : Remote} {kernel : List Endpoint} {uuid : Str} {refused : Endpoint → Bool}

theorem mem_destinations {ep : Endpoint} : ep ∈ r.destinations uuid ↔ (uuid, ep) ∈ r.backends := by
  simp [destinations]

/-- The recorded destinations are those of a backend and those of the others. -/
theorem perm_destinations (uuid : Str) : (r.backends.map Prod.snd).Perm (r.destinations uuid ++
    (r.backends.filter fun b => b.1 ≠ uuid).map Prod.snd) := by
  have hperm := List.filter_append_perm (fun b : Str × Endpoint => b.1 = uuid) r.backends
  rw [destinations, ← List.map_append]
  simpa using (hperm.map Prod.snd).symm

/-- How a removal ends that does all or nothing. -/
inductive Removed (r : Remote) (uuid : Str) (refused : Endpoint → Bool) (kernel : List Endpoint) :
    Remote × List Endpoint × Option Endpoint → Prop where
  | fails {ep : Endpoint} : ep ∈ r.destinations uuid → refused ep = true →
      Removed r uuid refused kernel (r, kernel, some ep)
  | removes {kernel' : List Endpoint} : r.Clears uuid refused →
      Mirrors { r with backends := r.backends.filter fun b => b.1 ≠ uuid } kernel' →
      Removed r uuid refused kernel
        ({ r with backends := r.backends.filter fun b => b.1 ≠ uuid }, kernel', none)

theorem Mirrors.remove (h : r.Mirrors kernel) (hw : r.Whole uuid refused) :
    Removed r uuid refused kernel (r.remove uuid refused kernel) := by
  have hperm := h.perm.trans (perm_destinations uuid)
  have hall : r.Clears uuid refused →
      Removed r uuid refused kernel (r.remove uuid refused kernel) := by
    intro hnone
    obtain ⟨kernel', heq, hkernel'⟩ := removeLoop_eq _ hperm hnone
    rw [Remote.remove, heq]
    refine .removes hnone ⟨?_, hkernel'⟩
    exact hkernel'.nodup_iff.mpr (List.nodup_append.mp (hperm.nodup_iff.mp h.nodup)).2.1
  cases hd : r.destinations uuid with
  | nil => exact hall (by simp [Clears, hd])
  | cons ep endpoints =>
    cases hep : refused ep with
    | false => exact hall (hw ep (by simp [hd]) hep)
    | true =>
      rw [Remote.remove, hd, removeLoop, hep]
      exact .fails (by simp [hd]) hep

end Remote

end Cocaine.Ipvs
