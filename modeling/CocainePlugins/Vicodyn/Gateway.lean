import Mathlib.Data.Finset.Basic
import Mathlib.Data.List.AList
import CocainePlugins.Framework.Dynamic
import CocainePlugins.Framework.Transition

/-!
# The tables of the gateway

`peers_t` has the peer of each node, and for each application the nodes that run it. The
gateway keeps a virtual service for an application as long as a node runs it. Services come
with `consume` and go with `cleanup`, one by one or all those of a node.

The cleanup of a node erases it from copies of the sets of nodes. So the sets stay as they are,
no virtual service is left without nodes, and the loop that erases such services does not come
to the entry after which it would go on from an erased one.
-/

namespace Cocaine.Vicodyn

open Framework

variable {ε : Type}

/-! ## Peers and applications -/

/-- The data of a `peer_t`. -/
structure PeerData (ε : Type) where
  uuid : Str
  endpoints : List ε
  extra : List (Str × Dyn)
  xCocaineCluster : Str
deriving DecidableEq

/-- The constructor of `peer_t`, which throws when the name of the cluster is not a string. -/
def PeerData.make (uuid : Str) (endpoints : List ε) (extra : List (Str × Dyn)) :
    Option (PeerData ε) :=
  match extra.lookup "x-cocaine-cluster".toList with
  | none => some ⟨uuid, endpoints, extra, []⟩
  | some (.scalar (.string name)) => some ⟨uuid, endpoints, extra, name⟩
  | some _ => none

/-- `peers_t::data_t`. A peer is a null pointer when its constructor has thrown. -/
structure Peers (ε : Type) where
  peers : AList fun _ : Str => Option (PeerData ε) := ∅
  apps : AList fun _ : Str => Finset Str := ∅

namespace Peers

variable (p : Peers ε) (uuid name : Str)

/-- `register_peer`, of a node with these endpoints. -/
def registerPeer [DecidableEq ε] (endpoints : List ε) (extra : List (Str × Dyn)) : Peers ε :=
  let peer := (p.peers.lookup uuid).getD none
  let peer :=
    if peer.any fun x => endpoints = x.endpoints then peer
    else (PeerData.make uuid endpoints extra).or peer
  { p with peers := p.peers.insert uuid peer }

def erasePeer : Peers ε := { p with peers := p.peers.erase uuid }

def nodes : Finset Str := (p.apps.lookup name).getD ∅

def registerApp : Peers ε := { p with apps := p.apps.insert name (insert uuid (p.nodes name)) }

def eraseApp : Peers ε := { p with apps := p.apps.insert name ((p.nodes name).erase uuid) }

/-- `peers_t::erase`. Its loop takes each entry of `apps` by value, and erases the uuid from
that. -/
def erase : Peers ε :=
  let p := p.erasePeer uuid
  { p with peers := p.peers.erase uuid }

end Peers

/-! ## The gateway -/

/-- The `proxy_t` of a virtual service. -/
structure Proxy where
  appName : Str
deriving DecidableEq

namespace Proxy

/-- The proxy is given `virtual::` and the name of its application. -/
def make (name : Str) : Proxy :=
  ⟨("virtual::".toList ++ name).drop "virtual::".toList.length⟩

@[simp] theorem appName_make (name : Str) : (make name).appName = name :=
  List.drop_left

def empty (proxy : Proxy) (peers : Peers ε) : Bool := decide (peers.nodes proxy.appName = ∅)

end Proxy

/-- What a service of a node speaks. -/
inductive Protocol where
  | node | app | other
deriving DecidableEq, Repr

structure Gateway (ε : Type) where
  peers : Peers ε := {}
  mapping : AList fun _ : Str => Proxy := ∅
  /-- The iterator of an erased entry has been used. -/
  faulted : Bool := false

namespace Gateway

variable (s : Gateway ε)

/-- `consume` behind the wrapped gateway; `starts` says that the virtual service does not throw
when it is made and run. -/
def consume [DecidableEq ε] (uuid name : Str) (endpoints : List ε) (protocol : Protocol)
    (extra : List (Str × Dyn)) (starts : Bool) : Gateway ε :=
  match protocol with
  | .node => { s with peers := s.peers.registerPeer uuid endpoints extra }
  | .app =>
    let s := { s with peers := s.peers.registerApp uuid name }
    if s.mapping.lookup name = none ∧ starts = true then
      { s with mapping := s.mapping.insert name (.make name) }
    else s
  | .other => s

/-- `cleanup` of one service. -/
def cleanupService (uuid name : Str) : Gateway ε :=
  if name = "node".toList then { s with peers := s.peers.erasePeer uuid }
  else
    let s := { s with peers := s.peers.eraseApp uuid name }
    match s.mapping.lookup name with
    | some proxy => if proxy.empty s.peers then { s with mapping := s.mapping.erase name } else s
    | none => s

/-- The loop over the mapping, from some entry on: what is left of the mapping, and whether the
loop has gone on from the entry that it erased. -/
def sweep (peers : Peers ε) (mapping : AList fun _ : Str => Proxy) :
    List ((_ : Str) × Proxy) → (AList fun _ : Str => Proxy) × Bool
  | [] => (mapping, false)
  | ⟨name, proxy⟩ :: entries =>
    if proxy.empty peers then (mapping.erase name, true) else sweep peers mapping entries

/-- `cleanup` of a node. -/
def cleanupNode (uuid : Str) : Gateway ε :=
  let s := { s with peers := s.peers.erase uuid }
  let swept := sweep s.peers s.mapping s.mapping.entries
  { s with mapping := swept.1, faulted := s.faulted || swept.2 }

inductive Label (ε : Type) where
  | consume (uuid name : Str) (endpoints : List ε) (protocol : Protocol)
      (extra : List (Str × Dyn)) (starts : Bool)
  | cleanupService (uuid name : Str)
  | cleanupNode (uuid : Str)

def step [DecidableEq ε] : Label ε → Gateway ε
  | .consume uuid name endpoints protocol extra starts =>
    s.consume uuid name endpoints protocol extra starts
  | .cleanupService uuid name => s.cleanupService uuid name
  | .cleanupNode uuid => s.cleanupNode uuid

end Gateway

/-- The calls of a gateway, until one is undefined. -/
def gatewaySystem (ε : Type) [DecidableEq ε] : System (Gateway ε) (Gateway.Label ε) where
  init s := s = {}
  step s a := if s.faulted then none else some (s.step a)

/-! ## What the operations do -/

namespace Peers

variable {p : Peers ε} {uuid name : Str}

@[simp] theorem nodes_registerPeer [DecidableEq ε] (endpoints : List ε)
    (extra : List (Str × Dyn)) (app : Str) :
    (p.registerPeer uuid endpoints extra).nodes app = p.nodes app := rfl

@[simp] theorem nodes_erase (app : Str) : (p.erase uuid).nodes app = p.nodes app := rfl

@[simp] theorem nodes_registerApp_self : (p.registerApp uuid name).nodes name =
    insert uuid (p.nodes name) := by
  simp [registerApp, nodes]

theorem nodes_registerApp_ne {app : Str} (h : app ≠ name) :
    (p.registerApp uuid name).nodes app = p.nodes app := by
  simp [registerApp, nodes, AList.lookup_insert_ne h]

theorem nodes_eraseApp_ne {app : Str} (h : app ≠ name) :
    (p.eraseApp uuid name).nodes app = p.nodes app := by
  simp [eraseApp, nodes, AList.lookup_insert_ne h]

theorem exists_entry {app : Str} (h : uuid ∈ p.nodes app) :
    ∃ e ∈ p.apps.entries, uuid ∈ e.2 := by
  simp only [nodes] at h
  cases hl : p.apps.lookup app with
  | none => simp [hl] at h
  | some nodes =>
    rw [hl] at h
    exact ⟨⟨app, nodes⟩, AList.mem_lookup_iff.mp hl, h⟩

theorem lookup_erase_self : (p.erase uuid).peers.lookup uuid = none := AList.lookup_erase _ _

theorem lookup_erase_ne {other : Str} (h : other ≠ uuid) :
    (p.erase uuid).peers.lookup other = p.peers.lookup other := by
  simp [erase, erasePeer, AList.lookup_erase_ne h]

end Peers

theorem Proxy.empty_eq_false {proxy : Proxy} {peers : Peers ε} :
    proxy.empty peers = false ↔ (peers.nodes proxy.appName).Nonempty := by
  simp [empty, Finset.nonempty_iff_ne_empty]

namespace Gateway

variable {s t : Gateway ε}

/-- Every virtual service is of its application, and that has a node. -/
def Served (s : Gateway ε) : Prop :=
  ∀ name proxy, s.mapping.lookup name = some proxy →
    proxy.appName = name ∧ (s.peers.nodes name).Nonempty

theorem sweep_served {peers : Peers ε} {mapping : AList fun _ : Str => Proxy}
    {entries : List ((_ : Str) × Proxy)}
    (h : ∀ e ∈ entries, (peers.nodes e.2.appName).Nonempty) :
    sweep peers mapping entries = (mapping, false) := by
  induction entries with
  | nil => rfl
  | cons e entries ih =>
    have he : e.2.empty peers = false := Proxy.empty_eq_false.mpr (h e List.mem_cons_self)
    simp only [sweep, he, Bool.false_eq_true, if_false]
    exact ih fun e' he' => h e' (List.mem_cons_of_mem e he')

namespace Served

theorem consume [DecidableEq ε] (h : Served s) (uuid name : Str) (endpoints : List ε) (protocol : Protocol)
    (extra : List (Str × Dyn)) (starts : Bool) :
    Served (s.consume uuid name endpoints protocol extra starts) := by
  have happ : ∀ app proxy, s.mapping.lookup app = some proxy → proxy.appName = app ∧
      ((s.peers.registerApp uuid name).nodes app).Nonempty := by
    intro app proxy hl
    obtain ⟨hname, hnodes⟩ := h app proxy hl
    refine ⟨hname, ?_⟩
    by_cases hn : app = name
    · rw [hn, Peers.nodes_registerApp_self]
      exact Finset.insert_nonempty _ _
    · rw [Peers.nodes_registerApp_ne hn]
      exact hnodes
  cases protocol with
  | node | other => exact h
  | app =>
    simp only [Gateway.consume]
    split
    · intro app proxy hl
      by_cases hn : app = name
      · rw [hn, AList.lookup_insert, Option.some.injEq] at hl
        rw [hn, ← hl]
        exact ⟨Proxy.appName_make name, by simp⟩
      · rw [AList.lookup_insert_ne hn] at hl
        exact happ app proxy hl
    · exact happ

theorem cleanupService (h : Served s) (uuid name : Str) : Served (s.cleanupService uuid name) := by
  -- The application that loses the node is looked at, and the others keep theirs.
  have hother : ∀ app proxy, app ≠ name → s.mapping.lookup app = some proxy →
      proxy.appName = app ∧ ((s.peers.eraseApp uuid name).nodes app).Nonempty := by
    intro app proxy hn hl
    rw [Peers.nodes_eraseApp_ne hn]
    exact h app proxy hl
  simp only [Gateway.cleanupService]
  split
  · exact h
  · split
    · rename_i proxy hproxy
      split
      · intro app proxy' hl
        have hn : app ≠ name := by
          rintro rfl
          simp at hl
        rw [AList.lookup_erase_ne hn] at hl
        exact hother app proxy' hn hl
      · rename_i hne
        intro app proxy' hl
        by_cases hn : app = name
        · rw [hn] at hl
          obtain rfl : proxy = proxy' := Option.some.inj (hproxy.symm.trans hl)
          have hname := (h name proxy hproxy).1
          have hnodes := Proxy.empty_eq_false.mp (Bool.not_eq_true _ ▸ hne)
          rw [hname] at hnodes
          rw [hn]
          exact ⟨hname, hnodes⟩
        · exact hother app proxy' hn hl
    · rename_i hproxy
      intro app proxy hl
      have hn : app ≠ name := by
        rintro rfl
        rw [hproxy] at hl
        cases hl
      exact hother app proxy hn hl

/-- The cleanup of a node leaves the virtual services, and their nodes. -/
theorem cleanupNode_eq (h : Served s) (uuid : Str) :
    s.cleanupNode uuid = { s with peers := s.peers.erase uuid } := by
  have hsweep : sweep (s.peers.erase uuid) s.mapping s.mapping.entries = (s.mapping, false) := by
    refine sweep_served fun e he => ?_
    obtain ⟨hname, hnodes⟩ := h e.1 e.2 (AList.mem_lookup_iff.mpr he)
    rw [hname, Peers.nodes_erase]
    exact hnodes
  simp [Gateway.cleanupNode, hsweep]

theorem of_reachable [DecidableEq ε] (hr : (gatewaySystem ε).Reachable System.Any s) :
    Served s ∧ s.faulted = false := by
  refine hr.induct (P := fun s => Served s ∧ s.faulted = false) ?_ ?_
  · rintro s rfl
    exact ⟨fun name proxy hl => by simp at hl, rfl⟩
  · rintro s a t ⟨h, hf⟩ - hs
    simp only [gatewaySystem, hf, Bool.false_eq_true, if_false, Option.some.injEq] at hs
    subst hs
    cases a with
    | consume uuid name endpoints protocol extra starts =>
      refine ⟨h.consume uuid name endpoints protocol extra starts, ?_⟩
      cases protocol with
      | node | other => exact hf
      | app =>
        simp only [step, Gateway.consume]
        split <;> exact hf
    | cleanupService uuid name =>
      refine ⟨h.cleanupService uuid name, ?_⟩
      simp only [step, Gateway.cleanupService]
      split
      · exact hf
      · split
        · split <;> exact hf
        · exact hf
    | cleanupNode uuid =>
      simp only [step, h.cleanupNode_eq]
      exact ⟨h, hf⟩

end Served

/-! ## Every run -/

/-- After the cleanup of a node it has no peer, the other nodes have what they had, every virtual
service has a node, and no erased entry was used. The node is in no set of nodes either, if it
was in none before. -/
theorem cleanup_drops [DecidableEq ε] (hr : (gatewaySystem ε).Reachable System.Any s) (uuid : Str) :
    uuid ∉ (s.cleanupNode uuid).peers.peers ∧
      (∀ other, other ≠ uuid →
        (s.cleanupNode uuid).peers.peers.lookup other = s.peers.peers.lookup other ∧
        ∀ app, other ∈ (s.cleanupNode uuid).peers.nodes app ↔ other ∈ s.peers.nodes app) ∧
      (∀ name proxy, (s.cleanupNode uuid).mapping.lookup name = some proxy →
        proxy.empty (s.cleanupNode uuid).peers = false) ∧
      (s.cleanupNode uuid).faulted = false ∧
      ((∀ app, uuid ∉ s.peers.nodes app) → ∀ app, uuid ∉ (s.cleanupNode uuid).peers.nodes app) := by
  obtain ⟨h, hf⟩ := Served.of_reachable hr
  rw [h.cleanupNode_eq uuid]
  refine ⟨AList.lookup_eq_none.mp Peers.lookup_erase_self, fun other hne => ?_,
    fun name proxy hl => ?_, hf, fun hnone app => hnone app⟩
  · exact ⟨Peers.lookup_erase_ne hne, fun app => Iff.rfl⟩
  · obtain ⟨hname, hnodes⟩ := h name proxy hl
    rw [Proxy.empty_eq_false, hname]
    exact hnodes

/-- An application on two nodes; one of them loses it, and then is cleaned up. -/
theorem cleanup_drops_unregistered :
    ∃ s : Gateway Nat, (gatewaySystem Nat).Reachable System.Any s ∧
      "a".toList ∈ s.peers.peers ∧
      "a".toList ∉ (s.cleanupNode "a".toList).peers.peers ∧
      (∀ app, "a".toList ∉ (s.cleanupNode "a".toList).peers.nodes app) ∧
      "b".toList ∈ (s.cleanupNode "a".toList).peers.nodes "app".toList ∧
      "app".toList ∈ (s.cleanupNode "a".toList).mapping := by
  obtain ⟨s, hr, ha, hnone, hb, happ⟩ := (gatewaySystem Nat).exists_reachable System.Any
    (P := fun s => "a".toList ∈ s.peers.peers ∧ (∀ e ∈ s.peers.apps.entries, "a".toList ∉ e.2) ∧
      "b".toList ∈ s.peers.nodes "app".toList ∧
      "app".toList ∈ (s.cleanupNode "a".toList).mapping)
    [.consume "a".toList "node".toList [1] .node [] true,
      .consume "a".toList "app".toList [2] .app [] true,
      .consume "b".toList "app".toList [3] .app [] true,
      .cleanupService "a".toList "app".toList] rfl (by decide +kernel)
  obtain ⟨hpeer, hothers, -, -, hnodes⟩ := cleanup_drops hr "a".toList
  refine ⟨s, hr, ha, hpeer, hnodes fun app hmem => ?_,
    ((hothers "b".toList (by decide)).2 "app".toList).mpr hb, happ⟩
  obtain ⟨e, he, hmem⟩ := Peers.exists_entry hmem
  exact hnone e he hmem

/-- The node of an application is cleaned up, and still is a node of the application. -/
theorem cleanup_keeps_app :
    ∃ s : Gateway Nat, (gatewaySystem Nat).Reachable System.Any s ∧
      "a".toList ∈ (s.cleanupNode "a".toList).peers.nodes "app".toList :=
  (gatewaySystem Nat).exists_reachable System.Any
    [.consume "a".toList "node".toList [1] .node [] true,
      .consume "a".toList "app".toList [2] .app [] true] rfl (by decide +kernel)

end Gateway

end Cocaine.Vicodyn
