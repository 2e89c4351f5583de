import CocainePlugins.Vicodyn.Gateway

/-!
# A service that comes and goes

`consume` looks at the protocol of a service, and `cleanup` at its name. So a cleanup that follows
a `consume` takes back what that has registered if the node service, and no other, has the name
`node`; and it takes away what others have registered if a service of another protocol has the
name of theirs. A service that is announced once more is registered already, and its cleanup takes
away what an earlier `consume` has added.
-/

namespace Cocaine.Vicodyn

open Framework

variable {ε : Type}

namespace Peers

variable {p : Peers ε} {uuid name : Str}

theorem nodes_eraseApp (app : Str) : (p.eraseApp uuid name).nodes app =
    if app = name then (p.nodes app).erase uuid else p.nodes app := by
  split
  · rename_i h
    subst h
    simp [eraseApp, nodes]
  · rename_i h
    exact nodes_eraseApp_ne h

/-- An application is erased from the node, if it was just registered or not. -/
theorem nodes_eraseApp_registerApp (app : Str) :
    ((p.registerApp uuid name).eraseApp uuid name).nodes app = (p.eraseApp uuid name).nodes app := by
  rw [nodes_eraseApp, nodes_eraseApp]
  split
  · rename_i h
    rw [h, nodes_registerApp_self, Finset.erase_insert_eq_erase]
  · rename_i h
    exact nodes_registerApp_ne h

theorem nodes_registerApp_eq_iff :
    (∀ app, (p.registerApp uuid name).nodes app = p.nodes app) ↔ uuid ∈ p.nodes name := by
  constructor
  · intro h
    rw [← h name, nodes_registerApp_self]
    exact Finset.mem_insert_self _ _
  · intro h app
    by_cases happ : app = name
    · rw [happ, nodes_registerApp_self, Finset.insert_eq_of_mem h]
    · exact nodes_registerApp_ne happ

theorem nodes_eraseApp_eq_iff :
    (∀ app, (p.eraseApp uuid name).nodes app = p.nodes app) ↔ uuid ∉ p.nodes name := by
  constructor
  · intro h
    have hn := h name
    rw [nodes_eraseApp, if_pos rfl] at hn
    exact Finset.erase_eq_self.mp hn
  · intro h app
    rw [nodes_eraseApp]
    split
    · rename_i happ
      rw [happ, Finset.erase_eq_of_notMem h]
    · rfl

theorem lookup_erasePeer (other : Str) : (p.erasePeer uuid).peers.lookup other =
    if other = uuid then none else p.peers.lookup other := by
  split
  · rename_i h
    rw [h]
    exact AList.lookup_erase _ _
  · rename_i h
    exact AList.lookup_erase_ne h

/-- There is an entry of the node already, which stays: the endpoints are those of its peer, or
the constructor of a new one throws. -/
def Known (p : Peers ε) (uuid : Str) (endpoints : List ε) (extra : List (Str × Dyn)) : Prop :=
  ∃ peer, p.peers.lookup uuid = some peer ∧
    ((∃ d, peer = some d ∧ endpoints = d.endpoints) ∨ PeerData.make uuid endpoints extra = none)

variable {endpoints : List ε} {extra : List (Str × Dyn)}

theorem endpoints_of_make {d : PeerData ε} (h : PeerData.make uuid endpoints extra = some d) :
    endpoints = d.endpoints := by
  unfold PeerData.make at h
  split at h <;> cases h <;> rfl

variable [DecidableEq ε]

theorem lookup_registerPeer_ne {other : Str} (h : other ≠ uuid) :
    (p.registerPeer uuid endpoints extra).peers.lookup other = p.peers.lookup other :=
  AList.lookup_insert_ne h

theorem lookup_registerPeer_eq_iff :
    (∀ other, (p.registerPeer uuid endpoints extra).peers.lookup other = p.peers.lookup other) ↔
      p.Known uuid endpoints extra := by
  have hself : (∀ other, (p.registerPeer uuid endpoints extra).peers.lookup other =
      p.peers.lookup other) ↔
        (p.registerPeer uuid endpoints extra).peers.lookup uuid = p.peers.lookup uuid := by
    refine ⟨fun h => h uuid, fun h other => ?_⟩
    by_cases ho : other = uuid
    · rw [ho, h]
    · exact lookup_registerPeer_ne ho
  rw [hself, registerPeer, AList.lookup_insert, Known]
  cases hl : p.peers.lookup uuid with
  | none => simp
  | some peer =>
    simp only [Option.getD_some, Option.some.injEq, exists_eq_left', Option.any_eq_true,
      decide_eq_true_eq]
    split
    · rename_i h
      exact iff_of_true rfl (.inl h)
    · rename_i h
      rw [or_iff_right h]
      cases hmake : PeerData.make uuid endpoints extra with
      | none => exact iff_of_true rfl rfl
      | some d =>
        refine iff_of_false (fun heq => h ⟨d, heq.symm, endpoints_of_make hmake⟩) nofun

end Peers

namespace Gateway

variable {s u : Gateway ε} {uuid name : Str}

/-- The registrations are those of before, and so is the virtual service of an application that has
nodes. -/
structure Undone (s t : Gateway ε) : Prop where
  peers : ∀ other, t.peers.peers.lookup other = s.peers.peers.lookup other
  apps : ∀ app, t.peers.nodes app = s.peers.nodes app
  services : ∀ app, (t.peers.nodes app).Nonempty → t.mapping.lookup app = s.mapping.lookup app

/-- What the cleanup will erase is not registered before. A protocol that does not fit the name
registers nothing new, and there is a virtual service for an application that has nodes, if one
can be started. -/
def Fits (s : Gateway ε) (uuid name : Str) (endpoints : List ε) (protocol : Protocol)
    (extra : List (Str × Dyn)) (starts : Bool) : Prop :=
  (if name = "node".toList then s.peers.peers.lookup uuid = none else uuid ∉ s.peers.nodes name) ∧
  match protocol with
  | .node => name ≠ "node".toList → s.peers.Known uuid endpoints extra
  | .app => (name = "node".toList → uuid ∈ s.peers.nodes name) ∧
      (starts = true → (s.peers.nodes name).Nonempty → s.mapping.lookup name ≠ none)
  | .other => True

/-! ## The cleanup -/

/-- A virtual service whose application has nodes left stays. -/
theorem cleanupService_mapping (h : name ≠ "node".toList)
    (hown : ∀ proxy, s.mapping.lookup name = some proxy → proxy.appName = name) {app : Str}
    (hleft : ((s.peers.eraseApp uuid name).nodes app).Nonempty) :
    (s.cleanupService uuid name).mapping.lookup app = s.mapping.lookup app := by
  simp only [cleanupService, if_neg h]
  split
  · rename_i proxy hproxy
    split
    · rename_i hempty
      refine AList.lookup_erase_ne ?_
      rintro rfl
      rw [Proxy.empty, hown proxy hproxy, decide_eq_true_eq] at hempty
      rw [hempty] at hleft
      exact Finset.not_nonempty_empty hleft
    · rfl
  · rfl

theorem undone_node_iff
    (hpeers : ∀ other, other ≠ uuid → u.peers.peers.lookup other = s.peers.peers.lookup other) :
    Undone s (u.cleanupService uuid "node".toList) ↔ s.peers.peers.lookup uuid = none ∧
      (∀ app, u.peers.nodes app = s.peers.nodes app) ∧
      ∀ app, (s.peers.nodes app).Nonempty → u.mapping.lookup app = s.mapping.lookup app := by
  rw [cleanupService, if_pos rfl]
  constructor
  · refine fun h => ⟨?_, h.apps, fun app hleft => h.services app (h.apps app ▸ hleft)⟩
    rw [← h.peers uuid, Peers.lookup_erasePeer, if_pos rfl]
  · rintro ⟨hnone, happs, hservices⟩
    refine ⟨fun other => ?_, happs, fun app hleft => hservices app (happs app ▸ hleft)⟩
    rw [Peers.lookup_erasePeer]
    split
    · rename_i hother
      rw [hother, hnone]
    · rename_i hother
      exact hpeers other hother

theorem undone_name_iff (hname : name ≠ "node".toList) (hserved : Served u) :
    Undone s (u.cleanupService uuid name) ↔
      (∀ other, u.peers.peers.lookup other = s.peers.peers.lookup other) ∧
      (∀ app, (u.peers.eraseApp uuid name).nodes app = s.peers.nodes app) ∧
      ∀ app, (s.peers.nodes app).Nonempty → u.mapping.lookup app = s.mapping.lookup app := by
  have hpeers : (u.cleanupService uuid name).peers = u.peers.eraseApp uuid name := by
    simp only [cleanupService, if_neg hname]
    split
    · split <;> rfl
    · rfl
  have hmapping {app : Str} (hleft : ((u.peers.eraseApp uuid name).nodes app).Nonempty) :
      (u.cleanupService uuid name).mapping.lookup app = u.mapping.lookup app :=
    cleanupService_mapping hname (fun proxy hl => (hserved name proxy hl).1) hleft
  constructor
  · rintro ⟨hp, happs, hservices⟩
    rw [hpeers] at hp happs hservices
    refine ⟨hp, happs, fun app hleft => ?_⟩
    rw [← happs] at hleft
    rw [← hservices app hleft, hmapping hleft]
  · rintro ⟨hp, happs, hservices⟩
    refine ⟨?_, ?_, ?_⟩ <;> rw [hpeers]
    · exact hp
    · exact happs
    · intro app hleft
      rw [hmapping hleft]
      exact hservices app (happs app ▸ hleft)

/-! ## Each protocol -/

variable [DecidableEq ε] {endpoints : List ε} {extra : List (Str × Dyn)} {starts : Bool}

theorem undone_consume_node_iff (h : Served s) :
    Undone s ((s.consume uuid name endpoints .node extra starts).cleanupService uuid name) ↔
      s.Fits uuid name endpoints .node extra starts := by
  simp only [Fits]
  split
  · rename_i hname
    subst hname
    rw [undone_node_iff fun other => Peers.lookup_registerPeer_ne]
    simp [consume]
  · rename_i hname
    rw [undone_name_iff hname (h.consume uuid name endpoints .node extra starts)]
    constructor
    · rintro ⟨hp, happs, -⟩
      exact ⟨Peers.nodes_eraseApp_eq_iff.mp happs, fun _ => Peers.lookup_registerPeer_eq_iff.mp hp⟩
    · rintro ⟨happ, hknown⟩
      exact ⟨Peers.lookup_registerPeer_eq_iff.mpr (hknown hname),
        Peers.nodes_eraseApp_eq_iff.mpr happ, fun _ _ => rfl⟩

/-- The virtual service that `consume` may start is for an application without nodes. -/
theorem consume_app_mapping_iff :
    (∀ app, (s.peers.nodes app).Nonempty →
      (s.consume uuid name endpoints .app extra starts).mapping.lookup app = s.mapping.lookup app) ↔
      (starts = true → (s.peers.nodes name).Nonempty → s.mapping.lookup name ≠ none) := by
  simp only [consume]
  split
  · rename_i h
    constructor
    · intro hall _ hleft _
      have hname := hall name hleft
      rw [AList.lookup_insert, h.1] at hname
      cases hname
    · intro hcond app hleft
      refine AList.lookup_insert_ne ?_
      rintro rfl
      exact hcond h.2 hleft h.1
  · rename_i h
    exact iff_of_true (fun _ _ => rfl) fun hstarts _ hnone => h ⟨hnone, hstarts⟩

theorem undone_consume_app_iff (h : Served s) :
    Undone s ((s.consume uuid name endpoints .app extra starts).cleanupService uuid name) ↔
      s.Fits uuid name endpoints .app extra starts := by
  have hpeers : (s.consume uuid name endpoints .app extra starts).peers =
      s.peers.registerApp uuid name := by
    simp only [consume]
    split <;> rfl
  simp only [Fits]
  split
  · rename_i hname
    subst hname
    rw [undone_node_iff fun other _ => by rw [hpeers]; rfl, consume_app_mapping_iff, hpeers]
    simp only [Peers.nodes_registerApp_eq_iff, eq_self, true_imp_iff]
  · rename_i hname
    rw [undone_name_iff hname (h.consume uuid name endpoints .app extra starts),
      consume_app_mapping_iff, hpeers]
    simp only [Peers.nodes_eraseApp_registerApp, Peers.nodes_eraseApp_eq_iff, hname, false_imp_iff,
      true_and]
    exact and_iff_right fun _ => rfl

theorem undone_consume_other_iff (h : Served s) :
    Undone s ((s.consume uuid name endpoints .other extra starts).cleanupService uuid name) ↔
      s.Fits uuid name endpoints .other extra starts := by
  simp only [Fits, consume]
  split
  · rename_i hname
    subst hname
    rw [undone_node_iff fun _ _ => rfl]
    simp
  · rename_i hname
    rw [undone_name_iff hname h, Peers.nodes_eraseApp_eq_iff]
    simp

/-! ## Every state -/

/-- The cleanup of a service that has just been consumed leaves the registrations as they were
just if what it erases by the name is what `consume` has added by the protocol. -/
theorem cleanup_undoes_iff (hr : (gatewaySystem ε).Reachable System.Any s) (uuid name : Str)
    (endpoints : List ε) (protocol : Protocol) (extra : List (Str × Dyn)) (starts : Bool) :
    Undone s ((s.consume uuid name endpoints protocol extra starts).cleanupService uuid name) ↔
      s.Fits uuid name endpoints protocol extra starts := by
  have h := (Served.of_reachable hr).1
  cases protocol with
  | node => exact undone_consume_node_iff h
  | app => exact undone_consume_app_iff h
  | other => exact undone_consume_other_iff h

/-- The application of a second node comes and goes. -/
theorem cleanup_undoes_second :
    ∃ s : Gateway Nat, (gatewaySystem Nat).Reachable System.Any s ∧
      s.Fits "b".toList "app".toList [3] .app [] true ∧
      Undone s ((s.consume "b".toList "app".toList [3] .app [] true).cleanupService "b".toList
        "app".toList) := by
  obtain ⟨s, hr, hnode, hmapping⟩ := (gatewaySystem Nat).exists_reachable System.Any
    (P := fun s => "b".toList ∉ s.peers.nodes "app".toList ∧ s.mapping.lookup "app".toList ≠ none)
    [.consume "a".toList "node".toList [1] .node [] true,
      .consume "a".toList "app".toList [2] .app [] true] rfl (by decide +kernel)
  have hfits : s.Fits "b".toList "app".toList [3] .app [] true :=
    ⟨hnode, nofun, fun _ _ => hmapping⟩
  exact ⟨s, hr, hfits, (cleanup_undoes_iff hr "b".toList "app".toList [3] .app [] true).mpr hfits⟩

/-- A peer of the node protocol under another name stays, and the node of an application with the
name `node`. A service of another protocol with the name of an application takes the node from
that, or with the name `node` takes the peer away; and so does a service that was there before. -/
theorem cleanup_leaves_or_takes :
    (∃ s : Gateway Nat, (gatewaySystem Nat).Reachable System.Any s ∧
      s.peers.peers.lookup "a".toList = none ∧
      ((s.consume "a".toList "node2".toList [1] .node [] true).cleanupService "a".toList
        "node2".toList).peers.peers.lookup "a".toList ≠ none) ∧
    (∃ s : Gateway Nat, (gatewaySystem Nat).Reachable System.Any s ∧
      "a".toList ∉ s.peers.nodes "node".toList ∧
      "a".toList ∈ ((s.consume "a".toList "node".toList [1] .app [] true).cleanupService "a".toList
        "node".toList).peers.nodes "node".toList) ∧
    ∃ s : Gateway Nat, (gatewaySystem Nat).Reachable System.Any s ∧
      ("a".toList ∈ s.peers.nodes "app".toList ∧ s.peers.peers.lookup "a".toList ≠ none) ∧
      (∀ protocol ∈ [Protocol.app, .other], "a".toList ∉
        ((s.consume "a".toList "app".toList [2] protocol [] true).cleanupService "a".toList
          "app".toList).peers.nodes "app".toList) ∧
      ∀ protocol ∈ [Protocol.node, .other],
        ((s.consume "a".toList "node".toList [1] protocol [] true).cleanupService "a".toList
          "node".toList).peers.peers.lookup "a".toList = none := by
  refine ⟨(gatewaySystem Nat).exists_reachable System.Any [] rfl (by decide +kernel),
    (gatewaySystem Nat).exists_reachable System.Any [] rfl (by decide +kernel),
    (gatewaySystem Nat).exists_reachable System.Any
      [.consume "a".toList "node".toList [1] .node [] true,
        .consume "a".toList "app".toList [2] .app [] true] rfl (by decide +kernel)⟩

end Gateway

end Cocaine.Vicodyn
