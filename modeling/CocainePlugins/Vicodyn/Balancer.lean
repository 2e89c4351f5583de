import CocainePlugins.Vicodyn.Gateway

/-!
# The simple balancer

`simple_t::choose_peer` looks at the tables that the gateway and the balancers have left. What is
in them depends on the last call for a node, and for an application on a node (`Recorded`); the
choice is among the nodes for which both were announced.
-/

namespace Cocaine.Vicodyn.Peers

open Framework

variable {ε : Type}

inductive Choice (ε : Type) where
  | peer (x : PeerData ε)
  /-- The error `no peers found`. -/
  | noPeers
  /-- A null pointer is used. -/
  | faulted

/-- The peers that `choose_random_if` chooses from, those with a session being `connected`. -/
def chosen (p : Peers ε) (app cluster : Str) (connected : PeerData ε → Bool) : List (PeerData ε) :=
  (p.peers.entries.filterMap fun pair => pair.2).filter fun x =>
    connected x && cluster = x.xCocaineCluster && x.uuid ∈ p.nodes app

/-- `choose_peer`, when `rand` returns `n`. -/
def choosePeer (p : Peers ε) (app cluster : Str) (connected : PeerData ε → Bool) (n : Nat) :
    Choice ε :=
  if p.nodes app = ∅ then .noPeers
  else if p.peers.entries.any fun pair => pair.2.isNone then .faulted
  else
    match (p.chosen app cluster connected)[n % (p.chosen app cluster connected).length]? with
    | some x => .peer x
    | none => .noPeers

/-- `on_error`; `notRunning` says that the code is `not_running` of a node. -/
def onError (p : Peers ε) (app : Str) (x : PeerData ε) (notRunning : Bool) : Peers ε :=
  if notRunning then p.eraseApp x.uuid app else p

/-- The calls that change the tables. -/
inductive Call (ε : Type) where
  | registerPeer (uuid : Str) (endpoints : List ε) (extra : List (Str × Dyn))
  | erasePeer (uuid : Str)
  | registerApp (uuid name : Str)
  | eraseApp (uuid name : Str)
  | erase (uuid : Str)

/-- Whether the node is there after the call, from whether it was before. -/
def hasNode (uuid : Str) (b : Bool) : Call ε → Bool
  | .registerPeer u _ _ => uuid = u || b
  | .erasePeer u | .erase u => uuid ≠ u && b
  | _ => b

/-- The same for an application on a node. -/
def hasApp (uuid app : Str) (b : Bool) : Call ε → Bool
  | .registerApp u name => (uuid = u ∧ app = name) || b
  | .eraseApp u name => ¬(uuid = u ∧ app = name) && b
  | _ => b

/-- The last calls for the node, and for the application on it, announce them. -/
def Announced (calls : List (Call ε)) (uuid app : Str) : Prop :=
  calls.foldl (hasNode uuid) false = true ∧ calls.foldl (hasApp uuid app) false = true

/-! ## The tables -/

/-- The tables after the calls. -/
structure Recorded (calls : List (Call ε)) (p : Peers ε) : Prop where
  node : ∀ uuid, (p.peers.lookup uuid).isSome = calls.foldl (hasNode uuid) false
  app : ∀ uuid app, decide (uuid ∈ p.nodes app) = calls.foldl (hasApp uuid app) false
  made : ∀ uuid peer, p.peers.lookup uuid = some peer → ∃ endpoints extra,
    .registerPeer uuid endpoints extra ∈ calls ∧ PeerData.make uuid endpoints extra = peer

variable {p : Peers ε} {calls : List (Call ε)} {uuid app cluster : Str}
  {connected : PeerData ε → Bool}

theorem Recorded.uuid_eq {x : PeerData ε} (h : Recorded calls p)
    (hl : p.peers.lookup uuid = some (some x)) : x.uuid = uuid := by
  obtain ⟨endpoints, extra, -, hmake⟩ := h.made uuid _ hl
  unfold PeerData.make at hmake
  split at hmake <;> cases hmake <;> rfl

theorem mem_chosen {x : PeerData ε} : x ∈ p.chosen app cluster connected ↔
    (∃ uuid, p.peers.lookup uuid = some (some x)) ∧ connected x = true ∧
      cluster = x.xCocaineCluster ∧ x.uuid ∈ p.nodes app := by
  have hpeer : (∃ e ∈ p.peers.entries, e.2 = some x) ↔
      ∃ uuid, p.peers.lookup uuid = some (some x) := by
    constructor
    · rintro ⟨⟨uuid, _⟩, he, rfl⟩
      exact ⟨uuid, AList.mem_lookup_iff.mpr he⟩
    · rintro ⟨uuid, hl⟩
      exact ⟨_, AList.mem_lookup_iff.mp hl, rfl⟩
  simp [chosen, hpeer, and_assoc]

theorem Recorded.announced_iff (h : Recorded calls p) :
    Announced calls uuid app ↔ (p.peers.lookup uuid).isSome = true ∧ uuid ∈ p.nodes app := by
  rw [Announced, ← h.node, ← h.app, decide_eq_true_iff]

/-- What `choose_peer` returns is registered, and was announced with the application. -/
theorem Recorded.choosePeer {n : Nat} {x : PeerData ε} (h : Recorded calls p)
    (hx : p.choosePeer app cluster connected n = .peer x) :
    p.peers.lookup x.uuid = some (some x) ∧ Announced calls x.uuid app ∧ connected x = true ∧
      x.xCocaineCluster = cluster := by
  unfold Peers.choosePeer at hx
  split_ifs at hx
  split at hx
  · rename_i hget
    cases hx
    obtain ⟨⟨uuid, hl⟩, hc, hcl, hmem⟩ := mem_chosen.mp (List.mem_of_getElem? hget)
    obtain rfl := h.uuid_eq hl
    exact ⟨hl, h.announced_iff.mpr ⟨by simp [hl], hmem⟩, hc, hcl.symm⟩
  · cases hx

theorem foldl_hasApp {later : List (Call ε)} (h : .registerApp uuid app ∉ later) :
    later.foldl (hasApp uuid app) false = false := by
  induction later with
  | nil => rfl
  | cons a later ih =>
    rw [List.mem_cons, not_or] at h
    have ha : hasApp uuid app false a = false := by
      cases a with
      | registerApp u name => simpa [hasApp] using h.1
      | eraseApp => exact Bool.and_false _
      | _ => rfl
    rw [List.foldl_cons, ha]
    exact ih h.2

variable [DecidableEq ε]

def step (p : Peers ε) : Call ε → Peers ε
  | .registerPeer uuid endpoints extra => p.registerPeer uuid endpoints extra
  | .erasePeer uuid => p.erasePeer uuid
  | .registerApp uuid name => p.registerApp uuid name
  | .eraseApp uuid name => p.eraseApp uuid name
  | .erase uuid => p.erase uuid

def after (calls : List (Call ε)) : Peers ε := calls.foldl step {}

theorem isSome_step (a : Call ε) :
    ((p.step a).peers.lookup uuid).isSome = hasNode uuid (p.peers.lookup uuid).isSome a := by
  cases a with
  | registerPeer u | erasePeer u | erase u =>
    by_cases h : uuid = u
    · subst h
      simp [step, registerPeer, erasePeer, erase, hasNode]
    · simp [step, registerPeer, erasePeer, erase, hasNode, h]
  | _ => rfl

theorem nodes_step (a : Call ε) :
    decide (uuid ∈ (p.step a).nodes app) = hasApp uuid app (decide (uuid ∈ p.nodes app)) a := by
  have herase (u : Str) : (p.eraseApp u app).nodes app = (p.nodes app).erase u := by
    simp [eraseApp, nodes]
  cases a with
  | registerApp u name | eraseApp u name =>
    rw [Bool.eq_iff_iff]
    by_cases h : app = name
    · subst h
      simp [step, hasApp, herase]
    · simp [step, hasApp, nodes_registerApp_ne, nodes_eraseApp_ne, h]
  | _ => rfl

/-- An entry that is there after a call was there before it, or is made in it. -/
theorem lookup_step {a : Call ε} {peer : Option (PeerData ε)}
    (h : (p.step a).peers.lookup uuid = some peer) :
    p.peers.lookup uuid = some peer ∨ ∃ endpoints extra,
      a = .registerPeer uuid endpoints extra ∧ PeerData.make uuid endpoints extra = peer := by
  cases a with
  | registerPeer u endpoints extra =>
    by_cases hu : uuid = u
    · subst hu
      simp only [step, registerPeer, AList.lookup_insert, Option.some.injEq] at h
      cases hl : p.peers.lookup uuid with
      | none => exact .inr ⟨endpoints, extra, rfl, by simpa [hl] using h⟩
      | some q =>
        cases hm : PeerData.make uuid endpoints extra with
        | none => exact .inl (by simpa [hl, hm] using h)
        | some z =>
          simp only [hl, hm, Option.getD_some, Option.some_or] at h
          split at h
          · exact .inl (by rw [h])
          · exact .inr ⟨endpoints, extra, rfl, hm.trans h⟩
    · exact .inl (by simpa [step, registerPeer, hu] using h)
  | erasePeer u | erase u =>
    have hu : uuid ≠ u := by
      rintro rfl
      simp [step, erase, erasePeer] at h
    exact .inl (by simpa [step, erase, erasePeer, hu] using h)
  | _ => exact .inl h

theorem recorded (calls : List (Call ε)) : Recorded calls (after calls) := by
  induction calls using List.reverseRecOn with
  | nil => exact ⟨by simp [after], by simp [after, nodes], by simp [after]⟩
  | append_singleton calls a ih =>
    rw [show after (calls ++ [a]) = (after calls).step a from List.foldl_append ..]
    refine ⟨fun uuid => ?_, fun uuid app => ?_, fun uuid peer h => ?_⟩
    · rw [isSome_step, ih.node, List.foldl_append]
      rfl
    · rw [nodes_step, ih.app, List.foldl_append]
      rfl
    · rcases lookup_step h with h | ⟨endpoints, extra, rfl, hmake⟩
      · obtain ⟨endpoints, extra, hmem, hmake⟩ := ih.made uuid peer h
        exact ⟨endpoints, extra, List.mem_append_left _ hmem, hmake⟩
      · exact ⟨endpoints, extra, by simp, hmake⟩

/-- After any calls, a request for an application goes to the peer of a node that was announced
with the application on it, that has a session and is in the cluster of the locator. There are no
peers only if there is no such node, and a null pointer is used only if a node was announced with
a cluster that is not a string. -/
theorem chosen_announced (calls : List (Call ε)) (app cluster : Str)
    (connected : PeerData ε → Bool) (n : Nat) :
    match (after calls).choosePeer app cluster connected n with
    | .peer x => (after calls).peers.lookup x.uuid = some (some x) ∧
        Announced calls x.uuid app ∧ connected x = true ∧ x.xCocaineCluster = cluster
    | .noPeers => ∀ uuid x, (after calls).peers.lookup uuid = some (some x) →
        Announced calls uuid app → connected x = true → x.xCocaineCluster ≠ cluster
    | .faulted => ∃ uuid endpoints extra, .registerPeer uuid endpoints extra ∈ calls ∧
        PeerData.make uuid endpoints extra = none := by
  have h := recorded calls
  generalize after calls = p at h
  cases hx : p.choosePeer app cluster connected n with
  | peer x => exact h.choosePeer hx
  | noPeers =>
    intro uuid x hl ha hc hcl
    obtain rfl := h.uuid_eq hl
    have hnodes := (h.announced_iff.mp ha).2
    have hmem : x ∈ p.chosen app cluster connected := mem_chosen.mpr ⟨⟨_, hl⟩, hc, hcl.symm, hnodes⟩
    unfold choosePeer at hx
    rw [if_neg (Finset.ne_empty_of_mem hnodes)] at hx
    split_ifs at hx
    rw [List.getElem?_eq_getElem (Nat.mod_lt n (List.length_pos_of_mem hmem))] at hx
    cases hx
  | faulted =>
    unfold choosePeer at hx
    split_ifs at hx with _ hnull
    · obtain ⟨⟨uuid, peer⟩, he, hnone⟩ := List.any_eq_true.mp hnull
      obtain rfl := Option.isNone_iff_eq_none.mp hnone
      exact ⟨uuid, h.made uuid none (AList.mem_lookup_iff.mpr he)⟩
    · split at hx <;> cases hx

/-- A peer that said that the application is not running gets no request for it until the
application is announced there again. -/
theorem not_running_avoided (calls later : List (Call ε)) {x : PeerData ε} {app : Str}
    (h : .registerApp x.uuid app ∉ later) (cluster : Str) (connected : PeerData ε → Bool)
    (n : Nat) (y : PeerData ε) :
    (later.foldl step ((after calls).onError app x true)).choosePeer app cluster connected n =
      .peer y → y.uuid ≠ x.uuid := by
  intro hy heq
  have hr := recorded (calls ++ .eraseApp x.uuid app :: later)
  rw [after, List.foldl_append] at hr
  have ha := (hr.choosePeer hy).2.1.2
  rw [heq, List.foldl_append, List.foldl_cons, hasApp] at ha
  simp [foldl_hasApp h] at ha

/-- The node leaves and comes back without the application; another one gets the request. -/
theorem not_running_avoided_back : ∃ y, ([.erase "a".toList, .registerPeer "a".toList [1] []].foldl
    step ((after [.registerPeer "a".toList [1] [], .registerApp "a".toList "app".toList,
      .registerPeer "b".toList [2] [], .registerApp "b".toList "app".toList]).onError
        "app".toList ⟨"a".toList, [1], [], []⟩ true)).choosePeer "app".toList [] (fun _ => true) 0 =
      .peer y ∧ y.uuid ≠ "a".toList :=
  ⟨⟨"b".toList, [2], [], []⟩,
    (and_iff_left_of_imp (not_running_avoided _ _ (by simp) _ _ _ _)).mpr rfl⟩

end Cocaine.Vicodyn.Peers
