import Mathlib.Data.List.AList
import CocainePlugins.Framework.Text
import CocainePlugins.Framework.Timer
import CocainePlugins.Framework.Transition

/-!
# Discovery through the unicorn

The subscriber of `unicorn_cluster_t` follows the children of a node, one for each locator of the
cluster, and for each child its value, which are the endpoints of the locator. It links the
locators whose endpoints it knows and drops those that are gone.

When a child is gone, or its endpoints are none or others than before, `on_node` drops it and
does not stop there. What follows puts the child back: with no endpoints and no subscription
where the value cannot be read, as that of a missing node, and with a link where it can. After
other endpoints than before it writes to the subscription that it has just erased.
-/

namespace Cocaine.Unicorn

open Framework

variable {ε : Type}

/-! ## The subscriber -/

/-- A `locator_subscription_t`; `scope` says whether the subscription is open. -/
structure Subscription (ε : Type) where
  endpoints : List ε := []
  scope : Bool := false

/-- What a subscription to a child's value delivers. -/
inductive Update (ε : Type) where
  | error
  /-- The endpoints are none if the value is not a list of them. -/
  | value (present : Bool) (endpoints : Option (List ε))

structure Subscriber (ε : Type) where
  subscriptions : AList fun _ : Str => Subscription ε := ∅
  linked : AList fun _ : Str => List ε := ∅
  timer : Timer := {}
  children : List Str := []
  /-- An erased subscription has been written to. -/
  corrupted : Bool := false

namespace Subscriber

variable (s : Subscriber ε) (own uuid : Str)

/-- `drop_node` and the `erase` after it. -/
def drop : Subscriber ε :=
  { s with linked := s.linked.erase uuid, subscriptions := s.subscriptions.erase uuid }

/-- What `subscriptions[uuid]` refers to. -/
def subscription : Subscription ε := (s.subscriptions.lookup uuid).getD {}

/-- The first loop of `update_state`, over these subscriptions. -/
def dropMissing (nodes : List Str) : List Str → Subscriber ε → Subscriber ε
  | [], s => s
  | uuid :: rest, s => dropMissing nodes rest (if nodes.contains uuid then s else s.drop uuid)

/-- The second loop of `update_state`, for one child. -/
def follow : Subscriber ε :=
  if uuid = own then s
  else
    let x := s.subscription uuid
    if x.endpoints.isEmpty then
      { s with subscriptions := s.subscriptions.insert uuid { x with scope := true } }
    else
      { s with
        subscriptions := s.subscriptions.insert uuid x
        linked := s.linked.insert uuid x.endpoints }

def followAll : List Str → Subscriber ε → Subscriber ε
  | [], s => s
  | uuid :: nodes, s => followAll nodes (s.follow own uuid)

def updateState (nodes : List Str) : Subscriber ε :=
  let s := { s with children := nodes }
  (s.dropMissing nodes s.subscriptions.keys).followAll own nodes

/-- The end of `on_node` after an exception. -/
def fail : Subscriber ε :=
  { s with
    subscriptions := s.subscriptions.insert uuid { s.subscription uuid with endpoints := [] }
    timer := s.timer.start }

/-- The end of `on_node` with endpoints. -/
def link (endpoints : List ε) : Subscriber ε :=
  { s with
    subscriptions := s.subscriptions.insert uuid { s.subscription uuid with endpoints }
    linked := s.linked.insert uuid endpoints }

def onNode [DecidableEq ε] : Update ε → Subscriber ε
  | .error => s.fail uuid
  | .value present endpoints =>
    let s := if present then s else s.drop uuid
    match endpoints with
    | none => s.fail uuid
    | some endpoints =>
      let s := if endpoints.isEmpty then s.drop uuid else s
      let known := (s.subscription uuid).endpoints
      if known ≠ [] ∧ known ≠ endpoints then { s.drop uuid with corrupted := true }
      else s.link uuid endpoints

inductive Label (ε : Type) where
  | children (nodes : Option (List Str))
  | node (uuid : Str) (update : Update ε)
  /-- The time of a retry comes, and the children are subscribed to again. -/
  | expire
  | retry

/-- A closed subscription delivers nothing. -/
def step [DecidableEq ε] : Label ε → Option (Subscriber ε)
  | .children (some nodes) => some (s.updateState own nodes)
  | .children none => some { s with timer := s.timer.start }
  | .node uuid update =>
    if (s.subscription uuid).scope then some (s.onNode uuid update) else none
  | .expire => if s.timer.armed then some { s with timer := s.timer.expire } else none
  | .retry => if 0 < s.timer.fired then some { s with timer := s.timer.complete } else none

end Subscriber

/-- The subscriber of the locator `own`. -/
def clusterSystem (ε : Type) [DecidableEq ε] (own : Str) :
    System (Subscriber ε) (Subscriber.Label ε) where
  init s := s = {}
  step s a := if s.corrupted then none else s.step own a

namespace Subscriber

variable {s t : Subscriber ε} {own uuid : Str}

/-! ## What the operations do -/

theorem subscription_insert_self (x : Subscription ε) :
    ((s.subscriptions.insert uuid x).lookup uuid).getD {} = x := by
  simp

theorem subscription_insert_ne {u : Str} (h : u ≠ uuid) (x : Subscription ε) :
    ((s.subscriptions.insert uuid x).lookup u).getD {} = s.subscription u := by
  simp [AList.lookup_insert_ne h, subscription]

theorem subscription_drop_self : (s.drop uuid).subscription uuid = {} := by
  simp [drop, subscription]

theorem subscription_drop_ne {u : Str} (h : u ≠ uuid) :
    (s.drop uuid).subscription u = s.subscription u := by
  simp [drop, subscription, AList.lookup_erase_ne h]

theorem mem_of_subscription (h : s.subscription uuid ≠ {}) : uuid ∈ s.subscriptions := by
  rw [← AList.lookup_isSome]
  cases hl : s.subscriptions.lookup uuid with
  | none => simp [subscription, hl] at h
  | some x => rfl

inductive Stepped [DecidableEq ε] (own : Str) (s : Subscriber ε) :
    Label ε → Subscriber ε → Prop where
  | children (nodes : List Str) : Stepped own s (.children (some nodes)) (s.updateState own nodes)
  | unlisted : Stepped own s (.children none) { s with timer := s.timer.start }
  | node {uuid : Str} {update : Update ε} (there : uuid ∈ s.subscriptions) :
      Stepped own s (.node uuid update) (s.onNode uuid update)
  | expire : Stepped own s .expire { s with timer := s.timer.expire }
  | retry : Stepped own s .retry { s with timer := s.timer.complete }

theorem stepped [DecidableEq ε] {a : Label ε} (h : (clusterSystem ε own).step s a = some t) :
    Stepped own s a t := by
  simp only [clusterSystem] at h
  split at h
  · cases h
  · cases a with
    | children nodes =>
      cases nodes with
      | none => cases h; exact .unlisted
      | some nodes => cases h; exact .children nodes
    | node uuid update =>
      obtain ⟨hs, rfl⟩ := of_guard h
      refine .node (mem_of_subscription fun hnone => ?_)
      rw [hnone] at hs
      cases hs
    | expire =>
      obtain ⟨-, rfl⟩ := of_guard h
      exact .expire
    | retry =>
      obtain ⟨-, rfl⟩ := of_guard h
      exact .retry

theorem children_dropMissing (nodes keys : List Str) :
    (s.dropMissing nodes keys).children = s.children := by
  induction keys generalizing s with
  | nil => rfl
  | cons k keys ih =>
    simp only [dropMissing, ih]
    split <;> rfl

theorem children_followAll (nodes : List Str) : (s.followAll own nodes).children = s.children := by
  induction nodes generalizing s with
  | nil => rfl
  | cons u nodes ih =>
    simp only [followAll, ih, follow]
    split
    · rfl
    · split <;> rfl

theorem children_updateState (nodes : List Str) : (s.updateState own nodes).children = nodes := by
  simp only [updateState, children_followAll, children_dropMissing]

/-- The other subscriptions, and the list of children, are left alone. -/
structure Touches (uuid : Str) (s t : Subscriber ε) : Prop where
  children : t.children = s.children
  others : ∀ u, u ≠ uuid → (u ∈ t.subscriptions ↔ u ∈ s.subscriptions)

namespace Touches

theorem trans {r : Subscriber ε} (h₁ : Touches uuid r s) (h₂ : Touches uuid s t) :
    Touches uuid r t :=
  ⟨h₂.children.trans h₁.children, fun u hu => (h₂.others u hu).trans (h₁.others u hu)⟩

theorem drop : Touches uuid s (s.drop uuid) :=
  ⟨rfl, fun u hu => by simp [Subscriber.drop, hu]⟩

theorem dropIf (c : Bool) : Touches uuid s (if c then s.drop uuid else s) := by
  cases c with
  | true => exact drop
  | false => exact ⟨rfl, fun _ _ => Iff.rfl⟩

theorem fail : Touches uuid s (s.fail uuid) :=
  ⟨rfl, fun u hu => by simp [Subscriber.fail, hu]⟩

theorem link (endpoints : List ε) : Touches uuid s (s.link uuid endpoints) :=
  ⟨rfl, fun u hu => by simp [Subscriber.link, hu]⟩

theorem onNode [DecidableEq ε] (update : Update ε) : Touches uuid s (s.onNode uuid update) := by
  cases update with
  | error => exact fail
  | value present endpoints =>
    have hpresent : Touches uuid s (if present then s else s.drop uuid) := by
      rw [← ite_not]
      simpa using dropIf (s := s) (!present)
    cases endpoints with
    | none => exact hpresent.trans fail
    | some endpoints =>
      have hempty := hpresent.trans (dropIf endpoints.isEmpty)
      simp only [Subscriber.onNode]
      generalize (if endpoints.isEmpty then (if present then s else s.drop uuid).drop uuid
        else if present then s else s.drop uuid) = s₁ at hempty ⊢
      split
      · exact ⟨(hempty.trans drop).children, (hempty.trans drop).others⟩
      · exact hempty.trans (link endpoints)

end Touches

/-! ## The subscriptions are of children -/

/-- Every subscription is of another locator among `nodes`. -/
def Within (nodes : List Str) (own : Str) (s : Subscriber ε) : Prop :=
  ∀ u ∈ s.subscriptions, u ∈ nodes ∧ u ≠ own

namespace Within

variable {nodes : List Str}

theorem insert (h : Within nodes own s) (hu : uuid ∈ nodes) (hn : uuid ≠ own) {x : Subscription ε}
    (ht : t.subscriptions = s.subscriptions.insert uuid x) : Within nodes own t := by
  intro u hmem
  rw [ht, AList.mem_insert] at hmem
  obtain rfl | hmem := hmem
  · exact ⟨hu, hn⟩
  · exact h u hmem

theorem touched (h : Within nodes own s) (hu : uuid ∈ s.subscriptions) (ht : Touches uuid s t) :
    Within nodes own t := by
  intro u hmem
  by_cases hne : u = uuid
  · rw [hne]
    exact h uuid hu
  · exact h u ((ht.others u hne).mp hmem)

theorem follow (h : Within nodes own s) (hu : uuid ∈ nodes) : Within nodes own (s.follow own uuid) := by
  simp only [Subscriber.follow]
  split
  · exact h
  · rename_i hn
    split
    · exact h.insert hu hn rfl
    · exact h.insert hu hn rfl

theorem followAll {rest : List Str} (h : Within nodes own s) (hr : ∀ u ∈ rest, u ∈ nodes) :
    Within nodes own (s.followAll own rest) := by
  induction rest generalizing s with
  | nil => exact h
  | cons u rest ih =>
    exact ih (h.follow (hr u List.mem_cons_self)) fun v hv => hr v (List.mem_cons_of_mem u hv)

end Within

theorem mem_dropMissing {nodes keys : List Str} {u : Str}
    (h : u ∈ (s.dropMissing nodes keys).subscriptions) :
    u ∈ s.subscriptions ∧ (u ∈ keys → u ∈ nodes) := by
  induction keys generalizing s with
  | nil => exact ⟨h, by simp⟩
  | cons k keys ih =>
    simp only [dropMissing] at h
    obtain ⟨hmem, hkeys⟩ := ih h
    split at hmem <;> rename_i hk
    · refine ⟨hmem, fun hu => ?_⟩
      cases hu with
      | head => exact List.contains_iff_mem.mp hk
      | tail _ hu => exact hkeys hu
    · obtain ⟨hne, hmem⟩ := AList.mem_erase.mp hmem
      refine ⟨hmem, fun hu => ?_⟩
      cases hu with
      | head => exact absurd rfl hne
      | tail _ hu => exact hkeys hu

theorem Within.updateState {nodes : List Str} (h : Within nodes own s) (list : List Str) :
    Within list own (s.updateState own list) := by
  refine followAll (fun u hu => ?_) fun u hu => hu
  obtain ⟨hmem, hlisted⟩ := mem_dropMissing hu
  exact ⟨hlisted (AList.mem_keys.mp hmem), (h u hmem).2⟩

theorem Within.of_reachable [DecidableEq ε]
    (hr : (clusterSystem ε own).Reachable System.Any s) : Within s.children own s := by
  refine hr.induct (P := fun s => Within s.children own s) ?_ ?_
  · rintro s rfl u hu
    exact absurd hu (AList.notMem_empty u)
  · rintro s a t h - hs
    cases stepped hs with
    | children nodes =>
      rw [children_updateState]
      exact h.updateState nodes
    | unlisted | expire | retry => exact h
    | node hmem =>
      rw [(Touches.onNode _).children]
      exact h.touched hmem (.onNode _)

/-! ## What is linked -/

/-- A locator is linked just when its endpoints are known. -/
def Exact (s : Subscriber ε) : Prop := ∀ u, u ∈ s.linked ↔ (s.subscription u).endpoints ≠ []

namespace Exact

theorem change (h : Exact s) (uuid : Str) (hl : ∀ u, u ≠ uuid → (u ∈ t.linked ↔ u ∈ s.linked))
    (hsub : ∀ u, u ≠ uuid → t.subscription u = s.subscription u)
    (hu : uuid ∈ t.linked ↔ (t.subscription uuid).endpoints ≠ []) : Exact t := by
  intro u
  by_cases hne : u = uuid
  · rw [hne]
    exact hu
  · rw [hl u hne, hsub u hne]
    exact h u

theorem drop (h : Exact s) : Exact (s.drop uuid) := by
  refine h.change uuid (fun u hne => ?_) (fun u hne => subscription_drop_ne hne) ?_
  · simp [Subscriber.drop, hne]
  · rw [subscription_drop_self]
    simp [Subscriber.drop]

/-- The subscription of an unlinked locator is changed, and its endpoints stay unknown. -/
theorem unknown (h : Exact s) (hu : (s.subscription uuid).endpoints = []) (x : Subscription ε)
    (hx : x.endpoints = []) (hl : t.linked = s.linked)
    (hs : t.subscriptions = s.subscriptions.insert uuid x) : Exact t := by
  have hself : t.subscription uuid = x := by
    rw [subscription, hs]
    exact subscription_insert_self x
  refine h.change uuid (fun u _ => by rw [hl]) (fun u hne => ?_) ?_
  · rw [subscription, hs]
    exact subscription_insert_ne hne x
  · rw [hl, hself, h uuid, hu, hx]

/-- A locator is linked with the endpoints of its subscription. -/
theorem known (h : Exact s) (x : Subscription ε) (hx : x.endpoints ≠ [])
    (hl : t.linked = s.linked.insert uuid x.endpoints)
    (hs : t.subscriptions = s.subscriptions.insert uuid x) : Exact t := by
  have hself : t.subscription uuid = x := by
    rw [subscription, hs]
    exact subscription_insert_self x
  refine h.change uuid (fun u hne => ?_) (fun u hne => ?_) ?_
  · rw [hl, AList.mem_insert]
    exact or_iff_right hne
  · rw [subscription, hs]
    exact subscription_insert_ne hne x
  · rw [hself, hl]
    simp [hx]

theorem fail (h : Exact s) (hu : (s.subscription uuid).endpoints = []) : Exact (s.fail uuid) :=
  h.unknown hu _ rfl rfl rfl

theorem follow (h : Exact s) : Exact (s.follow own uuid) := by
  simp only [Subscriber.follow]
  split
  · exact h
  · split
    · rename_i hempty
      have hempty := List.isEmpty_iff.mp hempty
      exact h.unknown hempty { s.subscription uuid with scope := true } hempty rfl rfl
    · rename_i hknown
      have hknown : (s.subscription uuid).endpoints ≠ [] := by simpa using hknown
      exact h.known _ hknown rfl rfl

theorem followAll (h : Exact s) (nodes : List Str) : Exact (s.followAll own nodes) := by
  induction nodes generalizing s with
  | nil => exact h
  | cons u nodes ih => exact ih h.follow

theorem dropMissing (h : Exact s) (nodes keys : List Str) : Exact (s.dropMissing nodes keys) := by
  induction keys generalizing s with
  | nil => exact h
  | cons k keys ih =>
    simp only [Subscriber.dropMissing]
    split
    · exact ih h
    · exact ih h.drop

end Exact

/-- An update brings the endpoints that are known already, or some where none are; it says that
the child is gone; or it fails where no endpoints are known. -/
def Plain (s : Subscriber ε) : Label ε → Prop
  | .node uuid .error | .node uuid (.value true none) => (s.subscription uuid).endpoints = []
  | .node uuid (.value true (some endpoints)) => endpoints ≠ [] ∧
    ((s.subscription uuid).endpoints = [] ∨ (s.subscription uuid).endpoints = endpoints)
  | .node _ (.value false none) => True
  | .node _ (.value false (some _)) => False
  | .children _ | .expire | .retry => True

instance [DecidableEq ε] (s : Subscriber ε) (a : Label ε) : Decidable (s.Plain a) := by
  unfold Plain
  split <;> infer_instance

/-- A child that is gone is dropped, and its subscription is made again with nothing. -/
theorem onNode_missing [DecidableEq ε] :
    s.onNode uuid (.value false none) = (s.drop uuid).fail uuid := rfl

/-- Whatever an update says, the child is in the table after it. -/
theorem mem_onNode [DecidableEq ε] (update : Update ε) :
    (s.onNode uuid update).corrupted = true ∨ uuid ∈ (s.onNode uuid update).subscriptions := by
  match update with
  | .error | .value _ none => exact .inr ((AList.mem_insert _).mpr (.inl rfl))
  | .value present (some endpoints) =>
    simp only [onNode]
    generalize (if endpoints.isEmpty then (if present then s else s.drop uuid).drop uuid
      else if present then s else s.drop uuid) = s₁
    split
    · exact .inl rfl
    · exact .inr ((AList.mem_insert _).mpr (.inl rfl))

theorem onNode_linked [DecidableEq ε] {endpoints : List ε} (hne : endpoints ≠ [])
    (hk : (s.subscription uuid).endpoints = [] ∨ (s.subscription uuid).endpoints = endpoints) :
    s.onNode uuid (.value true (some endpoints)) = s.link uuid endpoints := by
  have hsame : ¬((s.subscription uuid).endpoints ≠ [] ∧
      (s.subscription uuid).endpoints ≠ endpoints) :=
    fun h => hk.elim h.1 h.2
  have hempty : endpoints.isEmpty = false := by simpa using hne
  simp [onNode, hempty, if_neg hsame]

theorem Exact.onNode [DecidableEq ε] (h : Exact s) {update : Update ε}
    (hok : s.Plain (.node uuid update)) : Exact (s.onNode uuid update) := by
  match update with
  | .error | .value true none => exact h.fail hok
  | .value false none =>
    rw [onNode_missing]
    exact h.drop.fail (by simp [subscription_drop_self])
  | .value true (some endpoints) =>
    rw [onNode_linked hok.1 hok.2]
    exact h.known { s.subscription uuid with endpoints } hok.1 rfl rfl

theorem Exact.of_reachable [DecidableEq ε] (hr : (clusterSystem ε own).Reachable Plain s) :
    Exact s := by
  refine hr.induct (P := Exact) ?_ ?_
  · rintro s rfl u
    simp [subscription]
  · intro s a t h hok hs
    cases stepped hs with
    | children nodes =>
      have hlisted : Exact { s with children := nodes } := h
      exact (hlisted.dropMissing nodes _).followAll nodes
    | unlisted | expire | retry => exact h
    | node => exact h.onNode hok

/-! ## Every run -/

/-- The subscriptions are of other locators among the children, and as long as updates are plain
those are linked whose endpoints are known. After an update the locator is in the table, even one
that is gone, which is not linked and has no scope, unless an erased subscription has been
written to. -/
theorem links_known [DecidableEq ε] (hr : (clusterSystem ε own).Reachable System.Any s) :
    (∀ u ∈ s.subscriptions, u ∈ s.children ∧ u ≠ own) ∧
    ((clusterSystem ε own).Reachable Plain s →
      ∀ u, u ∈ s.linked ↔ u ∈ s.subscriptions ∧ (s.subscription u).endpoints ≠ []) ∧
    ∀ u update t, (clusterSystem ε own).step s (.node u update) = some t →
      (t.corrupted = true ∨ u ∈ t.subscriptions) ∧
      (update = .value false none → u ∉ t.linked ∧ (t.subscription u).scope = false) := by
  refine ⟨Within.of_reachable hr, fun hp u => ?_, fun u update t ht => ?_⟩
  · rw [Exact.of_reachable hp u, iff_and_self]
    refine fun hne => mem_of_subscription fun hnone => hne ?_
    rw [hnone]
  · cases stepped ht with
    | node =>
      refine ⟨mem_onNode update, ?_⟩
      rintro rfl
      rw [onNode_missing]
      exact ⟨by simp [fail, drop], by simp [fail, drop, subscription]⟩

/-- Two locators are listed; one is linked, and the other one goes. -/
theorem links_known_two :
    ∃ s t : Subscriber Nat, (clusterSystem Nat "a".toList).Reachable Plain s ∧
      "b".toList ∈ s.linked ∧
      ("b".toList ∈ s.subscriptions ∧ (s.subscription "b".toList).endpoints ≠ []) ∧
      (clusterSystem Nat "a".toList).step s (.node "c".toList (.value false none)) = some t ∧
      "c".toList ∉ t.linked ∧ (t.subscription "c".toList).scope = false := by
  obtain ⟨s, hr, hb, hstep⟩ := (clusterSystem Nat "a".toList).exists_reachable Plain
    (P := fun s => "b".toList ∈ s.linked ∧ ((clusterSystem Nat "a".toList).step s
      (.node "c".toList (.value false none))).isSome)
    [.children (some ["a".toList, "b".toList, "c".toList]),
      .node "b".toList (.value true (some [1])), .node "b".toList (.value true (some [1]))] rfl
    (by decide +kernel)
  obtain ⟨t, ht⟩ := Option.isSome_iff_exists.mp hstep
  obtain ⟨-, hplain, hnode⟩ := links_known hr.any
  exact ⟨s, t, hr, hb, (hplain hr _).mp hb, ht, (hnode _ _ t ht).2 rfl⟩

/-- A locator without endpoints is linked, and one that is gone is subscribed to; one whose value
fails to be read stays linked, though its endpoints are forgotten; and after other endpoints an
erased subscription is written to. -/
theorem links_unknown :
    (∃ s : Subscriber Nat, (clusterSystem Nat "a".toList).Reachable System.Any s ∧
        (∃ t ∈ (clusterSystem Nat "a".toList).step s (.node "b".toList (.value true (some []))),
          "b".toList ∈ t.linked ∧ "b".toList ∈ t.subscriptions) ∧
        ∃ t ∈ (clusterSystem Nat "a".toList).step s (.node "b".toList (.value false none)),
          t.corrupted = false ∧ "b".toList ∈ t.subscriptions) ∧
      (∃ s : Subscriber Nat, (clusterSystem Nat "a".toList).Reachable System.Any s ∧
        "b".toList ∈ s.linked ∧ (s.subscription "b".toList).endpoints = []) ∧
      ∃ s : Subscriber Nat, (clusterSystem Nat "a".toList).Reachable System.Any s ∧
        s.corrupted = true := by
  refine ⟨?_, ?_, ?_⟩
  · exact (clusterSystem Nat "a".toList).exists_reachable System.Any
      [.children (some ["b".toList])] rfl (by decide +kernel)
  · exact (clusterSystem Nat "a".toList).exists_reachable System.Any
      [.children (some ["b".toList]), .node "b".toList (.value true (some [1])),
        .node "b".toList .error] rfl (by decide +kernel)
  · exact (clusterSystem Nat "a".toList).exists_reachable System.Any
      [.children (some ["b".toList]), .node "b".toList (.value true (some [1])),
        .node "b".toList (.value true (some [2]))] rfl (by decide +kernel)

end Subscriber

end Cocaine.Unicorn
