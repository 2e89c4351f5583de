import CocainePlugins.Unicorn.Feed
import CocainePlugins.Unicorn.Version

/-!
# `subscribe` and `children_subscribe`

Both are feeds. A children subscription watches with every read, and any error code
ends it, so it never goes stale (`children_subscribe_current`). A subscription looks
first whether there is a node, and takes every error code of that reply for a missing
one: after a failure of the connection it has told that there is no node, and no
watch is armed (`subscribe_stale`). Apart from that it is current as well.
-/

namespace Cocaine.Unicorn

open Framework

/-- What a handler with one call does. -/
def Turn.of : List Call → Turn
  | [.satisfy r] => .tell r
  | [.request q false] => .again q
  | [.throw e] => .stop e
  | _ => .stop ⟨.uncaught, ""⟩

def Response.version : Response → Int
  | .put _ v | .value v => v.version
  | .children cversion _ => cversion
  | .done _ => 0

/-! ## `subscribe_t` -/

namespace SubscribeT

variable {path : Str} {rc : Rc} {data : Data} {stat : Stat}

def turn (path : Str) (r : Reply) : Turn := .of ((Action.init (.subscribe path)).onReply false r).2

def view : Option (Znode Data) → Option Response
  | none => some (.value ⟨.null, notExistingVersion⟩)
  | some n =>
    match unserialize n.data with
    | .error _ => none
    | .ok v => some (.value ⟨v, n.version⟩)

theorem onExists_eq : onExists path rc = [(Turn.of (onExists path rc)).call] := by
  unfold onExists
  split <;> rfl

theorem onGet_eq : onGet rc data stat = [(Turn.of (onGet rc data stat)).call] := by
  unfold onGet
  split
  · rfl
  · split
    · rfl
    · split <;> rfl

theorem onReply_eq {a : Action} {q : Query} {r : Reply} (closed : Bool)
    (ha : a.cmd = .subscribe path) (hq : q = .exists' path ∨ q = .get path)
    (hr : q.answers r = true) : a.onReply closed r = (a, [(turn path r).call]) := by
  obtain ⟨cmd, depth, v, created⟩ := a
  cases ha
  rcases hq with rfl | rfl
  · cases r with
    | exists' rc stat => exact congrArg (Prod.mk _) onExists_eq
    | _ => cases hr
  · cases r with
    | get rc data stat => exact congrArg (Prod.mk _) onGet_eq
    | _ => cases hr

theorem onWatch_eq {a : Action} (w : WatchReply) (ha : a.cmd = .subscribe path) :
    a.onWatch false w = [.request (.get path) true] ∨ ∃ e, a.onWatch false w = [.throw e] := by
  have h : a.onWatch false w = onWatch path false w := by simp [Action.onWatch, ha]
  rw [h, onWatch, if_neg Bool.false_ne_true]
  split
  · exact .inl rfl
  · right
    split
    · exact ⟨_, rfl⟩
    · split <;> exact ⟨_, rfl⟩

/-- A value is told of a node with that value, and of no other. -/
theorem view_of_onGet {n : Znode Data} {r : Response}
    (h : Turn.of (onGet .ok n.data n.stat) = .tell r) : view (some n) = some r := by
  simp only [onGet, ne_eq, not_true_eq_false, if_false] at h
  split at h
  · cases h
  · split at h
    · cases h
    · rename_i hv
      cases h
      simp [view, hv, Znode.stat]

theorem view_quiet {t t' : Ztree Data} {id : Nat} {r : Response}
    (hch : Ztree.Change (t.node path) (t'.node path)) (hv : view (t.node path) = some r)
    (hf : Watch.fires ⟨id, .data, path⟩ t t' = none) : view (t'.node path) = some r := by
  simp only [Watch.fires] at hf
  generalize t.node path = n at hch hv hf
  generalize t'.node path = n' at hch hf ⊢
  cases hch with
  | same => exact hv
  | born | died => cases hf
  | set n data => simp at hf
  | children n l => exact hv

end SubscribeT

def subscription (path : Str) : Feed where
  cmd := .subscribe path
  path := path
  kind := .data
  first := .exists' path
  next := .get path
  turn := SubscribeT.turn path
  view := SubscribeT.view
  rank := Response.version
  level := Znode.version
  locks := rfl
  run := rfl
  onReply := SubscribeT.onReply_eq
  onWatch := SubscribeT.onWatch_eq
  again := by
    intro r q h
    cases r with
    | exists' rc stat =>
      simp only [SubscribeT.turn, Action.onReply, Action.init, SubscribeT.onExists] at h
      split at h <;> cases h
      rfl
    | get rc data stat =>
      simp only [SubscribeT.turn, Action.onReply, Action.init, SubscribeT.onGet] at h
      split at h
      · cases h
      · split at h
        · cases h
        · split at h <;> cases h
    | _ => cases h
  reads := by
    rintro q t (rfl | rfl) <;> simp only [serve] <;> split <;> rfl
  told_first := by
    intro t r h
    simp only [serve] at h
    split at h
    · rename_i hn
      cases h
      rw [hn]
      exact ⟨rfl, fun _ => by decide⟩
    · cases h
  told_next := by
    intro t r h
    simp only [serve] at h
    split at h
    · cases h
    · rename_i n hn
      rw [hn]
      exact ⟨SubscribeT.view_of_onGet h, Option.some_ne_none n⟩
  rank_eq := by
    intro n r h
    simp only [SubscribeT.view] at h
    split at h <;> cases h
    rfl
  arms := by
    rintro t q id (rfl | rfl)
    · right
      simp only [serve]
      split <;> rfl
    · simp only [serve]
      split
      · exact .inl ⟨_, rfl⟩
      · exact .inr rfl
  quiet := SubscribeT.view_quiet
  climbs := by
    rintro n n' (_ | _) <;> simp

def Shows : Option (Znode Data) → Versioned → Prop
  | none, v => v = ⟨.null, notExistingVersion⟩
  | some n, v => unserialize n.data = .ok v.value ∧ v.version = n.version

theorem shows_of_view {n : Option (Znode Data)} {r : Response} (h : SubscribeT.view n = some r) :
    ∃ v, r = .value v ∧ Shows n v := by
  cases n with
  | none =>
    cases h
    exact ⟨_, rfl, rfl⟩
  | some n =>
    simp only [SubscribeT.view] at h
    split at h
    · cases h
    · rename_i hv
      cases h
      exact ⟨_, rfl, hv, rfl⟩

theorem Shows.version_eq {n : Option (Znode Data)} {v : Versioned} (h : Shows n v) :
    v.version = notExistingVersion ↔ n = none := by
  cases n with
  | none =>
    have h : v = ⟨.null, notExistingVersion⟩ := h
    simp [h]
  | some n =>
    have h : v.version = n.version := h.2
    refine ⟨fun hv => ?_, nofun⟩
    rw [notExistingVersion] at hv
    omega

/-- Every failed read but the first one ends the subscription. -/
theorem subscription_sound {i : Nat} {path : Str} {t : Ztree Data} {h : List Served} {c : Client}
    (hr : Run i (.subscribe path) t h c)
    (hx : ∀ e ∈ ownRecords i h, e.query = .exists' path → e.reply.rc.isFault = false) :
    (subscription path).Sound i h := by
  intro e he hfault
  obtain ⟨f, hf, ha⟩ := hr.answered he
  have hans := answers_answer e.before e.query hf
  rw [ha] at hans
  have hq : e.query = .exists' path ∨ e.query = .get path := by
    have hasked := hr.asked he
    generalize e.query = q at hasked
    cases hasked with
    | exists' => exact .inl rfl
    | read => exact .inr rfl
    | sequence h | folder h | rivals h | previous h | node h | release h => cases h
  rcases hq with hq | hq
  · rw [hx e he hq] at hfault
    cases hfault
  · rw [hq] at hans
    generalize e.reply = r at hans hfault
    cases r with
    | get rc data stat =>
      have hne : rc ≠ .ok := by
        rintro rfl
        cases hfault
      refine ⟨⟨mapZooError rc, "node was removed"⟩, ?_⟩
      simp [subscription, SubscribeT.turn, Action.init, Action.onReply, SubscribeT.onGet, hne, fail,
        Turn.of]
    | _ => cases hans

/-- Unless the request whether there is a node fails on its way: when nothing is on
its way, the last value is the one of the node, and a watch is armed; and while the
node is not created anew, no version is below an earlier one. -/
theorem subscribe_current {w : World} (hr : worldSystem.Reachable System.Any w) {i : Nat}
    {c : Client} (hi : w.clients[i]? = some c) {path : Str} (hcmd : c.op.act.cmd = .subscribe path)
    (hx : ∀ e ∈ ownRecords i w.history, e.query = .exists' path → e.reply.rc.isFault = false)
    (ho : c.op.closed = false) (hidle : c.idle = true) :
    (∃ v, c.op.delivered.head? = some (.value v) ∧ Shows (w.tree.node path) v ∧
      (v.version = notExistingVersion ↔ w.tree.node path = none)) ∧
    (Steady i path w.history →
      c.op.delivered.Pairwise fun later r => r.version ≤ later.version) ∧
    ∃ id, c.Live id ∧ ⟨id, .data, path⟩ ∈ c.armed := by
  have hrun : Run i (subscription path).cmd w.tree w.history c := by
    have h := World.run hr hi
    rw [hcmd] at h
    exact h
  have hs := subscription_sound hrun hx
  obtain ⟨⟨r, hlast, hview⟩, hwatch⟩ := hrun.current hs ho hidle
  obtain ⟨v, rfl, hshow⟩ := shows_of_view hview
  exact ⟨⟨v, hlast, hshow, hshow.version_eq⟩, hrun.delivered_sorted hs ho hidle, hwatch⟩

/-- A node that is written once while it is followed. -/
theorem subscribe_current_write : ∃ w c, worldSystem.Reachable System.Any w ∧
    w.clients[0]? = some c ∧ c.op.act.cmd = .subscribe "/n".toList ∧
    c.op.delivered = [.value ⟨.int 6, 1⟩, .value ⟨.int 5, 0⟩] ∧
    (∃ id, c.Live id ∧ ⟨id, .data, "/n".toList⟩ ∈ c.armed) ∧
    c.op.delivered.Pairwise fun later r => r.version ≤ later.version := by
  obtain ⟨w, hr, ⟨c, hi, hcmd, ho, hidle, hdel⟩, hx, hst⟩ :=
    worldSystem.exists_reachable System.Any
    (P := fun w => (∃ c : Client, c ∈ w.clients[0]? ∧ c.op.act.cmd = .subscribe "/n".toList ∧
        c.op.closed = false ∧ c.idle = true ∧
        c.op.delivered = [.value ⟨.int 6, 1⟩, .value ⟨.int 5, 0⟩]) ∧
      (∀ e ∈ w.history, e.reply.rc.isFault = false) ∧ Steady 0 "/n".toList w.history)
    [.run (.subscribe "/n".toList) {}, .serve 0 none, .move 0 (.deliver {}), .serve 0 none,
      .move 0 (.deliver {}), .other (.put "/n".toList (serialize (.int 6)) 0), .move 0 (.deliver {}),
      .serve 0 none, .move 0 (.deliver {})]
    (s := { tree := sampleTree }) ⟨rfl, rfl⟩ (by decide +kernel)
  have h := subscribe_current hr hi hcmd (fun e he _ => hx e (mem_ownRecords.mp he).1) ho hidle
  exact ⟨w, c, hr, hi, hcmd, hdel, h.2.2, h.2.1 hst⟩

/-- The first request fails: the subscription tells that there is no node, and waits
for nothing. And a node that is removed and created anew before it is read again is
told with a lower version. -/
theorem subscribe_stale :
    (∃ w c, worldSystem.Reachable System.Any w ∧ w.clients[0]? = some c ∧
      c.op.act.cmd = .subscribe "/n".toList ∧ c.op.closed = false ∧ c.idle = true ∧
      c.op.delivered = [.value ⟨.null, notExistingVersion⟩] ∧ w.tree.node "/n".toList ≠ none ∧
      c.armed = []) ∧
    ∃ w c, worldSystem.Reachable System.Any w ∧ w.clients[0]? = some c ∧
      c.op.act.cmd = .subscribe "/n".toList ∧ c.op.closed = false ∧ c.idle = true ∧
      c.op.delivered = [.value ⟨.int 8, 0⟩, .value ⟨.int 6, 1⟩] ∧
      ∀ e ∈ w.history, e.reply.rc = .ok := by
  constructor
  · exact World.exists_client 0 (s := { tree := sampleTree })
      [.run (.subscribe "/n".toList) {}, .serve 0 (some ⟨.connectionLoss, false⟩),
        .move 0 (.deliver {})] ⟨rfl, rfl⟩ (by decide +kernel)
  · exact World.exists_client 0 (s := { tree := sampleTree })
      [.other (.put "/n".toList (serialize (.int 6)) 0), .run (.subscribe "/n".toList) {},
        .serve 0 none, .move 0 (.deliver {}), .serve 0 none, .move 0 (.deliver {}),
        .other (.put "/n".toList (serialize (.int 7)) 1), .other (.del "/n".toList (-1)),
        .other (.create "/n".toList (serialize (.int 8)) false false),
        .move 0 (.deliver {}), .serve 0 none, .move 0 (.deliver {})] ⟨rfl, rfl⟩ (by decide +kernel)

/-! ## `children_subscribe_t` -/

namespace ChildrenSubscribeT

variable {path : Str} {rc : Rc} {stat : Stat}

def turn (path : Str) (r : Reply) : Turn :=
  .of ((Action.init (.childrenSubscribe path)).onReply false r).2

def view : Option (Znode Data) → Option Response
  | none => none
  | some n => some (.children n.cversion (n.children.map nodeName))

theorem onChilds_eq {children : List Str} :
    onChilds rc children stat = [(Turn.of (onChilds rc children stat)).call] := by
  unfold onChilds
  split <;> rfl

theorem onReply_eq {a : Action} {q : Query} {r : Reply} (closed : Bool)
    (ha : a.cmd = .childrenSubscribe path) (hq : q = .childs path ∨ q = .childs path)
    (hr : q.answers r = true) : a.onReply closed r = (a, [(turn path r).call]) := by
  obtain ⟨cmd, depth, v, created⟩ := a
  cases ha
  obtain rfl : q = .childs path := hq.elim id id
  cases r with
  | childs rc children stat => exact congrArg (Prod.mk _) onChilds_eq
  | _ => cases hr

theorem onWatch_eq {a : Action} (w : WatchReply) (ha : a.cmd = .childrenSubscribe path) :
    a.onWatch false w = [.request (.childs path) true] ∨ ∃ e, a.onWatch false w = [.throw e] := by
  have h : a.onWatch false w = onWatch path false w := by simp [Action.onWatch, ha]
  rw [h, onWatch, if_neg Bool.false_ne_true]
  split
  · exact .inr ⟨_, rfl⟩
  · split
    · exact .inl rfl
    · right
      split <;> exact ⟨_, rfl⟩

theorem view_quiet {t t' : Ztree Data} {id : Nat} {r : Response}
    (hch : Ztree.Change (t.node path) (t'.node path)) (hv : view (t.node path) = some r)
    (hf : Watch.fires ⟨id, .child, path⟩ t t' = none) : view (t'.node path) = some r := by
  simp only [Watch.fires] at hf
  generalize t.node path = n at hch hv hf
  generalize t'.node path = n' at hch hf ⊢
  cases hch with
  | same => exact hv
  | born => cases hv
  | died => cases hf
  | set n data => exact hv
  | children n l => simp at hf

end ChildrenSubscribeT

def childrenSubscription (path : Str) : Feed where
  cmd := .childrenSubscribe path
  path := path
  kind := .child
  first := .childs path
  next := .childs path
  turn := ChildrenSubscribeT.turn path
  view := ChildrenSubscribeT.view
  rank := Response.version
  level := Znode.cversion
  locks := rfl
  run := rfl
  onReply := ChildrenSubscribeT.onReply_eq
  onWatch := ChildrenSubscribeT.onWatch_eq
  again := by
    intro r q h
    cases r with
    | childs rc children stat =>
      simp only [ChildrenSubscribeT.turn, Action.onReply, Action.init,
        ChildrenSubscribeT.onChilds] at h
      split at h <;> cases h
    | _ => cases h
  reads := by
    rintro q t (rfl | rfl) <;> simp only [serve] <;> split <;> rfl
  told_first := by
    intro t r h
    simp only [serve] at h
    split at h <;> cases h
    rename_i hn
    rw [hn]
    exact ⟨rfl, nofun⟩
  told_next := by
    intro t r h
    simp only [serve] at h
    split at h <;> cases h
    rename_i hn
    rw [hn]
    exact ⟨rfl, nofun⟩
  rank_eq := by
    rintro n r ⟨⟩
    rfl
  arms := by
    intro t q number hq
    obtain rfl : q = .childs path := hq.elim id id
    simp only [serve]
    split
    · exact .inl ⟨_, rfl⟩
    · exact .inr rfl
  quiet := ChildrenSubscribeT.view_quiet
  climbs := by
    rintro n n' (_ | _) <;> simp

/-- Every failed read ends the subscription. -/
theorem childrenSubscription_sound {i : Nat} {path : Str} {t : Ztree Data} {h : List Served}
    {c : Client} (hr : Run i (.childrenSubscribe path) t h c) :
    (childrenSubscription path).Sound i h := by
  intro e he hfault
  obtain ⟨f, hf, ha⟩ := hr.answered he
  have hans := answers_answer e.before e.query hf
  rw [ha] at hans
  have hq : e.query = .childs path := by
    have hasked := hr.asked he
    generalize e.query = q at hasked
    cases hasked with
    | childs => rfl
    | sequence h | folder h | rivals h | previous h | node h | release h => cases h
  rw [hq] at hans
  generalize e.reply = r at hans hfault
  cases r with
  | childs rc children stat =>
    have hne : rc ≠ .ok := by
      rintro rfl
      cases hfault
    refine ⟨⟨mapZooError rc, "can not fetch children"⟩, ?_⟩
    simp [childrenSubscription, ChildrenSubscribeT.turn, Action.init, Action.onReply,
      ChildrenSubscribeT.onChilds, hne, fail, Turn.of]
  | _ => cases hans

/-- Whatever the replies: when nothing is on its way, the last children are those of the
node, and a child watch is armed; and while the node itself is not created anew, no
`cversion` is below an earlier one. -/
theorem children_subscribe_current {w : World} (hr : worldSystem.Reachable System.Any w) {i : Nat}
    {c : Client} (hi : w.clients[i]? = some c) {path : Str}
    (hcmd : c.op.act.cmd = .childrenSubscribe path) (ho : c.op.closed = false)
    (hidle : c.idle = true) :
    (∃ n, w.tree.node path = some n ∧
      c.op.delivered.head? = some (.children n.cversion (n.children.map nodeName))) ∧
    (Steady i path w.history →
      c.op.delivered.Pairwise fun later r => r.version ≤ later.version) ∧
    ∃ id, c.Live id ∧ ⟨id, .child, path⟩ ∈ c.armed := by
  have hrun : Run i (childrenSubscription path).cmd w.tree w.history c := by
    have h := World.run hr hi
    rw [hcmd] at h
    exact h
  have hs := childrenSubscription_sound hrun
  obtain ⟨⟨r, hlast, hview⟩, hwatch⟩ := hrun.current hs ho hidle
  refine ⟨?_, hrun.delivered_sorted hs ho hidle, hwatch⟩
  have hview : ChildrenSubscribeT.view (w.tree.node path) = some r := hview
  rcases hn : w.tree.node path with _ | n <;> rw [hn] at hview <;> cases hview
  exact ⟨n, rfl, hlast⟩

/-- Two children come and one goes while the children are followed. -/
theorem children_subscribe_current_three : ∃ w c, worldSystem.Reachable System.Any w ∧
    w.clients[0]? = some c ∧ c.op.act.cmd = .childrenSubscribe "/n".toList ∧
    c.op.delivered = [.children 3 ["b".toList], .children 0 []] ∧
    (∃ id, c.Live id ∧ ⟨id, .child, "/n".toList⟩ ∈ c.armed) ∧
    c.op.delivered.Pairwise fun later r => r.version ≤ later.version := by
  obtain ⟨w, hr, ⟨c, hi, hcmd, ho, hidle, hdel⟩, hst⟩ :=
    worldSystem.exists_reachable System.Any
    (P := fun w => (∃ c : Client, c ∈ w.clients[0]? ∧ c.op.act.cmd = .childrenSubscribe "/n".toList ∧
        c.op.closed = false ∧ c.idle = true ∧
        c.op.delivered = [.children 3 ["b".toList], .children 0 []]) ∧
      Steady 0 "/n".toList w.history)
    [.run (.childrenSubscribe "/n".toList) {}, .serve 0 none, .move 0 (.deliver {}),
      .other (.create "/n/a".toList .raw false false), .move 0 (.deliver {}),
      .other (.create "/n/b".toList .raw false false), .other (.del "/n/a".toList (-1)),
      .serve 0 none, .move 0 (.deliver {})]
    (s := { tree := sampleTree }) ⟨rfl, rfl⟩ (by decide +kernel)
  have h := children_subscribe_current hr hi hcmd ho hidle
  exact ⟨w, c, hr, hi, hcmd, hdel, h.2.2, h.2.1 hst⟩

end Cocaine.Unicorn
