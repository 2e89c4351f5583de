import CocainePlugins.Unicorn.Action

/-!
# ZooKeeper behind the requests

How the ensemble serves a request of `connection_t` on its tree. The version of a
write is narrowed on the way: `version_t` is a `long long`, and `zoo_aset` and
`zoo_adelete` take an `int`. The paths are those of the ensemble: the prefix of the
connection is part of them, or empty.
-/

namespace Cocaine.Unicorn

open Framework

/-- The path of a sequence node: its parent counts the children it ever had. -/
def sequencePath (t : Ztree Data) (p : Str) : Str :=
  match t.node (parentPath p) with
  | none => p ++ padded zooSequenceLength 0
  | some m => p ++ padded zooSequenceLength ((m.cversion + m.children.length) / 2)

/-- Where a create makes its node. -/
def createdPath (t : Ztree Data) (p : Str) (sequence : Bool) : Str :=
  if sequence then sequencePath t p else p

def serve (t : Ztree Data) : Query → Ztree Data × Reply
  | .put p data version =>
    let r := t.set p data (i32 version)
    (r.2, .put r.1 (if r.1 = .ok then ((r.2.node p).map Znode.stat).getD {} else {}))
  | .get p =>
    match t.node p with
    | none => (t, .get .noNode .raw {})
    | some n => (t, .get .ok n.data n.stat)
  | .create p data ephemeral sequence =>
    let r := t.create (createdPath t p sequence) data ephemeral
    (r.2, .create r.1 (if r.1 = .ok then createdPath t p sequence else []))
  | .del p version =>
    let r := t.delete p (i32 version)
    (r.2, .del r.1)
  | .exists' p =>
    match t.node p with
    | none => (t, .exists' .noNode {})
    | some n => (t, .exists' .ok n.stat)
  | .childs p =>
    match t.node p with
    | none => (t, .childs .noNode [] {})
    | some n => (t, .childs .ok (n.children.map nodeName) n.stat)

section

variable {t t' : Ztree Data} {p : Str} {data : Data}

theorem serve_put_ok {version : Int} {stat : Stat}
    (h : serve t (.put p data version) = (t', .put .ok stat)) :
    ∃ n, t.node p = some n ∧ Ztree.expects (i32 version) n = true ∧
      t'.node = Function.update t.node p (some { n with data, version := n.version + 1 }) ∧
      stat.version = n.version + 1 := by
  have ha := t.assigned p data (i32 version)
  simp only [serve, Prod.mk.injEq, Reply.put.injEq] at h
  obtain ⟨ht, hrc, hstat⟩ := h
  rw [hrc, ht] at ha
  cases ha with
  | done hn he hnode =>
    refine ⟨_, hn, he, hnode, ?_⟩
    rw [← hstat, hrc, ht, hnode]
    simp [Znode.stat]

theorem serve_put_error {version : Int} {rc : Rc} {stat : Stat}
    (h : serve t (.put p data version) = (t', .put rc stat)) (hrc : rc ≠ .ok) : t' = t := by
  have ha := t.assigned p data (i32 version)
  simp only [serve, Prod.mk.injEq, Reply.put.injEq] at h
  obtain ⟨ht, rfl, -⟩ := h
  rw [ht] at ha
  generalize (t.set p data (i32 version)).1 = rc at ha hrc
  cases ha with
  | missing | refused => rfl
  | done => exact absurd rfl hrc

theorem serve_get {rc : Rc} {stat : Stat} (h : serve t (.get p) = (t', .get rc data stat)) :
    t' = t ∧ ((rc = .noNode ∧ t.node p = none) ∨
      ∃ n, rc = .ok ∧ t.node p = some n ∧ data = n.data ∧ stat = n.stat) := by
  simp only [serve] at h
  split at h
  · rename_i hn
    cases h
    exact ⟨rfl, .inl ⟨rfl, hn⟩⟩
  · rename_i n hn
    cases h
    exact ⟨rfl, .inr ⟨n, rfl, hn, rfl, rfl⟩⟩

theorem serve_create (t : Ztree Data) (p : Str) (data : Data) (ephemeral : Bool) : ∃ rc t',
    serve t (.create p data ephemeral false) = (t', .create rc (if rc = .ok then p else [])) ∧
      Ztree.Created t p data ephemeral rc t' :=
  ⟨_, _, rfl, t.created p data ephemeral⟩

theorem serve_create_ok {ephemeral sequence : Bool} {path : Str}
    (h : serve t (.create p data ephemeral sequence) = (t', .create .ok path)) :
    path = createdPath t p sequence ∧ t.node path = none ∧
      t'.node path = some { data, ephemeral } := by
  have ha := t.created (createdPath t p sequence) data ephemeral
  simp only [serve, Prod.mk.injEq, Reply.create.injEq] at h
  obtain ⟨ht, hrc, hpath⟩ := h
  rw [hrc, ht] at ha
  rw [hrc, if_pos rfl] at hpath
  cases ha with
  | done hp hn hm hnode =>
    rw [← hpath]
    exact ⟨rfl, hn, by rw [hnode, Function.update_self]⟩

theorem serve_create_error {ephemeral sequence : Bool} {rc : Rc} {path : Str}
    (h : serve t (.create p data ephemeral sequence) = (t', .create rc path)) (hrc : rc ≠ .ok) :
    t' = t := by
  have ha := t.created (createdPath t p sequence) data ephemeral
  simp only [serve, Prod.mk.injEq, Reply.create.injEq] at h
  obtain ⟨ht, rfl, -⟩ := h
  rw [ht] at ha
  generalize (t.create (createdPath t p sequence) data ephemeral).1 = rc at ha hrc
  cases ha with
  | done => exact absurd rfl hrc
  | _ => rfl

end

theorem serve_change (t : Ztree Data) (q : Query) (p : Str) :
    Ztree.Change (t.node p) ((serve t q).1.node p) := by
  cases q with
  | put p' data version => exact (t.assigned p' data (i32 version)).change p
  | create p' data ephemeral sequence =>
    exact (t.created (createdPath t p' sequence) data ephemeral).change p
  | del p' version => exact (t.deleted p' (i32 version)).change p
  | get p' | exists' p' | childs p' =>
    simp only [serve]
    split <;> exact .same _

end Cocaine.Unicorn
