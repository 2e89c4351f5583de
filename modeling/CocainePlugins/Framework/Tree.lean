import CocainePlugins.Framework.Text

/-!
# A tree of versioned nodes

The data of a ZooKeeper ensemble: nodes under paths, each with its data, the
number of times the data was set, the number of times a child came or went, and
its children. A write names the version it expects, or any version by `-1`. In a
`Ztree` the root exists and every other node is listed by its parent, so a path
whose parent is missing is missing itself (`Ztree.node_eq_none`).
-/

namespace Cocaine.Framework

/-- Return codes. -/
inductive Rc where
  | ok | noNode | nodeExists | badVersion | notEmpty | noChildrenForEphemerals | badArguments
  | connectionLoss | sessionExpired | closing
  | other (n : Nat)
deriving DecidableEq, Repr

/-- The codes that say nothing about the nodes. -/
def Rc.isFault : Rc → Bool
  | .connectionLoss | .sessionExpired | .closing | .other _ => true
  | _ => false

structure Znode (δ : Type) where
  data : δ
  version : Nat := 0
  cversion : Nat := 0
  children : List Str := []
  ephemeral : Bool := false
deriving DecidableEq

structure Stat where
  version : Int := 0
  cversion : Int := 0
  numChildren : Nat := 0
deriving DecidableEq, Repr

def Znode.stat {δ : Type} (n : Znode δ) : Stat := ⟨n.version, n.cversion, n.children.length⟩

def rootPath : Str := ['/']

def parentPath (p : Str) : Str :=
  match beforeLast '/' p with
  | none | some [] => rootPath
  | some q => q

/-- The name of a node under its parent. -/
def nodeName (p : Str) : Str := (afterLast '/' p).getD []

/-- An absolute path whose components are neither empty nor relative. -/
def validPath (p : Str) : Bool :=
  p == rootPath ||
    match p with
    | '/' :: rest => (rest.splitOn '/').all fun c => c != [] && c != ['.'] && c != ['.', '.']
    | _ => false

@[ext] structure Ztree (δ : Type) where
  node : Str → Option (Znode δ)
  rooted : (node rootPath).isSome = true
  linked : ∀ {p n}, node p = some n → p ≠ rootPath →
    ∃ m, node (parentPath p) = some m ∧ p ∈ m.children

namespace Ztree

variable {δ : Type} (t : Ztree δ)

/-- Without a parent there is no node. -/
theorem node_eq_none {p : Str} (h : t.node (parentPath p) = none) (hp : p ≠ rootPath) :
    t.node p = none := by
  by_contra hn
  obtain ⟨n, hn⟩ := Option.ne_none_iff_exists'.mp hn
  obtain ⟨m, hm, -⟩ := t.linked hn hp
  rw [h] at hm
  cases hm

/-! ## The changes of a tree -/

/-- The node at `p` changes; it keeps the children that exist. -/
def replace (p : Str) (n n' : Znode δ) (h : t.node p = some n)
    (hc : ∀ q, t.node q ≠ none → q ∈ n.children → q ∈ n'.children) : Ztree δ where
  node := Function.update t.node p (some n')
  rooted := by
    have := t.rooted
    rw [Function.update_apply]
    split
    · rfl
    · exact this
  linked := by
    intro q o hq hr
    have hq' : ∃ o', t.node q = some o' := by
      rw [Function.update_apply] at hq
      split at hq
      · rename_i heq
        exact ⟨n, heq ▸ h⟩
      · exact ⟨o, hq⟩
    obtain ⟨o', ho'⟩ := hq'
    obtain ⟨m, hm, hmem⟩ := t.linked ho' hr
    rw [Function.update_apply]
    split
    · rename_i heq
      rw [heq, h] at hm
      cases hm
      exact ⟨n', rfl, hc q (by simp [ho']) hmem⟩
    · exact ⟨m, hm, hmem⟩

def insert (p : Str) (o m : Znode δ) (hp : t.node p = none)
    (hm : t.node (parentPath p) = some m) (hl : p ∈ m.children) : Ztree δ where
  node := Function.update t.node p (some o)
  rooted := by
    have := t.rooted
    rw [Function.update_apply]
    split
    · rfl
    · exact this
  linked := by
    have keep : ∀ q m', t.node q = some m' → Function.update t.node p (some o) q = some m' := by
      intro q m' hq
      rw [Function.update_apply, if_neg]
      · exact hq
      · rintro rfl
        rw [hp] at hq
        cases hq
    intro q n hq hr
    rw [Function.update_apply] at hq
    split at hq
    · rename_i heq
      exact ⟨m, keep _ _ (heq ▸ hm), heq ▸ hl⟩
    · obtain ⟨m', hm', hmem⟩ := t.linked hq hr
      exact ⟨m', keep _ _ hm', hmem⟩

def remove (p : Str) (n : Znode δ) (h : t.node p = some n) (hc : n.children = [])
    (hr : p ≠ rootPath) : Ztree δ where
  node := Function.update t.node p none
  rooted := by
    rw [Function.update_apply, if_neg (Ne.symm hr)]
    exact t.rooted
  linked := by
    intro q o hq hqr
    rw [Function.update_apply] at hq
    split at hq
    · cases hq
    · obtain ⟨m, hm, hmem⟩ := t.linked hq hqr
      refine ⟨m, ?_, hmem⟩
      rw [Function.update_apply, if_neg]
      · exact hm
      · intro heq
        rw [heq, h] at hm
        cases hm
        simp [hc] at hmem

/-! ## Requests -/

/-- The expected version is the node's, or any will do. -/
def expects (version : Int) (n : Znode δ) : Bool := version == -1 || version == n.version

def create (p : Str) (data : δ) (ephemeral : Bool) : Rc × Ztree δ :=
  if validPath p then
    match hp : t.node p with
    | some _ => (.nodeExists, t)
    | none =>
      match hm : t.node (parentPath p) with
      | none => (.noNode, t)
      | some m =>
        if m.ephemeral then (.noChildrenForEphemerals, t)
        else
          let m' := { m with children := p :: m.children, cversion := m.cversion + 1 }
          (.ok, (t.replace (parentPath p) m m' hm fun _ _ => List.mem_cons_of_mem _).insert p
            { data, ephemeral } m'
            (by
              have hne : p ≠ parentPath p := by
                intro heq
                rw [← heq, hp] at hm
                cases hm
              simp [replace, hne, hp])
            (by simp [replace]) List.mem_cons_self)
  else (.badArguments, t)

def set (p : Str) (data : δ) (version : Int) : Rc × Ztree δ :=
  match h : t.node p with
  | none => (.noNode, t)
  | some n =>
    if expects version n then
      (.ok, t.replace p n { n with data, version := n.version + 1 } h fun _ _ => id)
    else (.badVersion, t)

def delete (p : Str) (version : Int) : Rc × Ztree δ :=
  if hr : p = rootPath then (.badArguments, t)
  else
    match h : t.node p with
    | none => (.noNode, t)
    | some n =>
      if expects version n then
        if hc : n.children = [] then
          let t' := t.remove p n h hc hr
          match hm : t'.node (parentPath p) with
          | none => (.ok, t')
          | some m =>
            (.ok, t'.replace (parentPath p) m
              { m with children := m.children.erase p, cversion := m.cversion + 1 } hm
              (by
                intro q hq hmem
                refine (List.mem_erase_of_ne ?_).mpr hmem
                rintro rfl
                simp [t', remove] at hq))
        else (.notEmpty, t)
      else (.badVersion, t)

/-! ## What a request can do -/

section

variable {t}

inductive Created (t : Ztree δ) (p : Str) (data : δ) (ephemeral : Bool) : Rc → Ztree δ → Prop where
  | invalid (h : validPath p = false) : Created t p data ephemeral .badArguments t
  | there {n : Znode δ} (h : t.node p = some n) : Created t p data ephemeral .nodeExists t
  | orphan (h : t.node p = none) (hm : t.node (parentPath p) = none) :
    Created t p data ephemeral .noNode t
  | refused {m : Znode δ} (hm : t.node (parentPath p) = some m) (he : m.ephemeral = true) :
    Created t p data ephemeral .noChildrenForEphemerals t
  | done {m : Znode δ} {t' : Ztree δ} (hp : validPath p = true) (h : t.node p = none)
    (hm : t.node (parentPath p) = some m)
    (ht : t'.node = Function.update (Function.update t.node (parentPath p)
      (some { m with children := p :: m.children, cversion := m.cversion + 1 })) p
      (some { data, ephemeral })) : Created t p data ephemeral .ok t'

theorem created (t : Ztree δ) (p : Str) (data : δ) (ephemeral : Bool) :
    Created t p data ephemeral (t.create p data ephemeral).1 (t.create p data ephemeral).2 := by
  unfold create
  split
  · rename_i hp
    split
    · rename_i h
      exact .there h
    · rename_i h
      split
      · rename_i hm
        exact .orphan h hm
      · rename_i hm
        split
        · rename_i he
          exact .refused hm he
        · exact .done hp h hm rfl
  · rename_i h
    exact .invalid (by simpa using h)

inductive Assigned (t : Ztree δ) (p : Str) (data : δ) (version : Int) : Rc → Ztree δ → Prop where
  | missing (h : t.node p = none) : Assigned t p data version .noNode t
  | refused {n : Znode δ} (h : t.node p = some n) (hv : expects version n = false) :
    Assigned t p data version .badVersion t
  | done {n : Znode δ} {t' : Ztree δ} (h : t.node p = some n) (hv : expects version n = true)
    (ht : t'.node = Function.update t.node p (some { n with data, version := n.version + 1 })) :
    Assigned t p data version .ok t'

theorem assigned (t : Ztree δ) (p : Str) (data : δ) (version : Int) :
    Assigned t p data version (t.set p data version).1 (t.set p data version).2 := by
  unfold set
  split
  · rename_i h
    exact .missing h
  · rename_i n h
    split
    · rename_i hv
      exact .done h hv rfl
    · rename_i hv
      exact .refused h (by simpa using hv)

inductive Deleted (t : Ztree δ) (p : Str) (version : Int) : Rc → Ztree δ → Prop where
  | root (h : p = rootPath) : Deleted t p version .badArguments t
  | missing (h : t.node p = none) : Deleted t p version .noNode t
  | refused {n : Znode δ} (h : t.node p = some n) (hv : expects version n = false) :
    Deleted t p version .badVersion t
  | notEmpty {n : Znode δ} (h : t.node p = some n) (hc : n.children ≠ []) :
    Deleted t p version .notEmpty t
  | done {n m : Znode δ} {t' : Ztree δ} (h : t.node p = some n) (hv : expects version n = true)
    (hc : n.children = []) (hne : parentPath p ≠ p) (hm : t.node (parentPath p) = some m)
    (ht : t'.node = Function.update (Function.update t.node p none) (parentPath p)
      (some { m with children := m.children.erase p, cversion := m.cversion + 1 })) :
    Deleted t p version .ok t'

theorem deleted (t : Ztree δ) (p : Str) (version : Int) :
    Deleted t p version (t.delete p version).1 (t.delete p version).2 := by
  unfold delete
  split
  · rename_i h
    exact .root h
  · rename_i hr
    split
    · rename_i h
      exact .missing h
    · rename_i n h
      split
      · rename_i hv
        split
        · rename_i hc
          -- The parent lists the node, so it is there and it is another one.
          obtain ⟨m, hm, hmem⟩ := t.linked h hr
          have hne : parentPath p ≠ p := by
            intro heq
            rw [heq, h] at hm
            cases hm
            simp [hc] at hmem
          have hm' : (t.remove p n h hc hr).node (parentPath p) = some m := by
            simp [remove, hne, hm]
          dsimp only
          split
          · rename_i hn
            rw [hm'] at hn
            cases hn
          · rename_i hn
            rw [hm'] at hn
            cases hn
            exact .done h hv hc hne hm rfl
        · rename_i hc
          exact .notEmpty h hc
      · rename_i hv
        exact .refused h (by simpa using hv)

/-- What one request does to one node. -/
inductive Change : Option (Znode δ) → Option (Znode δ) → Prop where
  | same (n : Option (Znode δ)) : Change n n
  | born (data : δ) (ephemeral : Bool) : Change none (some { data, ephemeral })
  | died (n : Znode δ) : Change (some n) none
  | set (n : Znode δ) (data : δ) : Change (some n) (some { n with data, version := n.version + 1 })
  | children (n : Znode δ) (l : List Str) :
    Change (some n) (some { n with children := l, cversion := n.cversion + 1 })

variable {t' : Ztree δ} {p : Str} {data : δ} {ephemeral : Bool} {version : Int} {rc : Rc}

theorem Created.change (h : Created t p data ephemeral rc t') (q : Str) :
    Change (t.node q) (t'.node q) := by
  cases h with
  | done hp h hm ht =>
    rw [ht, Function.update_apply]
    split
    · rename_i heq
      rw [heq, h]
      exact .born _ _
    · rw [Function.update_apply]
      split
      · rename_i heq
        rw [heq, hm]
        exact .children _ _
      · exact .same _
  | _ => exact .same _

/-- A create brings no other node. -/
theorem Created.node_eq_none (h : Created t p data ephemeral rc t') {q : Str}
    (hq : t.node q = none) (hne : q ≠ p) : t'.node q = none := by
  cases h with
  | done hp h hm ht =>
    have hnm : q ≠ parentPath p := by
      rintro rfl
      rw [hq] at hm
      cases hm
    rw [ht, Function.update_of_ne hne, Function.update_of_ne hnm, hq]
  | _ => exact hq

theorem Assigned.node_eq_none (h : Assigned t p data version rc t') {q : Str}
    (hq : t.node q = none) : t'.node q = none := by
  cases h with
  | done h hv ht =>
    have hne : q ≠ p := by
      rintro rfl
      rw [hq] at h
      cases h
    rw [ht, Function.update_of_ne hne, hq]
  | _ => exact hq

theorem Deleted.node_eq_none (h : Deleted t p version rc t') {q : Str} (hq : t.node q = none) :
    t'.node q = none := by
  cases h with
  | done h hv hc hne hm ht =>
    have hnm : q ≠ parentPath p := by
      rintro rfl
      rw [hq] at hm
      cases hm
    rw [ht, Function.update_of_ne hnm, Function.update_apply]
    split
    · rfl
    · exact hq
  | _ => exact hq

theorem Assigned.change (h : Assigned t p data version rc t') (q : Str) :
    Change (t.node q) (t'.node q) := by
  cases h with
  | done h hv ht =>
    rw [ht, Function.update_apply]
    split
    · rename_i heq
      rw [heq, h]
      exact .set _ _
    · exact .same _
  | _ => exact .same _

theorem Deleted.change (h : Deleted t p version rc t') (q : Str) :
    Change (t.node q) (t'.node q) := by
  cases h with
  | done h hv hc hne hm ht =>
    rw [ht, Function.update_apply]
    split
    · rename_i heq
      rw [heq, hm]
      exact .children _ _
    · rw [Function.update_apply]
      split
      · rename_i heq
        rw [heq, h]
        exact .died _
      · exact .same _
  | _ => exact .same _

end

end Ztree

def Ztree.single {δ : Type} (data : δ) : Ztree δ where
  node := Function.update (fun _ => none) rootPath (some { data })
  rooted := by simp
  linked := by
    intro p n h hr
    rw [Function.update_apply, if_neg hr] at h
    cases h

end Cocaine.Framework
