import CocainePlugins.Framework.Tree

/-!
# A node with its missing ancestors

The ancestors of a path that a tree lacks are the nearest ones, so whoever creates them from
the highest down, and then the node itself, makes a tree that has these nodes and nothing
else new (`Ztree.Built`): one created node is such a tree (`Ztree.Created.built`), and so is
one more below it (`Ztree.Built.child`).
-/

namespace Cocaine.Framework

theorem parentPath_of_beforeLast {p q : Str} (h : beforeLast '/' p = some q) (hq : q ≠ []) :
    parentPath p = q := by
  unfold parentPath
  split
  · rename_i hn
    rw [h] at hn
    cases hn
  · rename_i hn
    rw [h] at hn
    cases hn
    exact absurd rfl hq
  · rename_i hn
    rw [h] at hn
    cases hn
    rfl

variable {p : Str}

/-- A parent other than the root is what stands before the last slash. -/
theorem beforeLast_eq_parentPath (h : parentPath p ≠ rootPath) :
    beforeLast '/' p = some (parentPath p) := by
  unfold parentPath at h ⊢
  split at h
  · exact absurd rfl h
  · exact absurd rfl h
  · rename_i heq
    rw [heq]

theorem length_parentPath (h : parentPath p ≠ rootPath) :
    (parentPath p).length < p.length :=
  length_of_beforeLast (beforeLast_eq_parentPath h)

theorem parentPath_ne_nil (p : Str) : parentPath p ≠ [] := by
  unfold parentPath
  split
  · simp [rootPath]
  · simp [rootPath]
  · rename_i hne _
    simpa using hne

/-- The components of the parent are components of the path. -/
theorem validPath_parentPath (hp : validPath p = true) (h : parentPath p ≠ rootPath) :
    validPath (parentPath p) = true := by
  obtain ⟨name, -, heq⟩ := beforeLast_eq_some (beforeLast_eq_parentPath h)
  obtain ⟨c, q, hq⟩ := List.exists_cons_of_ne_nil (parentPath_ne_nil p)
  rw [hq] at heq h ⊢
  rw [heq] at hp
  have hroot : c :: q ++ '/' :: name ≠ rootPath := by simp [rootPath]
  unfold validPath at hp ⊢
  rw [beq_eq_false_iff_ne.mpr hroot, Bool.false_or] at hp
  rw [beq_eq_false_iff_ne.mpr h, Bool.false_or]
  by_cases hc : c = '/'
  · subst hc
    have hsplit : (q ++ '/' :: name).splitOn '/' = q.splitOn '/' ++ name.splitOn '/' :=
      List.splitOnP_append_cons q name (beq_self_eq_true '/')
    simp only [List.cons_append, hsplit, List.all_append, Bool.and_eq_true] at hp
    exact hp.1
  · simp [hc] at hp

/-- The paths above `p`, the nearest first, without the root. -/
def ancestors (p : Str) : List Str :=
  if parentPath p = rootPath then [] else parentPath p :: ancestors (parentPath p)
termination_by p.length
decreasing_by exact length_parentPath ‹_›

theorem ancestors_of_top (h : parentPath p = rootPath) : ancestors p = [] := by
  rw [ancestors, if_pos h]

theorem ancestors_of_ne (h : parentPath p ≠ rootPath) :
    ancestors p = parentPath p :: ancestors (parentPath p) := by
  rw [ancestors, if_neg h]

theorem parentPath_mem (p : Str) : parentPath p ∈ rootPath :: ancestors p := by
  by_cases h : parentPath p = rootPath
  · rw [h]
    exact List.mem_cons_self
  · rw [ancestors_of_ne h]
    exact List.mem_cons_of_mem _ List.mem_cons_self

theorem ancestors_parentPath {p q : Str} (h : q ∈ rootPath :: ancestors (parentPath p))
    (hne : parentPath p ≠ rootPath) : q ∈ rootPath :: ancestors p := by
  rw [ancestors_of_ne hne]
  rcases List.mem_cons.mp h with rfl | h
  · exact List.mem_cons_self
  · exact List.mem_cons_of_mem _ (List.mem_cons_of_mem _ h)

theorem length_of_mem_ancestors {p q : Str} (h : q ∈ ancestors p) : q.length < p.length := by
  fun_induction ancestors p with
  | case1 => cases h
  | case2 p hne ih =>
    have hlt := length_parentPath hne
    rcases List.mem_cons.mp h with rfl | h
    · exact hlt
    · exact (ih h).trans hlt

def Znode.adopt {δ : Type} (child : Str) (m : Znode δ) : Znode δ :=
  { m with children := child :: m.children, cversion := m.cversion + 1 }

namespace Ztree

variable {δ : Type} {t t₁ t' : Ztree δ} {p : Str} {data d : δ} {ephemeral : Bool}

/-- The ancestors of `p` that the tree lacks. -/
def missing (t : Ztree δ) (p : Str) : List Str :=
  (ancestors p).filter fun q => (t.node q).isNone

/-- The highest of the nodes that `p` lacks, itself included. -/
def top (t : Ztree δ) (p : Str) : Str := (t.missing p).getLastD p

theorem missing_of_node (h : t.node p ≠ none) : t.missing p = [] := by
  unfold missing
  fun_induction ancestors p with
  | case1 => rfl
  | case2 p hne ih =>
    have hp : p ≠ rootPath := by
      rintro rfl
      exact hne rfl
    have hparent : t.node (parentPath p) ≠ none := fun hm => h (t.node_eq_none hm hp)
    rw [List.filter_cons_of_neg (by simpa using hparent)]
    exact ih hparent

/-- A node that has its parent lacks no ancestor. -/
theorem missing_of_parent (h : t.node (parentPath p) ≠ none) : t.missing p = [] := by
  by_cases hroot : parentPath p = rootPath
  · rw [missing, ancestors_of_top hroot]
    rfl
  · rw [missing, ancestors_of_ne hroot, List.filter_cons_of_neg (by simpa using h)]
    exact missing_of_node h

theorem parentPath_ne_rootPath (h : t.node (parentPath p) = none) : parentPath p ≠ rootPath := by
  intro hroot
  have hr := t.rooted
  rw [← hroot, h] at hr
  cases hr

theorem missing_of_orphan (h : t.node (parentPath p) = none) :
    t.missing p = parentPath p :: t.missing (parentPath p) := by
  rw [missing, ancestors_of_ne (parentPath_ne_rootPath h),
    List.filter_cons_of_pos (by simp [h])]
  rfl

theorem top_of_orphan (h : t.node (parentPath p) = none) : t.top p = t.top (parentPath p) := by
  rw [top, missing_of_orphan h, List.getLastD_cons, top]

theorem length_of_mem_missing {q : Str} (h : q ∈ t.missing p) : q.length < p.length :=
  length_of_mem_ancestors (List.mem_of_mem_filter h)

/-- The tree `t'` is `t` with the node `n` at `p`, and the ancestors of `p` that `t` lacks with
`data`. Of the other nodes the one above the highest new node has it as a child. -/
structure Built (t t' : Ztree δ) (p : Str) (n : Znode δ) (data : δ) : Prop where
  node : t'.node p = some n
  above : ∀ q ∈ t.missing p, ∃ m, t'.node q = some m ∧
    m.data = data ∧ m.version = 0 ∧ m.ephemeral = false
  others : ∀ q, q ∉ p :: t.missing p → t'.node q =
    (t.node q).map fun m => if q = parentPath (t.top p) then m.adopt (t.top p) else m

/-- What becomes of a valid path that is not there depends on its parent. -/
theorem Created.of_absent {rc : Rc} (h : Created t p d ephemeral rc t') (hv : validPath p = true)
    (hp : t.node p = none) :
    (t.node (parentPath p) = none ∧ rc = .noNode ∧ t' = t) ∨
      ∃ m, t.node (parentPath p) = some m ∧ (m.ephemeral = false → rc = .ok) := by
  cases h with
  | invalid h =>
    rw [hv] at h
    cases h
  | there h =>
    rw [hp] at h
    cases h
  | orphan _ hm => exact .inl ⟨hm, rfl, rfl⟩
  | refused hm he =>
    refine .inr ⟨_, hm, fun he' => ?_⟩
    rw [he'] at he
    cases he
  | done _ _ hm => exact .inr ⟨_, hm, fun _ => rfl⟩

/-- A valid path below a node that may have children can be created. -/
theorem Created.rc_eq_ok {rc : Rc} {m : Znode δ} (h : Created t p d ephemeral rc t')
    (hv : validPath p = true) (hp : t.node p = none) (hm : t.node (parentPath p) = some m)
    (he : m.ephemeral = false) : rc = .ok := by
  obtain ⟨hnone, -⟩ | ⟨m', hm', hok⟩ := h.of_absent hv hp
  · rw [hm] at hnone
    cases hnone
  · rw [hm] at hm'
    cases hm'
    exact hok he

theorem Created.orphaned {rc : Rc} (h : Created t p d ephemeral rc t') (hv : validPath p = true)
    (hp : t.node p = none) (hm : t.node (parentPath p) = none) : rc = .noNode ∧ t' = t := by
  obtain ⟨-, hsame⟩ | ⟨m', hm', -⟩ := h.of_absent hv hp
  · exact hsame
  · rw [hm] at hm'
    cases hm'

theorem create_of_node (hv : validPath p = true) (hp : t.node p ≠ none) :
    t.create p d ephemeral = (.nodeExists, t) := by
  unfold create
  rw [if_pos hv]
  split
  · rfl
  · rename_i hn
    exact absurd hn hp

theorem Created.built (h : Created t p d ephemeral .ok t') (data : δ) :
    t.Built t' p { data := d, ephemeral } data := by
  cases h with
  | @done m _ hv hp hm ht =>
    have hnone : t.missing p = [] := missing_of_parent (by simp [hm])
    have htop : t.top p = p := by rw [top, hnone, List.getLastD_nil]
    refine ⟨?_, ?_, ?_⟩
    · rw [ht, Function.update_self]
    · simp [hnone]
    · intro q hq
      rw [hnone, List.mem_singleton] at hq
      rw [ht, Function.update_of_ne hq, Function.update_apply, htop]
      by_cases hqm : q = parentPath p
      · simp only [hqm, if_true, hm]
        rfl
      · simp only [hqm, if_false, Option.map_id']

theorem Built.node_eq_none {n : Znode δ} {q : Str} (h : t.Built t' p n data)
    (hq : q ∉ p :: t.missing p) (hn : t.node q = none) : t'.node q = none := by
  rw [h.others q hq, hn]
  rfl

/-- A path is none of those that its parent needs. -/
theorem not_mem_parent (h : t.node (parentPath p) = none) :
    p ∉ parentPath p :: t.missing (parentPath p) := by
  have hlt := length_parentPath (parentPath_ne_rootPath h)
  intro hmem
  rcases List.mem_cons.mp hmem with heq | hmem
  · rw [← heq] at hlt
    exact lt_irrefl _ hlt
  · exact absurd (length_of_mem_missing hmem) (not_lt.mpr hlt.le)

/-- A node created below its parent, which was built. -/
theorem Built.child (h : t.Built t₁ (parentPath p) { data } data)
    (hm : t.node (parentPath p) = none) (hc : Created t₁ p d ephemeral .ok t') :
    t.Built t' p { data := d, ephemeral } data := by
  cases hc with
  | @done m _ hv hp hm₁ ht =>
    have hne := not_mem_parent hm
    rw [h.node] at hm₁
    cases hm₁
    refine ⟨?_, ?_, ?_⟩
    · rw [ht, Function.update_self]
    · rw [missing_of_orphan hm]
      intro q hq
      have hqp : q ≠ p := fun heq => hne (heq ▸ hq)
      rw [ht, Function.update_of_ne hqp]
      rcases List.mem_cons.mp hq with rfl | hq
      · exact ⟨_, Function.update_self .., rfl, rfl, rfl⟩
      · have hqm : q ≠ parentPath p := by
          rintro rfl
          exact lt_irrefl _ (length_of_mem_missing hq)
        rw [Function.update_of_ne hqm]
        exact h.above q hq
    · rw [missing_of_orphan hm, top_of_orphan hm]
      intro q hq
      obtain ⟨hqp, hq⟩ := not_or.mp (mt List.mem_cons.mpr hq)
      have hqm : q ≠ parentPath p := fun heq => hq (heq ▸ List.mem_cons_self)
      rw [ht, Function.update_of_ne hqp, Function.update_of_ne hqm]
      exact h.others q hq

end Ztree

end Cocaine.Framework
