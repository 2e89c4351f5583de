import CocainePlugins.Unicorn.Requests
import CocainePlugins.Unicorn.Server

/-!
# The version condition of `put` and `del`

A version that a signed 32-bit integer holds reaches ZooKeeper as it is, so the
write happens only on the node's own version. Other versions are narrowed on the
way: one that differs from the node's by a multiple of 2^32 matches, and 2^32 - 1
becomes -1, which matches everything. The rest of them become a number below -1,
which no node has.
-/

namespace Cocaine.Unicorn

open Framework

variable {v : Int}

theorem expects_i32_iff {n : Znode Data} (h0 : 0 ≤ v) (hv : v < 2 ^ 31) :
    Ztree.expects (i32 v) n = true ↔ (n.version : Int) = v := by
  rw [i32_of_lt h0 hv, Ztree.expects, Bool.or_eq_true, beq_iff_eq, beq_iff_eq]
  omega

/-- On its way to ZooKeeper, `v` becomes neither another version that a node can have nor the
wildcard. -/
def Distinguished (v : Int) : Prop := v < 2 ^ 31 ∨ 2 ^ 31 ≤ v % 2 ^ 32 ∧ v % 2 ^ 32 ≠ 2 ^ 32 - 1

theorem i32_eq_ite (v : Int) : i32 v =
    if v % 2 ^ 32 < 2 ^ 31 then v % 2 ^ 32 else v % 2 ^ 32 - 2 ^ 32 := by
  rw [i32, Int.bmod_def]
  rfl

theorem Distinguished.version_eq (hv : Distinguished v) (h0 : 0 ≤ v) {n : Znode Data}
    (he : Ztree.expects (i32 v) n = true) : (n.version : Int) = v := by
  rcases hv with hv | ⟨hle, hne⟩
  · exact (expects_i32_iff h0 hv).mp he
  · rw [Ztree.expects, Bool.or_eq_true, beq_iff_eq, beq_iff_eq, i32_eq_ite,
      if_neg (Int.not_lt.mpr hle)] at he
    omega

/-- Any other `v` meets a version that is not `v`. -/
theorem exists_expects (hv : ¬ Distinguished v) :
    0 ≤ v ∧ ∃ k : Nat, (k : Int) ≠ v ∧
      ∀ n : Znode Data, n.version = k → Ztree.expects (i32 v) n = true := by
  simp only [Distinguished, not_or, not_and, Decidable.not_not, Int.not_lt] at hv
  refine ⟨by omega, (if v % 2 ^ 32 < 2 ^ 31 then v % 2 ^ 32 else 0).toNat, ?_, fun n hn => ?_⟩
  · split <;> omega
  · rw [Ztree.expects, Bool.or_eq_true, beq_iff_eq, beq_iff_eq, i32_eq_ite, hn]
    split <;> omega

theorem version_of_put {t : Ztree Data} {p : Str} {data : Data}
    (h : (serve t (.put p data v)).1 ≠ t) :
    ∃ n, t.node p = some n ∧ Ztree.expects (i32 v) n = true := by
  have ha := t.assigned p data (i32 v)
  simp only [serve] at h
  generalize (t.set p data (i32 v)).1 = rc at ha
  generalize (t.set p data (i32 v)).2 = t' at ha h
  cases ha with
  | missing | refused => exact absurd rfl h
  | done hn he => exact ⟨_, hn, he⟩

theorem version_of_del {t : Ztree Data} {p : Str} (h : (serve t (.del p v)).1 ≠ t) :
    ∃ n, t.node p = some n ∧ Ztree.expects (i32 v) n = true := by
  have ha := t.deleted p (i32 v)
  simp only [serve] at h
  generalize (t.delete p (i32 v)).1 = rc at ha
  generalize (t.delete p (i32 v)).2 = t' at ha h
  cases ha with
  | root | missing | refused | notEmpty => exact absurd rfl h
  | done hn he => exact ⟨_, hn, he⟩

/-- A tree with the root and the node `/n`. -/
def sampleTree : Ztree Data := ((Ztree.single .raw).create "/n".toList (.packed (.int 5)) false).2

/-- The same with another version of the node. -/
def sampleTreeAt (k : Nat) : Ztree Data :=
  sampleTree.replace "/n".toList { data := .packed (.int 5) }
    { data := .packed (.int 5), version := k } rfl fun _ _ => id

theorem put_sampleTreeAt {k : Nat} (data : Data)
    (he : ∀ n : Znode Data, n.version = k → Ztree.expects (i32 v) n = true) :
    (serve (sampleTreeAt k) (.put "/n".toList data v)).1 ≠ sampleTreeAt k := by
  intro heq
  have ha := (sampleTreeAt k).assigned "/n".toList data (i32 v)
  simp only [serve] at heq
  rw [heq] at ha
  generalize ((sampleTreeAt k).set "/n".toList data (i32 v)).1 = rc at ha
  cases ha with
  | missing h => cases h
  | refused h hv => cases h; rw [he _ rfl] at hv; cases hv
  | done h hv ht =>
    have hn := congrFun ht "/n".toList
    rw [Function.update_self, h, Option.some.injEq] at hn
    exact Nat.ne_of_lt (Nat.lt_succ_self _) (congrArg Znode.version hn)

theorem del_sampleTreeAt {k : Nat}
    (he : ∀ n : Znode Data, n.version = k → Ztree.expects (i32 v) n = true) :
    (serve (sampleTreeAt k) (.del "/n".toList v)).1 ≠ sampleTreeAt k := by
  intro heq
  have ha := (sampleTreeAt k).deleted "/n".toList (i32 v)
  simp only [serve] at heq
  rw [heq] at ha
  generalize ((sampleTreeAt k).delete "/n".toList (i32 v)).1 = rc at ha
  cases ha with
  | root h | missing h => cases h
  | refused h hv => cases h; rw [he _ rfl] at hv; cases hv
  | notEmpty h hc => cases h; exact hc rfl
  | done h hv hc hne hm ht =>
    have hn := congrFun ht "/n".toList
    rw [Function.update_of_ne hne.symm, Function.update_self] at hn
    cases hn

/-- That no request a `put` or `del` with version `v` ever makes changes anything, unless `v` is
the node's version, is so exactly for these `v`. -/
theorem version_condition_exact (v : Int) :
    ((∀ path value m, (operationSystem (.put path value v)).Reachable System.Any m →
      ∀ q, .sent q ∈ m.log → ∀ t, (serve t q).1 ≠ t →
        0 ≤ v ∧ ∃ n, t.node path = some n ∧ (n.version : Int) = v) ↔ Distinguished v) ∧
    ((0 ≤ v → ∀ path m, (operationSystem (.del path v)).Reachable System.Any m →
      ∀ q, .sent q ∈ m.log → ∀ t, (serve t q).1 ≠ t →
        ∃ n, t.node path = some n ∧ (n.version : Int) = v) ↔ Distinguished v) := by
  refine ⟨⟨fun h => ?_, fun hv path value m hr q hq t hc => ?_⟩,
    ⟨fun h => ?_, fun hv h0 path m hr q hq t hc => ?_⟩⟩
  · by_contra hv
    obtain ⟨h0, k, hne, he⟩ := exists_expects hv
    have hrun : PutT.run "/n".toList .null v = ask (.put "/n".toList (serialize .null) v) :=
      if_neg (Int.not_lt.mpr h0)
    have hsent : Obs.sent (.put "/n".toList (serialize .null) v) ∈
        (Machine.start (.put "/n".toList .null v) {}).log := by
      simp only [Machine.start, Action.run, Action.init]
      rw [hrun]
      exact List.mem_cons_self
    obtain ⟨-, n, hn, hver⟩ := h "/n".toList .null _ ⟨_, ⟨{}, rfl⟩, .refl⟩
      (.put "/n".toList (serialize .null) v) hsent (sampleTreeAt k) (put_sampleTreeAt _ he)
    cases hn
    exact hne hver
  · cases (Machine.asking hr).sent q hq with
    | put h0 =>
      obtain ⟨n, hn, he⟩ := version_of_put hc
      exact ⟨h0, n, hn, hv.version_eq h0 he⟩
    | reread =>
      simp only [serve] at hc
      split at hc <;> exact absurd rfl hc
    | sequence h | folder h | rivals h | previous h | node h | release h => cases h
  · by_contra hv
    obtain ⟨h0, k, hne, he⟩ := exists_expects hv
    obtain ⟨n, hn, hver⟩ := h h0 "/n".toList _ ⟨_, ⟨{}, rfl⟩, .refl⟩
      (.del "/n".toList v) List.mem_cons_self (sampleTreeAt k) (del_sampleTreeAt he)
    cases hn
    exact hne hver
  · cases (Machine.asking hr).sent q hq with
    | del =>
      obtain ⟨n, hn, he⟩ := version_of_del hc
      exact ⟨n, hn, hv.version_eq h0 he⟩
    | sequence h | folder h | rivals h | previous h | node h | release h => cases h

/-- The node has version 0: a put for version 2^32 writes it, and a delete for
version 2^32 - 1 removes it. -/
theorem version_narrowed :
    (∃ n, sampleTree.node "/n".toList = some n ∧ n.version = 0) ∧
    (∃ m, (operationSystem (.put "/n".toList (.int 1) (2 ^ 32))).Reachable System.Any m ∧
      ∃ q, .sent q ∈ m.log ∧
        (serve sampleTree q).1.node "/n".toList ≠ sampleTree.node "/n".toList) ∧
    ∃ m, (operationSystem (.del "/n".toList (2 ^ 32 - 1))).Reachable System.Any m ∧
      ∃ q, .sent q ∈ m.log ∧ (serve sampleTree q).1.node "/n".toList = none := by
  refine ⟨⟨_, rfl, rfl⟩, ?_, ?_⟩
  · obtain ⟨m, hr, hq⟩ := (operationSystem (.put "/n".toList (.int 1) (2 ^ 32))).exists_reachable
      System.Any (P := fun m => .sent (.put "/n".toList (.packed (.int 1)) (2 ^ 32)) ∈ m.log) []
      ⟨{}, rfl⟩ (by decide +kernel)
    exact ⟨m, hr, _, hq, by decide +kernel⟩
  · obtain ⟨m, hr, hq⟩ := (operationSystem (.del "/n".toList (2 ^ 32 - 1))).exists_reachable
      System.Any (P := fun m => .sent (.del "/n".toList (2 ^ 32 - 1)) ∈ m.log) [] ⟨{}, rfl⟩
      (by decide +kernel)
    exact ⟨m, hr, _, hq, by decide +kernel⟩

end Cocaine.Unicorn
