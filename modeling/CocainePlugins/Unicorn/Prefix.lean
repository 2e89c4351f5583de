import Mathlib.Data.List.DropRight
import CocainePlugins.Framework.Occurrences
import CocainePlugins.Unicorn.Connection

/-!
# The ancestors of a path, and the prefix of a connection

`path_parent` takes its depth as an unsigned number and gives it, negated, to a search that counts
from the end of the path if its index is negative. The index is a signed number of 32 bits, so a
depth above `2 ^ 31` comes out positive, and the search counts from the start.

Up to that depth parents of parents are parents, and the constructor of a connection goes through
all the ancestors of its prefix with them, from the shortest on.
-/

namespace Cocaine.Unicorn

open Framework

/-! ## path_parent -/

namespace Zookeeper

def pathParent (path : Str) (depth : UInt32) : Except Error Str :=
  if path = [] then .error ⟨.uncaught, "invalid path for path parent"⟩
  else if depth = 0 then .ok path
  else
    match findNth '/' (i32 (-depth).toNat) path with
    | none => .error ⟨.uncaught, "could not get level parent from path"⟩
    | some pos => .ok (path.take pos)

/-- The slash with the number `k` of `n` slashes is the one at which the depth cuts. -/
def Cuts (n depth k : Nat) : Prop :=
  0 < depth ∧ if depth ≤ 2 ^ 31 then k + depth = n else k + depth = 2 ^ 32

variable {p q : Str} {d i j : UInt32}

theorem toNat_pos (h : d ≠ 0) : 0 < d.toNat :=
  Nat.pos_of_ne_zero fun hd => h (UInt32.toNat_inj.mp hd)

theorem toNat_neg (h : d ≠ 0) : (-d).toNat = 2 ^ 32 - d.toNat := by
  have hpos := toNat_pos h
  have hsize : UInt32.size = 2 ^ 32 := rfl
  rw [UInt32.toNat_neg, hsize, Nat.mod_eq_of_lt (by omega)]

theorem index_of_le (h0 : d ≠ 0) (h : d.toNat ≤ 2 ^ 31) : i32 (-d).toNat = -(d.toNat : Int) := by
  rw [i32_eq_sub, lost32, toNat_neg h0]
  omega

theorem index_of_gt (h : 2 ^ 31 < d.toNat) : i32 (-d).toNat = ((2 ^ 32 - d.toNat : Nat) : Int) := by
  have h0 : d ≠ 0 := by
    rintro rfl
    cases h
  rw [i32_eq_sub, lost32, toNat_neg h0]
  omega

theorem cuts_of_le {n depth k : Nat} (h0 : 0 < depth) (h : depth ≤ 2 ^ 31) :
    Cuts n depth k ↔ k + depth = n := by
  rw [Cuts, if_pos h, and_iff_right h0]

theorem cuts_of_gt {n depth k : Nat} (h : 2 ^ 31 < depth) :
    Cuts n depth k ↔ k + depth = 2 ^ 32 := by
  rw [Cuts, if_neg (Nat.not_le.mpr h), and_iff_right (by omega)]

theorem take_index (h0 : d ≠ 0) : (findNth '/' (i32 (-d).toNat) p).map p.take = some q ↔
    ∃ k, Cuts (p.count '/') d.toNat k ∧ beforeNth '/' k p = some q := by
  have hpos := toNat_pos h0
  by_cases h : d.toNat ≤ 2 ^ 31
  · simp only [cuts_of_le hpos h]
    rw [index_of_le h0 h]
    exact take_findNth_neg hpos
  · have hlt := d.toNat_lt
    simp only [cuts_of_gt (Nat.not_le.mp h)]
    rw [index_of_gt (Nat.not_le.mp h), take_findNth]
    constructor
    · exact fun hq => ⟨_, Nat.sub_add_cancel hlt.le, hq⟩
    · rintro ⟨k, hk, hq⟩
      rw [← hk, Nat.add_sub_cancel]
      exact hq

theorem pathParent_eq_ok : pathParent p d = .ok q ↔ p ≠ [] ∧
    (d = 0 ∧ q = p ∨ ∃ k, Cuts (p.count '/') d.toNat k ∧ beforeNth '/' k p = some q) := by
  unfold pathParent
  split
  · rename_i hp
    exact iff_of_false nofun fun h => h.1 hp
  · rename_i hp
    rw [and_iff_right hp]
    split
    · rename_i h0
      subst h0
      have hcut : ¬ ∃ k, Cuts (p.count '/') (0 : UInt32).toNat k ∧ beforeNth '/' k p = some q :=
        fun ⟨_, hk, _⟩ => Nat.lt_irrefl 0 hk.1
      rw [or_iff_left hcut, and_iff_right rfl, Except.ok.injEq]
      exact eq_comm
    · rename_i h0
      rw [or_iff_right fun h => h0 h.1, ← take_index h0]
      split
      · rename_i hnone
        rw [hnone]
        exact iff_of_false nofun nofun
      · rename_i pos hpos
        rw [hpos, Option.map_some, Option.some.injEq, Except.ok.injEq]

theorem cuts_iff {n depth k : Nat} : Cuts n depth k ↔
    0 < depth ∧ (depth ≤ 2 ^ 31 ∧ k + depth = n ∨ 2 ^ 31 < depth ∧ k + depth = 2 ^ 32) := by
  unfold Cuts
  split <;> omega

/-! ## Which parents there are -/

theorem exists_pathParent : (∃ q, pathParent p d = .ok q) ↔
    p ≠ [] ∧ (d = 0 ∨ ∃ k, Cuts (p.count '/') d.toNat k ∧ k < p.count '/') := by
  simp only [pathParent_eq_ok, exists_and_left, ← exists_beforeNth]
  refine and_congr_right fun _ => ?_
  constructor
  · rintro ⟨q, ⟨h0, -⟩ | ⟨k, hk, hq⟩⟩
    · exact .inl h0
    · exact .inr ⟨k, hk, q, hq⟩
  · rintro (h0 | ⟨k, hk, q, hq⟩)
    · exact ⟨p, .inl ⟨h0, rfl⟩⟩
    · exact ⟨q, .inr ⟨k, hk, hq⟩⟩

theorem exists_cuts {n depth : Nat} (h : depth < 2 ^ 32) : (∃ k, Cuts n depth k ∧ k < n) ↔
    0 < depth ∧ (depth ≤ 2 ^ 31 ∧ depth ≤ n ∨ 2 ^ 31 < depth ∧ 2 ^ 32 < n + depth) := by
  simp only [cuts_iff]
  constructor
  · rintro ⟨k, hk, hlt⟩
    omega
  · rintro ⟨hpos, hle | hgt⟩
    · exact ⟨n - depth, by omega, by omega⟩
    · exact ⟨2 ^ 32 - depth, by omega, by omega⟩

/-- The depths for which there is a parent if and only if there are as many slashes. -/
theorem exists_pathParent_iff : ((∃ q, pathParent p i = .ok q) ↔ p ≠ [] ∧ i.toNat ≤ p.count '/') ↔
    (p = [] ∨ i.toNat ≤ 2 ^ 31 ∨ p.count '/' + i.toNat ≤ 2 ^ 32 ∨ i.toNat ≤ p.count '/') := by
  have hlt := i.toNat_lt
  have hzero : i = 0 ↔ i.toNat = 0 := UInt32.toNat_inj.symm
  rw [exists_pathParent, exists_cuts hlt, hzero]
  by_cases hp : p = []
  · simp [hp]
  · simp only [hp, ne_eq, not_false_eq_true, true_and, false_or]
    omega

/-! ## Parents of parents -/

/-- The depths `i` and `j` add up in a path with `n` slashes. -/
def Composes (n i j : Nat) : Prop :=
  i = 0 ∨ j = 0 ∨
    if i + j < 2 ^ 32 then
      2 ^ 31 < i ∨ i + j ≤ 2 ^ 31 ∨ n + i + j ≤ 2 ^ 32 ∨ j ≤ 2 ^ 31 ∧ n = 2 ^ 32
    else
      -- The sum is taken modulo `2 ^ 32`.
      let sum := i + j - 2 ^ 32
      0 < sum ∧ 2 ^ 31 < i ∧
        (i < j ∧ sum ≤ 2 ^ 31 ∧ n = i ∨
          j ≤ i ∧ (sum ≤ 2 ^ 31 ∧ n < sum ∨ 2 ^ 31 < sum ∧ n + sum ≤ 2 ^ 32))

theorem toNat_add_of_lt (h : i.toNat + j.toNat < 2 ^ 32) : (i + j).toNat = i.toNat + j.toNat := by
  rw [UInt32.toNat_add, Nat.mod_eq_of_lt h]

theorem toNat_add_of_le (h : 2 ^ 32 ≤ i.toNat + j.toNat) :
    (i + j).toNat = i.toNat + j.toNat - 2 ^ 32 := by
  have hi := i.toNat_lt
  have hj := j.toNat_lt
  rw [UInt32.toNat_add]
  omega

theorem composes_iff_cuts_of_lt {n i j k : Nat} (hi : Cuts n i k) (hk : k < n) (hj : 0 < j)
    (h : i + j < 2 ^ 32) :
    (∀ m < n, Cuts k j m ∧ m < k ↔ Cuts n (i + j) m) ↔ Composes n i j := by
  simp only [cuts_iff] at hi ⊢
  rw [Composes, if_pos h]
  constructor
  · intro hcuts
    have := hcuts (2 ^ 32 - (i + j))
    omega
  · intro hcond m hm
    omega

theorem composes_iff_cuts_of_gt {n i j k : Nat} (hi : Cuts n i k) (hk : k < n) (hi' : i < 2 ^ 32)
    (hj : j < 2 ^ 32) (h : 2 ^ 32 < i + j) :
    (∀ m < n, Cuts k j m ∧ m < k ↔ Cuts n (i + j - 2 ^ 32) m) ↔ Composes n i j := by
  rw [Composes, if_neg (by omega)]
  obtain ⟨sum, hsum⟩ := Nat.exists_eq_add_of_lt h
  have hsub : i + j - 2 ^ 32 = sum + 1 := by omega
  rw [hsub]
  by_cases hsign : i ≤ 2 ^ 31
  · -- The sum is smaller than `i`, and its slash is not before the one of `i`.
    rw [cuts_of_le hi.1 hsign] at hi
    refine iff_of_false (fun hcuts => ?_) ?_
    · have hsucc : n - (sum + 1) + (sum + 1) = n := by omega
      have hend := (cuts_of_le (Nat.succ_pos sum) (by omega)).mpr hsucc
      have hbefore := ((hcuts _ (by omega)).mpr hend).2
      omega
    · rintro (h0 | h0 | ⟨-, hgt, -⟩)
      · omega
      · omega
      · exact hsign.not_gt hgt
  rw [cuts_of_gt (Nat.not_le.mp hsign)] at hi
  by_cases hlt : i < j
  · simp only [cuts_of_gt (by omega : 2 ^ 31 < j)]
    constructor
    · intro hcuts
      have hstart := (hcuts (2 ^ 32 - j) (by omega)).mp ⟨by omega, by omega⟩
      rw [cuts_iff] at hstart
      omega
    · intro hcond m hm
      rw [cuts_iff]
      omega
  · -- The parent has no slash to cut at.
    have hnone : ∀ m, ¬ (Cuts k j m ∧ m < k) := by
      intro m
      rw [cuts_iff]
      omega
    simp only [hnone, false_iff]
    by_cases hle : sum + 1 ≤ 2 ^ 31
    · simp only [cuts_of_le (Nat.succ_pos sum) hle]
      constructor
      · intro hcuts
        have := hcuts (n - (sum + 1))
        omega
      · intro hcond m hm
        omega
    · simp only [cuts_of_gt (Nat.not_le.mp hle)]
      constructor
      · intro hcuts
        have := hcuts (2 ^ 32 - (sum + 1))
        omega
      · intro hcond m hm
        omega

theorem pathParent_of_ne_zero (h0 : d ≠ 0) :
    pathParent p d = .ok q ↔ ∃ k, Cuts (p.count '/') d.toNat k ∧ beforeNth '/' k p = some q := by
  rw [pathParent_eq_ok]
  constructor
  · rintro ⟨-, ⟨rfl, -⟩ | h⟩
    · exact absurd rfl h0
    · exact h
  · rintro ⟨k, hk, hq⟩
    obtain ⟨-, r, hp⟩ := beforeNth_eq_some.mp hq
    exact ⟨by simp [hp], .inr ⟨k, hk, hq⟩⟩

/-- The parents of a parent, as parts of the whole path. -/
theorem pathParent_of_beforeNth {k : Nat} (hq : beforeNth '/' k p = some q) (h0 : j ≠ 0) {r : Str} :
    pathParent q j = .ok r ↔ ∃ m, (Cuts k j.toNat m ∧ m < k) ∧ beforeNth '/' m p = some r := by
  rw [pathParent_of_ne_zero h0, (beforeNth_eq_some.mp hq).1]
  simp only [beforeNth_beforeNth hq, and_assoc]

theorem pathParent_zero (h : p ≠ []) : pathParent p 0 = .ok p := by
  rw [pathParent, if_neg h, if_pos rfl]

/-- Depths whose sum is zero give the path itself, which is no parent of a parent. -/
theorem pathParent_ne_of_add_eq_zero {k : Nat} (hq : beforeNth '/' k p = some q) (hj : j ≠ 0)
    (h0 : i + j = 0) : ¬ ∀ r, pathParent q j = .ok r ↔ pathParent p (i + j) = .ok r := by
  intro h
  have hk : k < p.count '/' := exists_beforeNth.mp ⟨q, hq⟩
  have hp : p ≠ [] := by
    rintro rfl
    cases hk
  have hself := (h p).mpr (by rw [h0, pathParent_zero hp])
  obtain ⟨m, ⟨-, hm⟩, hbefore⟩ := (pathParent_of_beforeNth hq hj).mp hself
  have hcount := (beforeNth_eq_some.mp hbefore).1
  omega

/-- Depth for depth, the parents of a parent are parents if and only if the depths add up. -/
theorem pathParent_add_iff (hq : pathParent p i = .ok q) (hne : q ≠ []) :
    (∀ r, pathParent q j = .ok r ↔ pathParent p (i + j) = .ok r) ↔
      Composes (p.count '/') i.toNat j.toNat := by
  by_cases hi : i = 0
  · subst hi
    obtain rfl : p = q := Except.ok.inj ((pathParent_zero (pathParent_eq_ok.mp hq).1).symm.trans hq)
    rw [UInt32.zero_add]
    exact iff_of_true (fun _ => Iff.rfl) (.inl rfl)
  by_cases hj : j = 0
  · subst hj
    rw [UInt32.add_zero]
    refine iff_of_true (fun r => ?_) (.inr (.inl rfl))
    rw [hq, pathParent_zero hne]
  obtain ⟨k, hk, hbefore⟩ := (pathParent_of_ne_zero hi).mp hq
  have hlt : k < p.count '/' := exists_beforeNth.mp ⟨q, hbefore⟩
  have hipos := toNat_pos hi
  have hjpos := toNat_pos hj
  by_cases hsum : i.toNat + j.toNat < 2 ^ 32
  · have hadd := toNat_add_of_lt hsum
    have h0 : i + j ≠ 0 := by
      intro h0
      rw [h0, UInt32.toNat_zero] at hadd
      omega
    simp only [pathParent_of_beforeNth hbefore hj, pathParent_of_ne_zero h0, forall_beforeNth_iff,
      hadd]
    exact composes_iff_cuts_of_lt hk hlt hjpos hsum
  · have hadd := toNat_add_of_le (Nat.le_of_not_lt hsum)
    by_cases h0 : i + j = 0
    · rw [h0, UInt32.toNat_zero] at hadd
      refine iff_of_false (pathParent_ne_of_add_eq_zero hbefore hj h0) ?_
      rintro (h | h | h)
      · omega
      · omega
      · rw [if_neg hsum] at h
        exact Nat.ne_of_gt h.1 hadd.symm
    · have hpos := toNat_pos h0
      simp only [pathParent_of_beforeNth hbefore hj, pathParent_of_ne_zero h0, forall_beforeNth_iff,
        hadd]
      exact composes_iff_cuts_of_gt hk hlt i.toNat_lt j.toNat_lt (by omega)

/-! ## Small depths

Elsewhere the depth is a natural number. Up to `2 ^ 31` this makes no difference. -/

theorem beforeNthLast_iff {m : Nat} :
    beforeNthLast (m + 1) p = some q ↔ ∃ r, p = q ++ '/' :: r ∧ r.count '/' = m := by
  induction m generalizing q with
  | zero =>
    simp only [beforeNthLast, List.count_eq_zero]
    constructor
    · intro h
      obtain ⟨r, hr, hp⟩ := beforeLast_eq_some (by simpa using h)
      exact ⟨r, hp, hr⟩
    · rintro ⟨r, rfl, hr⟩
      simp [beforeLast_append hr]
  | succ m ih =>
    rw [beforeNthLast_succ, Option.bind_eq_some_iff]
    constructor
    · rintro ⟨q', hq', hq⟩
      obtain ⟨r, rfl, hr⟩ := ih.mp hq'
      obtain ⟨b, hb, rfl⟩ := beforeLast_eq_some hq
      refine ⟨b ++ '/' :: r, by simp, ?_⟩
      rw [List.count_append, List.count_cons_self, List.count_eq_zero.mpr hb, hr, Nat.zero_add]
    · rintro ⟨r, rfl, hr⟩
      -- The first slash of the rest is where the lower parent ends.
      have hmem : '/' ∈ r := List.count_pos_iff.mp (by omega)
      obtain ⟨b, r, rfl, hb⟩ := List.eq_append_cons_of_mem hmem
      rw [List.count_append, List.count_cons_self, List.count_eq_zero.mpr hb, Nat.zero_add] at hr
      exact ⟨q ++ '/' :: b, ih.mpr ⟨r, by simp, Nat.succ.inj hr⟩, beforeLast_append hb⟩

theorem beforeNthLast_eq_beforeNth {m : Nat} (hm : 0 < m) : beforeNthLast m p = some q ↔
    ∃ k, k + m = p.count '/' ∧ beforeNth '/' k p = some q := by
  obtain ⟨m, rfl⟩ := Nat.exists_eq_succ_of_ne_zero (Nat.ne_of_gt hm)
  simp only [Nat.succ_eq_add_one, beforeNthLast_iff, beforeNth_eq_some]
  constructor
  · rintro ⟨r, rfl, rfl⟩
    refine ⟨q.count '/', ?_, rfl, r, rfl⟩
    rw [List.count_append, List.count_cons_self]
  · rintro ⟨k, hk, rfl, r, rfl⟩
    refine ⟨r, rfl, ?_⟩
    rw [List.count_append, List.count_cons_self] at hk
    omega

theorem toNat_ofNat {n : Nat} (h : n < 2 ^ 32) : (UInt32.ofNat n).toNat = n :=
  UInt32.toNat_ofNat_of_lt' h

/-- Both models of `path_parent` agree up to the depth at which the index changes its sign. -/
theorem pathParent_eq_pathParent (path : Str) {depth : Nat} (h : depth ≤ 2 ^ 31) :
    pathParent path (UInt32.ofNat depth) = Unicorn.pathParent path depth := by
  have hdepth : (UInt32.ofNat depth).toNat = depth := toNat_ofNat (by omega)
  unfold pathParent Unicorn.pathParent
  by_cases hpath : path = []
  · rw [if_pos hpath, if_pos hpath]
  rw [if_neg hpath, if_neg hpath]
  by_cases h0 : depth = 0
  · have hzero : UInt32.ofNat depth = 0 := by
      rw [h0]
      rfl
    rw [if_pos hzero, if_pos h0]
  have h0' : UInt32.ofNat depth ≠ 0 := fun hzero => h0 (hdepth ▸ congrArg UInt32.toNat hzero)
  rw [if_neg h0', if_neg h0]
  -- The two searches cut the path at the same slash.
  have hcut : (findNth '/' (i32 (-UInt32.ofNat depth).toNat) path).map path.take =
      beforeNthLast depth path := by
    refine Option.ext fun q => ?_
    rw [take_index h0', beforeNthLast_eq_beforeNth (Nat.pos_of_ne_zero h0), hdepth]
    simp only [cuts_of_le (Nat.pos_of_ne_zero h0) h]
  rw [← hcut]
  cases findNth '/' (i32 (-UInt32.ofNat depth).toNat) path with
  | none | some _ => rfl

end Zookeeper

/-! ## create_prefix -/

namespace Connection

/-- What becomes of a node of the prefix: the code of its `zoo_create`, and the handles that
are made if the code asks for a reconnection. -/
structure Creation where
  rc : Rc := .ok
  first : Opened := .ready
  second : Opened := .ready
deriving DecidableEq, Repr

structure Creating where
  connection : Connection
  /-- The paths that were given to `zoo_create`, in this order. -/
  issued : List Str
  thrown : Bool
deriving DecidableEq, Repr

/-- After a `zoo_create`, and whether the reconnection throws. -/
def created (s : Connection) (c : Creation) : Connection × Bool :=
  if c.rc ≠ .ok ∧ c.rc ≠ .nodeExists then s.reconnect c.first c.second else (s, false)

/-- The loop of `create_prefix`, from `i` down. -/
def createFrom (replies : Nat → Creation) : Nat → Connection → Creating
  | 0, s => ⟨s, [], false⟩
  | i + 1, s =>
    match Zookeeper.pathParent s.pathPrefix (UInt32.ofNat i) with
    | .error _ => ⟨s, [], true⟩
    | .ok path =>
      let p := s.created (replies i)
      if p.2 then ⟨p.1, [path], true⟩
      else
        let rest := createFrom replies i p.1
        { rest with issued := path :: rest.issued }

def createPrefix (s : Connection) (replies : Nat → Creation) : Creating :=
  if s.pathPrefix ≠ [] then createFrom replies (s.pathPrefix.count '/') s else ⟨s, [], false⟩

/-- The prefix without the slashes at its end. -/
def trimmed (configured : Str) : Str := configured.rdropWhile (· == '/')

/-- The constructor before it calls `create_prefix`, unless it throws. -/
def connect (configured : Str) (session : Bool) (first second : Opened) : Option Connection :=
  if configured ≠ [] ∧ configured.head? ≠ some '/' then none
  else
    let p := { pathPrefix := trimmed configured, session : Connection }.reconnect first second
    if p.2 then none else some p.1

/-- An ancestor of a path, or the path. -/
def Ancestor (path q : Str) : Prop := q ≠ [] ∧ (q = path ∨ ∃ r, path = q ++ '/' :: r)

/-- The ancestors of a path, each of them once, from the shortest one on. -/
structure FromShortest (path : Str) (l : List Str) : Prop where
  sorted : l.Pairwise (·.length < ·.length)
  mem_iff : ∀ q, q ∈ l ↔ Ancestor path q

/-- A reconnection throws before the last of the nodes below `i`. -/
def Lost (replies : Nat → Creation) : Nat → Connection → Prop
  | 0, _ => False
  | 1, _ => False
  | i + 2, s => (s.created (replies (i + 1))).2 = true ∨
    Lost replies (i + 1) (s.created (replies (i + 1))).1

variable {s : Connection} {path q : Str} {replies : Nat → Creation}

/-! ## The list of the ancestors -/

def nthAncestor (path : Str) (depth : Nat) : Str :=
  if depth = 0 then path else (beforeNth '/' (path.count '/' - depth) path).getD []

def nthAncestors (path : Str) (n : Nat) : List Str := (List.range n).reverse.map (nthAncestor path)

theorem nthAncestor_zero : nthAncestor path 0 = path := if_pos rfl

theorem beforeNth_nthAncestor {depth : Nat} (h0 : depth ≠ 0) (h : depth ≤ path.count '/') :
    beforeNth '/' (path.count '/' - depth) path = some (nthAncestor path depth) := by
  obtain ⟨q, hq⟩ := exists_beforeNth.mpr (by omega : path.count '/' - depth < path.count '/')
  rw [nthAncestor, if_neg h0, hq, Option.getD_some]

theorem length_nthAncestor_lt {d e : Nat} (h : d < e) (he : e < path.count '/') :
    (nthAncestor path e).length < (nthAncestor path d).length := by
  have hbefore := beforeNth_nthAncestor (by omega) (Nat.le_of_lt he)
  by_cases h0 : d = 0
  · obtain ⟨-, r, hpath⟩ := beforeNth_eq_some.mp hbefore
    have hlength := congrArg List.length hpath
    rw [List.length_append, List.length_cons] at hlength
    rw [h0, nthAncestor_zero]
    omega
  · exact length_beforeNth_lt hbefore (beforeNth_nthAncestor h0 (by omega)) (by omega)

/-- An ancestor is found by the slashes below it; what is above the first one is no path. -/
theorem ancestor_iff (hroot : path.head? = some '/') :
    Ancestor path q ↔ ∃ d < path.count '/', nthAncestor path d = q := by
  constructor
  · rintro ⟨hne, rfl | ⟨r, hr⟩⟩
    · exact ⟨0, List.count_pos_iff.mpr (List.mem_of_head? hroot), nthAncestor_zero⟩
    · have hcount : path.count '/' = q.count '/' + (r.count '/' + 1) := by
        rw [hr, List.count_append, List.count_cons_self]
      have hpos : 0 < q.count '/' := by
        rw [hr, List.head?_append_of_ne_nil _ hne] at hroot
        exact List.count_pos_iff.mpr (List.mem_of_head? hroot)
      refine ⟨r.count '/' + 1, by omega, ?_⟩
      have hbefore := beforeNth_nthAncestor (Nat.succ_ne_zero (r.count '/'))
        (by omega : r.count '/' + 1 ≤ path.count '/')
      have hq : beforeNth '/' (q.count '/') path = some q := beforeNth_eq_some.mpr ⟨rfl, r, hr⟩
      rw [hcount, Nat.add_sub_cancel, hq] at hbefore
      exact (Option.some.inj hbefore).symm
  · rintro ⟨d, hd, rfl⟩
    by_cases h0 : d = 0
    · rw [h0, nthAncestor_zero]
      refine ⟨?_, .inl rfl⟩
      rintro rfl
      cases hroot
    · obtain ⟨hcount, hr⟩ := beforeNth_eq_some.mp (beforeNth_nthAncestor h0 (Nat.le_of_lt hd))
      refine ⟨fun hnil => ?_, .inr hr⟩
      rw [hnil, List.count_nil] at hcount
      omega

theorem fromShortest_nthAncestors (hroot : path = [] ∨ path.head? = some '/') :
    FromShortest path (nthAncestors path (path.count '/')) := by
  constructor
  · rw [nthAncestors, List.pairwise_map, List.pairwise_reverse]
    refine List.pairwise_lt_range.imp_of_mem fun _ he h => ?_
    exact length_nthAncestor_lt h (List.mem_range.mp he)
  · intro q
    simp only [nthAncestors, List.mem_map, List.mem_reverse, List.mem_range]
    rcases hroot with rfl | hroot
    · simp [Ancestor]
    · exact (ancestor_iff hroot).symm

/-- There is one such list. -/
theorem fromShortest_iff (hroot : path = [] ∨ path.head? = some '/') {l : List Str} :
    FromShortest path l ↔ l = nthAncestors path (path.count '/') := by
  have hall := fromShortest_nthAncestors hroot
  constructor
  · intro h
    have : Std.Irrefl fun a b : Str => a.length < b.length := ⟨fun _ => Nat.lt_irrefl _⟩
    have : Std.Antisymm fun a b : Str => a.length < b.length :=
      ⟨fun _ _ hab hba => absurd hba (Nat.lt_asymm hab)⟩
    exact h.sorted.eq_of_mem_iff hall.sorted fun q => (h.mem_iff q).trans (hall.mem_iff q).symm
  · rintro rfl
    exact hall

/-! ## What is issued -/

theorem reconnect_pathPrefix (first second : Opened) :
    (s.reconnect first second).1.pathPrefix = s.pathPrefix := by
  simp only [reconnect]
  split
  · rfl
  · generalize (if s.session then second else first) = opened
    split
    · rfl
    · rfl

theorem created_pathPrefix (c : Creation) : (s.created c).1.pathPrefix = s.pathPrefix := by
  unfold created
  split
  · exact reconnect_pathPrefix c.first c.second
  · rfl

theorem lost_succ {i : Nat} : Lost replies (i + 1) s ↔
    i ≠ 0 ∧ ((s.created (replies i)).2 = true ∨ Lost replies i (s.created (replies i)).1) := by
  cases i with
  | zero => simp [Lost]
  | succ i => simp [Lost]

theorem nthAncestors_succ (i : Nat) :
    nthAncestors path (i + 1) = nthAncestor path i :: nthAncestors path i := by
  simp [nthAncestors, List.range_succ]

/-- The loop issues the ancestors if each depth gives its ancestor and no reconnection throws
too early. -/
theorem issued_createFrom_iff (i : Nat) (s : Connection) :
    (createFrom replies i s).issued = nthAncestors s.pathPrefix i ↔
      (∀ d < i, Zookeeper.pathParent s.pathPrefix (UInt32.ofNat d) =
          .ok (nthAncestor s.pathPrefix d)) ∧
        ¬ Lost replies i s := by
  induction i generalizing s with
  | zero => simp [createFrom, nthAncestors, Lost]
  | succ i ih =>
    have ih := ih (s.created (replies i)).1
    rw [created_pathPrefix] at ih
    rw [createFrom, nthAncestors_succ, Nat.forall_lt_succ_right, lost_succ]
    cases hparent : Zookeeper.pathParent s.pathPrefix (UInt32.ofNat i) with
    | error e => simp
    | ok p =>
      dsimp only
      rw [Except.ok.injEq]
      cases hthrown : (s.created (replies i)).2 with
      | true =>
        -- What is left is empty for the last node only.
        cases i with
        | zero => simp [nthAncestors]
        | succ i => simp [nthAncestors_succ]
      | false =>
        rw [if_neg Bool.false_ne_true, List.cons.injEq, ih]
        by_cases h0 : i = 0
        · subst h0
          simp [Lost]
        · simp only [h0, ne_eq, not_false_eq_true, true_and, Bool.false_eq_true, false_or]
          tauto

/-- The loop has the ancestors of a prefix, unless the depths go past the one at which the index
changes its sign and the two directions disagree. -/
theorem forall_pathParent_iff :
    (∀ d < path.count '/', Zookeeper.pathParent path (UInt32.ofNat d) = .ok (nthAncestor path d)) ↔
      path.count '/' ≤ 2 ^ 31 + 1 ∨ path.count '/' = 2 ^ 32 := by
  constructor
  · intro h
    by_contra hcond
    have hd : 2 ^ 31 + 1 < path.count '/' := by omega
    have hnat : (UInt32.ofNat (2 ^ 31 + 1)).toNat = 2 ^ 31 + 1 := Zookeeper.toNat_ofNat (by omega)
    obtain ⟨k, hk, hbefore⟩ := (Zookeeper.pathParent_of_ne_zero (by decide)).mp (h _ hd)
    have hcount := (beforeNth_eq_some.mp hbefore).1
    have hcount' := (beforeNth_eq_some.mp (beforeNth_nthAncestor (by omega) (Nat.le_of_lt hd))).1
    rw [hnat, Zookeeper.cuts_iff] at hk
    omega
  · intro hcond d hd
    have hnat : (UInt32.ofNat d).toNat = d := Zookeeper.toNat_ofNat (by omega)
    rw [Zookeeper.pathParent_eq_ok]
    refine ⟨?_, ?_⟩
    · rintro rfl
      cases hd
    · by_cases h0 : d = 0
      · subst h0
        exact .inl ⟨rfl, nthAncestor_zero⟩
      · refine .inr ⟨path.count '/' - d, ?_, beforeNth_nthAncestor h0 (Nat.le_of_lt hd)⟩
        rw [hnat, Zookeeper.cuts_iff]
        omega

theorem createPrefix_eq (replies : Nat → Creation) :
    s.createPrefix replies = createFrom replies (s.pathPrefix.count '/') s := by
  unfold createPrefix
  split
  · rfl
  · rename_i hnil
    rw [not_not.mp hnil]
    rfl

theorem trimmed_root {configured : Str} (h : ¬ (configured ≠ [] ∧ configured.head? ≠ some '/')) :
    trimmed configured = [] ∨ (trimmed configured).head? = some '/' := by
  by_cases hnil : trimmed configured = []
  · exact .inl hnil
  · right
    obtain ⟨rest, hrest⟩ := List.rdropWhile_prefix (· == '/') (l := configured)
    change trimmed configured ++ rest = configured at hrest
    have hne : configured ≠ [] := by
      rintro rfl
      exact hnil rfl
    rw [← List.head?_append_of_ne_nil _ hnil, hrest]
    exact not_not.mp fun hhead => h ⟨hne, hhead⟩

theorem connect_eq_some {configured : Str} {session : Bool} {first second : Opened}
    (h : connect configured session first second = some s) :
    s.pathPrefix = trimmed configured ∧ (s.pathPrefix = [] ∨ s.pathPrefix.head? = some '/') := by
  unfold connect at h
  split at h
  · cases h
  · rename_i hroot
    dsimp only at h
    split at h
    · cases h
    · cases h
      rw [reconnect_pathPrefix]
      exact ⟨rfl, trimmed_root hroot⟩

/-- The constructor of a connection creates the ancestors of its prefix. -/
theorem fromShortest_createPrefix_iff {configured : Str} {session : Bool} {first second : Opened}
    (h : connect configured session first second = some s) (replies : Nat → Creation) :
    FromShortest (trimmed configured) (s.createPrefix replies).issued ↔
      ((trimmed configured).count '/' ≤ 2 ^ 31 + 1 ∨ (trimmed configured).count '/' = 2 ^ 32) ∧
        ¬ Lost replies ((trimmed configured).count '/') s := by
  obtain ⟨htrimmed, hroot⟩ := connect_eq_some h
  rw [← htrimmed, fromShortest_iff hroot, createPrefix_eq, issued_createFrom_iff,
    forall_pathParent_iff]

end Connection

/-! ## Ancestry -/

open Zookeeper Connection

/-- When there is a parent for each slash, when parents of parents are parents, and when the
constructor of a connection creates each ancestor of its prefix once, the shortest one first. -/
theorem ancestry_iff (p q configured : Str) (i j : UInt32) (session : Bool) (first second : Opened)
    (s : Connection) (replies : Nat → Creation) :
    (((∃ q, Zookeeper.pathParent p i = .ok q) ↔ p ≠ [] ∧ i.toNat ≤ p.count '/') ↔
      (p = [] ∨ i.toNat ≤ 2 ^ 31 ∨ p.count '/' + i.toNat ≤ 2 ^ 32 ∨ i.toNat ≤ p.count '/')) ∧
    (Zookeeper.pathParent p i = .ok q → q ≠ [] →
      ((∀ r, Zookeeper.pathParent q j = .ok r ↔ Zookeeper.pathParent p (i + j) = .ok r) ↔
        Composes (p.count '/') i.toNat j.toNat)) ∧
    (connect configured session first second = some s →
      (FromShortest (trimmed configured) (s.createPrefix replies).issued ↔
        ((trimmed configured).count '/' ≤ 2 ^ 31 + 1 ∨ (trimmed configured).count '/' = 2 ^ 32) ∧
          ¬ Lost replies ((trimmed configured).count '/') s)) := by
  refine ⟨exists_pathParent_iff, ?_, ?_⟩
  · intro hq hne
    exact pathParent_add_iff hq hne
  · intro h
    exact fromShortest_createPrefix_iff h replies

/-- The second parent of `/a/b/c`, and a connection whose prefix has two nodes. -/
theorem ancestry_of_two_nodes :
    (∀ r, Zookeeper.pathParent "/a/b".toList 1 = .ok r ↔
      Zookeeper.pathParent "/a/b/c".toList 2 = .ok r) ∧
    FromShortest "/a/b".toList ["/a".toList, "/a/b".toList] := by
  -- What `connect` makes of the prefix `/a/b/` and a first handle.
  let s : Connection :=
    { pathPrefix := "/a/b".toList, handle := some 0, handles := 1, session := true
      spawned := [[]] }
  have hlost : ¬ Lost (fun _ => {}) 2 s := by simp [Lost, created]
  obtain ⟨-, hparent, hcreate⟩ := ancestry_iff "/a/b/c".toList "/a/b".toList "/a/b/".toList 1 1
    false .ready .ready s fun _ => {}
  exact ⟨(hparent rfl (by decide)).mpr (.inr (.inr (by decide))),
    (hcreate rfl).mpr ⟨.inl (by decide), hlost⟩⟩

/-- The index of a large depth counts from the start: `/a/b` has a parent without having the
slashes for it, and `/a/b/c` has one that its first parent does not have. -/
theorem parent_from_start :
    (Zookeeper.pathParent "/a/b".toList 4294967295 = .ok "/a".toList ∧
      ¬ (4294967295 : UInt32).toNat ≤ "/a/b".toList.count '/') ∧
    Zookeeper.pathParent "/a/b/c".toList 1 = .ok "/a/b".toList ∧
    Zookeeper.pathParent "/a/b/c".toList (1 + 4294967294) = .ok "/a".toList ∧
    Zookeeper.pathParent "/a/b".toList 4294967294 =
      .error ⟨.uncaught, "could not get level parent from path"⟩ :=
  ⟨⟨rfl, by decide⟩, rfl, rfl, rfl⟩

end Cocaine.Unicorn
