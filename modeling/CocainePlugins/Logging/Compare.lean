import CocainePlugins.Logging.Filter

/-!
# What the comparison filters compare

A text that is the beginning of another is both less and greater than it, and the longer
one is neither: both comparisons of texts take the list that ends first for the less one.
An integer is converted to a signed one on its way to the type of the operand: one that is
too large for that is not compared at all, and a negative one wraps where the operand is
unsigned.
-/

namespace Cocaine.Logging

open Framework

variable {P : Platform} {r : LogRecord} {name : Str} {v : View}

/-- The test of a comparison filter, on what it has converted. -/
def Comparison.test (rel : Relation → Bool) : Comparison → Bool
  | .equals => rel .eq
  | .notEquals => !rel .eq
  | .greater => rel .gt
  | .less => rel .lt
  | .greaterOrEqual => rel .ge
  | .lessOrEqual => rel .le

theorem apply_comparison (op : Comparison) (value : Operand)
    (hv : findAttribute r.attributes name = some v) :
    (Filter.comparison op name value).apply P r = .accept ↔
      op.test (fun rel => value.test P rel v) = true := by
  rw [Filter.apply, hv]
  cases op <;> simp [Comparison.apply, equalsFilter, notEqualsFilter, greaterFilter, lessFilter,
    greaterOrEqualFilter, lessOrEqualFilter, comparisonFilter, Comparison.test]

/-! ## Texts -/

/-- The laws of a total order, of the six comparisons of two values and of the same with
their places exchanged. -/
structure OrderLaws (accepts swapped : Comparison → Bool) : Prop where
  exactlyOne : [Comparison.less, .equals, .greater].countP accepts = 1
  lessOrEqual : accepts .lessOrEqual = (accepts .less || accepts .equals)
  greaterOrEqual : accepts .greaterOrEqual = (accepts .greater || accepts .equals)
  notEquals : accepts .notEquals = !accepts .equals
  less_swapped : accepts .less = swapped .greater
  greater_swapped : accepts .greater = swapped .less

section Texts

variable {a b : Str}

/-- The filter that compares the attribute with a text accepts the record. -/
def acceptsText (P : Platform) (r : LogRecord) (name b : Str) (op : Comparison) : Bool :=
  (Filter.comparison op name (.string b)).apply P r = .accept

theorem acceptsText_eq (ha : findAttribute r.attributes name = some (.string a)) (b : Str) :
    acceptsText P r name b = Comparison.test fun rel => rel.testString P a b := by
  funext op
  rw [Bool.eq_iff_iff, acceptsText, decide_eq_true_eq, apply_comparison op _ ha]
  rfl

/-- Only that exactly one accepts, and the exchange, are not by definition. -/
theorem orderLaws_text
    (hone : [Comparison.less, .equals, .greater].countP
      (Comparison.test fun rel => rel.testString P a b) = 1)
    (hlt : stringLt P a b = stringGt P b a) (hgt : stringGt P a b = stringLt P b a) :
    OrderLaws (Comparison.test fun rel => rel.testString P a b)
      (Comparison.test fun rel => rel.testString P b a) := by
  have hle : ∀ f : Comparison → Bool, [Comparison.less, .equals, .greater].countP f = 1 →
      (!f .greater) = (f .less || f .equals) ∧ (!f .less) = (f .greater || f .equals) := by
    intro f hf
    rw [List.countP_cons, List.countP_cons, List.countP_cons] at hf
    cases hl : f .less <;> cases he : f .equals <;> cases hg : f .greater <;> simp_all
  obtain ⟨hle, hge⟩ := hle _ hone
  exact ⟨hone, hle, hge, rfl, hlt, hgt⟩

theorem not_prefix_of_ne {p s t : Str} {x y : Char} (hne : x ≠ y) :
    ¬p ++ x :: s <+: p ++ y :: t := by
  rw [List.prefix_append_right_inj, List.cons_prefix_cons]
  exact fun h => hne h.1

/-- The string filters for a record that has `a` and the operand `b` are those of a total
order if and only if neither text is the beginning of the other, or they are equal. -/
theorem string_filters_ordered_iff {r r' : LogRecord}
    (ha : findAttribute r.attributes name = some (.string a))
    (hb : findAttribute r'.attributes name = some (.string b)) :
    OrderLaws (acceptsText P r name b) (acceptsText P r' name a) ↔
      (a <+: b ∨ b <+: a → a = b) := by
  rw [acceptsText_eq ha, acceptsText_eq hb]
  have htotal := P.charLt_total
  cases split_cases a b with
  | same =>
    have hlt : stringLt P a a = false := htotal.compare_self a
    have hgt : stringGt P a a = false := htotal.reversed.compare_self a
    refine iff_of_true (orderLaws_text ?_ ?_ ?_) fun _ => rfl
    · simp [Comparison.test, Relation.testString, hlt, hgt]
    · rw [hlt, hgt]
    · rw [hlt, hgt]
  | shorter p x s =>
    have hlt : stringLt P a (a ++ x :: s) = true := htotal.compare_shorter a x s
    have hgt : stringGt P a (a ++ x :: s) = true := htotal.reversed.compare_shorter a x s
    refine iff_of_false (fun h => ?_) fun h => ?_
    · have hone := h.exactlyOne
      simp [Comparison.test, Relation.testString, hlt, hgt] at hone
    · simpa using h (.inl (List.prefix_append _ _))
  | longer p x s =>
    have hlt : stringLt P (b ++ x :: s) b = false := htotal.compare_longer b _
    have hgt : stringGt P (b ++ x :: s) b = false := htotal.reversed.compare_longer b _
    refine iff_of_false (fun h => ?_) fun h => ?_
    · have hone := h.exactlyOne
      simp [Comparison.test, Relation.testString, hlt, hgt] at hone
    · simpa using h (.inr (List.prefix_append _ _))
  | @parts p x y s t hne =>
    have hlt : stringLt P (p ++ x :: s) (p ++ y :: t) = P.charLt x y :=
      htotal.compare_of_ne hne p s t
    have hlt' : stringLt P (p ++ y :: t) (p ++ x :: s) = P.charLt y x :=
      htotal.compare_of_ne hne.symm p t s
    have hgt : stringGt P (p ++ x :: s) (p ++ y :: t) = P.charLt y x :=
      htotal.reversed.compare_of_ne hne p s t
    have hgt' : stringGt P (p ++ y :: t) (p ++ x :: s) = P.charLt x y :=
      htotal.reversed.compare_of_ne hne.symm p t s
    refine iff_of_true (orderLaws_text ?_ ?_ ?_) fun h => ?_
    · rw [htotal.eq_not hne] at hgt
      cases hc : P.charLt x y <;> simp [Comparison.test, Relation.testString, hlt, hgt, hne, hc]
    · rw [hlt, hgt']
    · rw [hgt, hlt']
    · exact absurd h (not_or.mpr ⟨not_prefix_of_ne hne, not_prefix_of_ne hne.symm⟩)

def recordOf (name : Str) (v : View) : LogRecord where
  severity := 0
  attributes := [[(name, v)]]
  verbose := false

theorem string_filters_ordered_words :
    OrderLaws (acceptsText x86 (recordOf "app".toList (.string "echo".toList)) "app".toList
        "proxy".toList)
      (acceptsText x86 (recordOf "app".toList (.string "proxy".toList)) "app".toList
        "echo".toList) :=
  (string_filters_ordered_iff rfl rfl).mpr (by decide)

/-- The empty text is less and greater than another, and that one is neither. -/
theorem prefix_misordered :
    acceptsText x86 (recordOf [] (.string [])) [] ['a'] .less = true ∧
    acceptsText x86 (recordOf [] (.string [])) [] ['a'] .greater = true ∧
    [Comparison.less, .equals, .greater].countP
      (acceptsText x86 (recordOf [] (.string ['a'])) [] []) = 0 := by
  decide

end Texts

/-! ## Integers -/

/-- The number that an integer attribute is. -/
def View.integer : View → Option Int
  | .sint n => some n.toInt
  | .uint n => some n.toNat
  | _ => none

namespace Operand

def integer : Operand → Option Int
  | .int n => some n.toInt
  | .uint n => some n.toNat
  | _ => none

def isUnsigned : Operand → Bool
  | .uint _ => true
  | _ => false

/-- The signed integer as a number of the operand's type. -/
def seen (k : Int64) : Operand → Int
  | .uint _ => k.toUInt64.toNat
  | _ => k.toInt

end Operand

/-- The relation that a comparison is named for. -/
def Comparison.relation : Comparison → Int → Int → Prop
  | .equals, a, b => a = b
  | .notEquals, a, b => a ≠ b
  | .greater, a, b => a > b
  | .less, a, b => a < b
  | .greaterOrEqual, a, b => a ≥ b
  | .lessOrEqual, a, b => a ≤ b

section Integers

variable {x : Operand} {n m : Int}

theorem Comparison.test_int (op : Comparison) (a b : Int) :
    op.test (fun rel => rel.testInt a b) = true ↔ op.relation a b := by
  cases op <;> simp [Comparison.test, Relation.testInt, Comparison.relation]

theorem toInt_eq (k : Int64) : k.toInt = if 2 * k.toUInt64.toNat < 2 ^ 64 then (k.toUInt64.toNat : Int)
    else (k.toUInt64.toNat : Int) - (2 ^ 64 : Nat) :=
  BitVec.toInt_eq_toNat_cond k.toBitVec

theorem toNat_toUInt64 (k : Int64) :
    (k.toUInt64.toNat : Int) = if 0 ≤ k.toInt then k.toInt else k.toInt + 2 ^ 64 := by
  have h := toInt_eq k
  have hlt := k.toUInt64.toNat_lt
  split at h <;> split <;> omega

/-- An integer that is too large is not converted, and any other keeps its value. -/
theorem toInt64_integer (P : Platform) (hv : v.integer = some n) :
    n < 2 ^ 63 ∧ (∃ k, toInt64 P v = some k ∧ k.toInt = n) ∨ 2 ^ 63 ≤ n ∧ toInt64 P v = none := by
  cases v with
  | sint k =>
    obtain rfl := Option.some.inj hv
    exact .inl ⟨k.toInt_lt, k, rfl, rfl⟩
  | uint k =>
    obtain rfl := Option.some.inj hv
    simp only [toInt64]
    split
    · exact .inr ⟨by omega, rfl⟩
    · have hlt : 2 * k.toNat < 2 ^ 64 := by omega
      exact .inl ⟨by omega, k.toInt64, rfl, (toInt_eq k.toInt64).trans (if_pos hlt)⟩
  | _ => cases hv

/-- A converted attribute is compared by what it is as a number of the operand's type. -/
theorem accept_of_some (op : Comparison) {k : Int64} (hk : toInt64 P v = some k)
    (hx : x.integer = some m) (hv : findAttribute r.attributes name = some v) :
    (Filter.comparison op name x).apply P r = .accept ↔ op.relation (x.seen k) m := by
  rw [apply_comparison op x hv, ← op.test_int]
  cases x with
  | int i | uint i =>
    obtain rfl := Option.some.inj hx
    simp only [Operand.test, hk, Option.any_some]
    rfl
  | _ => cases hx

/-- One that is not converted is different, and nothing else. -/
theorem accept_of_none (op : Comparison) (hk : toInt64 P v = none) (hx : x.integer = some m)
    (hv : findAttribute r.attributes name = some v) :
    (Filter.comparison op name x).apply P r = .accept ↔ op = .notEquals := by
  rw [apply_comparison op x hv]
  cases x with
  | int i | uint i =>
    simp only [Operand.test, hk, Option.any_none]
    cases op <;> simp [Comparison.test]
  | _ => cases hx

theorem Operand.integer_nonneg (hx : x.integer = some m) (hu : x.isUnsigned = true) : 0 ≤ m := by
  cases x with
  | uint i =>
    obtain rfl := Option.some.inj hx
    exact Int.natCast_nonneg _
  | _ => cases hu

theorem Operand.seen_eq (x : Operand) (k : Int64) :
    x.seen k = if x.isUnsigned = true ∧ k.toInt < 0 then k.toInt + 2 ^ 64 else k.toInt := by
  cases x with
  | uint i =>
    rw [Operand.seen, toNat_toUInt64]
    simp only [Operand.isUnsigned, true_and]
    split <;> split <;> omega
  | _ => simp [Operand.seen, Operand.isUnsigned]

end Integers

/-- All comparisons of an integer attribute `n` with an integer operand `m` are those of
the numbers, if and only if `n` is a signed 64-bit integer and, where the operand is
unsigned, not negative, or so small that it is still less than `m` when it has wrapped. -/
theorem integer_filters_iff {P : Platform} {r : LogRecord} {name : Str} {v : View} {x : Operand}
    {n m : Int} (hr : findAttribute r.attributes name = some v) (hv : v.integer = some n)
    (hx : x.integer = some m) :
    (∀ op, (Filter.comparison op name x).apply P r = .accept ↔ op.relation n m) ↔
      n < 2 ^ 63 ∧ (x.isUnsigned = true → 0 ≤ n ∨ n + 2 ^ 64 < m) := by
  rcases toInt64_integer P hv with ⟨hlt, k, hk, rfl⟩ | ⟨hle, hnone⟩
  · simp only [accept_of_some _ hk hx hr, Operand.seen_eq]
    by_cases hw : x.isUnsigned = true ∧ k.toInt < 0
    · -- the attribute wraps, and is less than the operand
      simp only [if_pos hw]
      have hm := Operand.integer_nonneg hx hw.1
      constructor
      · intro h
        have hless : k.toInt + 2 ^ 64 < m := (h .less).mpr (show k.toInt < m by omega)
        exact ⟨hlt, fun _ => .inr hless⟩
      · rintro ⟨-, h⟩ op
        have hless := h hw.1
        cases op <;> simp only [Comparison.relation] <;> omega
    · simp only [if_neg hw]
      refine iff_of_true (fun _ => trivial) ⟨hlt, fun hu => .inl ?_⟩
      exact Int.not_lt.mp fun hneg => hw ⟨hu, hneg⟩
  · simp only [accept_of_none _ hnone hx hr]
    refine iff_of_false (fun h => ?_) fun h => by omega
    have hless := h .less
    have hequals := h .equals
    have hgreater := h .greater
    simp only [Comparison.relation, reduceCtorEq, false_iff] at hless hequals hgreater
    omega

/-- A negative attribute and an unsigned operand that is still greater when it has wrapped. -/
theorem integer_filters_wrapped :
    (Filter.comparison .less [] (.uint 0xffffffffffffffff)).apply x86 (recordOf [] (.sint (-5))) =
      .accept ∧
    (Filter.comparison .equals [] (.uint 0xffffffffffffffff)).apply x86 (recordOf [] (.sint (-5))) ≠
      .accept := by
  have hr : findAttribute (recordOf [] (.sint (-5))).attributes [] = some (.sint (-5)) := rfl
  have h := (integer_filters_iff (P := x86) (x := .uint 0xffffffffffffffff) (n := -5)
    (m := 0xffffffffffffffff) hr rfl rfl).mpr (by decide)
  have hless : (-5 : Int) < 0xffffffffffffffff := by decide
  have hne : (-5 : Int) ≠ 0xffffffffffffffff := by decide
  exact ⟨(h .less).mpr hless, fun hequals => hne ((h .equals).mp hequals)⟩

/-- `-1` is less than `1` and not accepted as such, and the greatest unsigned integer is not
equal to itself. -/
theorem integer_filters_misjudge :
    (Filter.comparison .less [] (.uint 1)).apply x86 (recordOf [] (.sint (-1))) = .reject ∧
    (Filter.comparison .equals [] (.uint 0xffffffffffffffff)).apply x86
      (recordOf [] (.uint 0xffffffffffffffff)) = .reject := by
  decide

end Cocaine.Logging
