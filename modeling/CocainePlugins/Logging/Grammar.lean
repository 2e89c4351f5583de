import CocainePlugins.Logging.Filter

/-!
# What the filter parser accepts

`Grammar` are the values that are filters. The parser accepts exactly them, and takes an
element outside of an array where it comes to an array of one text. What a filter gives as
its representation is a value of the grammar unless a severity is in it: the parser wants
that to be unsigned.
-/

namespace Cocaine.Logging

open Framework

inductive Connective where
  | or | and | xor
deriving DecidableEq, Repr

namespace Connective

def name : Connective → Str
  | .or => "||".toList
  | .and => "&&".toList
  | .xor => "xor".toList

def make : Connective → Filter → Filter → Filter
  | .or => .or
  | .and => .and
  | .xor => .xor

end Connective

/-- The values that are filters. -/
inductive Grammar : Dyn → Prop where
  | empty : Grammar (.array [text "empty".toList])
  | traced : Grammar (.array [text "traced".toList])
  | existence (name : Str) : Grammar (.array [text "e".toList, text name])
  | absence (name : Str) : Grammar (.array [text "!e".toList, text name])
  | severity (n : Nat) : Grammar (.array [text "severity".toList, .uint n])
  | comparison (op : Comparison) (name : Str) {s : Scalar} : s ≠ .null →
      Grammar (.array [text op.name, text name, .scalar s])
  | logical (op : Connective) {f g : Dyn} : Grammar f → Grammar g →
      Grammar (.array [text op.name, f, g])

theorem Grammar.isArray {v : Dyn} (h : Grammar v) : isArray v = true := by
  cases h <;> rfl

/-! ## The factories -/

section Factories

variable {op name : Str} {f : Filter} {d operand1 operand2 : Dyn}

theorem createOperand_scalar {s : Scalar} (h : s ≠ .null) :
    ∃ value, createOperand (.scalar s) = .ok value := by
  cases s with
  | null => exact absurd rfl h
  | _ => exact ⟨_, rfl⟩

theorem scalar_of_createOperand {value : Operand} (h : createOperand d = .ok value) :
    ∃ s, d = .scalar s ∧ s ≠ .null := by
  cases d with
  | scalar s =>
    refine ⟨s, rfl, ?_⟩
    rintro rfl
    cases h
  | array items => cases h
  | object fields => cases h

theorem singleArgument_eq_ok (h : singleArgument op = .ok f) :
    op = "empty".toList ∨ op = "traced".toList := by
  unfold singleArgument at h
  split at h
  · exact .inl ‹_›
  split at h
  · exact .inr ‹_›
  · cases h

theorem grammar_of_unaryOperatorFactory (h : unaryOperatorFactory op d = .ok f) :
    Grammar (.array [text op, d]) := by
  unfold unaryOperatorFactory at h
  split at h
  · rename_i s
    split at h
    · rename_i hop
      rw [hop]
      exact .existence s
    split at h
    · rename_i hop
      rw [hop]
      exact .absence s
    · cases h
  · rename_i n
    split at h
    · rename_i hop
      rw [hop]
      exact .severity n
    · cases h
  · cases h

theorem stringOperandFactory_name (c : Comparison) :
    stringOperandFactory c.name (text name) d = createComparison c name d := by
  cases c <;> rfl

theorem createComparison_eq_ok {c : Comparison} (h : createComparison c name d = .ok f) :
    ∃ s, d = .scalar s ∧ s ≠ .null := by
  cases hd : createOperand d with
  | error e =>
    rw [createComparison, hd] at h
    cases h
  | ok value => exact scalar_of_createOperand hd

theorem grammar_of_stringOperandFactory (h : stringOperandFactory op operand1 operand2 = .ok f) :
    Grammar (.array [text op, operand1, operand2]) := by
  have hname : ∀ (c : Comparison) (name : Str), op = c.name →
      createComparison c name operand2 = .ok f →
      Grammar (.array [text op, text name, operand2]) := by
    rintro c name rfl h
    obtain ⟨s, rfl, hs⟩ := createComparison_eq_ok h
    exact .comparison c name hs
  unfold stringOperandFactory at h
  split at h
  · rename_i name
    split at h
    · exact hname .equals name ‹_› h
    split at h
    · exact hname .notEquals name ‹_› h
    split at h
    · exact hname .greater name ‹_› h
    split at h
    · exact hname .less name ‹_› h
    split at h
    · exact hname .greaterOrEqual name ‹_› h
    split at h
    · exact hname .lessOrEqual name ‹_› h
    · cases h
  · cases h

theorem stringOps_comparison (c : Comparison) : stringOps.contains c.name = true := by
  cases c <;> rfl

theorem stringOps_connective (c : Connective) : stringOps.contains c.name = false := by
  cases c <;> rfl

variable {operands : (Filter → Filter → Filter) → Parsed}

theorem binaryOperatorFactory_comparison (c : Comparison) :
    binaryOperatorFactory c.name (text name) d operands = { result := createComparison c name d } := by
  rw [binaryOperatorFactory, if_pos (stringOps_comparison c), stringOperandFactory_name]

/-- The constructions of the operands that a connective comes to. -/
theorem binaryOperatorFactory_connective (c : Connective) (h₁ : isArray operand1 = true)
    (h₂ : isArray operand2 = true) :
    binaryOperatorFactory c.name operand1 operand2 operands = operands c.make := by
  rw [binaryOperatorFactory, stringOps_connective, filterOperandFactory, h₁, h₂]
  cases c <;> rfl

/-- A binary operator throws, makes a comparison, or comes to the operands of a connective. -/
inductive Binary (op : Str) (operand1 operand2 : Dyn) (operands : (Filter → Filter → Filter) → Parsed) :
    Parsed → Prop where
  | throws (e : Thrown) : Binary op operand1 operand2 operands { result := .error e }
  | compares {f : Filter} : Grammar (.array [text op, operand1, operand2]) →
      Binary op operand1 operand2 operands { result := .ok f }
  | connects (c : Connective) : op = c.name → isArray operand1 = true → isArray operand2 = true →
      Binary op operand1 operand2 operands (operands c.make)

theorem binary (op : Str) (operand1 operand2 : Dyn)
    (operands : (Filter → Filter → Filter) → Parsed) :
    Binary op operand1 operand2 operands (binaryOperatorFactory op operand1 operand2 operands) := by
  unfold binaryOperatorFactory
  split
  · cases hs : stringOperandFactory op operand1 operand2 with
    | error e => exact .throws e
    | ok f => exact .compares (grammar_of_stringOperandFactory hs)
  · unfold filterOperandFactory
    split
    · exact .throws _
    · rename_i harrays
      obtain ⟨h₁, h₂⟩ : isArray operand1 = true ∧ isArray operand2 = true := by
        simpa using harrays
      split
      · exact .connects .or ‹_› h₁ h₂
      split
      · exact .connects .and ‹_› h₁ h₂
      split
      · exact .connects .xor ‹_› h₁ h₂
      · exact .throws _

end Factories

/-! ## Acceptance -/

namespace Parsed

def accepts (p : Parsed) : Prop := ∃ f, p.result = .ok f

variable {x y : Parsed} {make : Filter → Filter → Filter} {rightFirst : Bool}

theorem accepts_seq : (x.seq y make).accepts ↔ x.accepts ∧ y.accepts := by
  unfold seq accepts
  cases x.result with
  | error e => exact ⟨nofun, nofun⟩
  | ok f =>
    cases y.result with
    | error e => exact ⟨nofun, nofun⟩
    | ok g => exact ⟨fun _ => ⟨⟨f, rfl⟩, g, rfl⟩, fun _ => ⟨make f g, rfl⟩⟩

theorem accepts_both : (x.both rightFirst y make).accepts ↔ x.accepts ∧ y.accepts := by
  unfold both
  split
  · rw [accepts_seq, and_comm]
  · exact accepts_seq

theorem outside_seq :
    (x.seq y make).outside = true ↔ x.outside = true ∨ x.accepts ∧ y.outside = true := by
  unfold seq accepts
  cases x.result <;> simp

end Parsed

section Accepts

variable {P : Platform} {rightFirst : Bool}

theorem grammar_of_accepts (v : Dyn) : (parse P rightFirst v).accepts → Grammar v := by
  fun_induction parse P rightFirst v with
  | case1 | case5 | case6 | case7 => exact nofun
  | case2 op =>
    rintro ⟨f, hf⟩
    rcases singleArgument_eq_ok hf with rfl | rfl
    · exact .empty
    · exact .traced
  | case3 op operand =>
    rintro ⟨f, hf⟩
    exact grammar_of_unaryOperatorFactory hf
  | case4 op operand1 operand2 ih₁ ih₂ =>
    intro h
    have hbinary := binary op operand1 operand2
      ((parse P rightFirst operand1).both rightFirst (parse P rightFirst operand2))
    generalize binaryOperatorFactory op operand1 operand2 _ = p at h hbinary
    cases hbinary with
    | throws e => exact absurd h nofun
    | compares hg => exact hg
    | connects c hop =>
      obtain ⟨h₁, h₂⟩ := Parsed.accepts_both.mp h
      rw [hop]
      exact .logical c (ih₁ h₁) (ih₂ h₂)

theorem Grammar.accepts {v : Dyn} (h : Grammar v) : (parse P rightFirst v).accepts := by
  induction h with
  | empty => exact ⟨.empty, rfl⟩
  | traced => exact ⟨.traced, rfl⟩
  | existence name => exact ⟨.exists name, rfl⟩
  | absence name => exact ⟨.notExists name, rfl⟩
  | severity n => exact ⟨.severity (.ofNat n), rfl⟩
  | comparison op name hs =>
    obtain ⟨value, hvalue⟩ := createOperand_scalar hs
    refine ⟨.comparison op name value, ?_⟩
    rw [text, parse, binaryOperatorFactory_comparison, createComparison, hvalue]
    rfl
  | logical op hf hg ihf ihg =>
    rw [text, parse, binaryOperatorFactory_connective op hf.isArray hg.isArray]
    exact Parsed.accepts_both.mpr ⟨ihf, ihg⟩

end Accepts

/-! ## Elements outside of an array -/

/-- The operand that is constructed first, and the one after it. -/
def firstOperand (rightFirst : Bool) (f g : Dyn) : Dyn := if rightFirst then g else f

def secondOperand (rightFirst : Bool) (f g : Dyn) : Dyn := if rightFirst then f else g

/-- The construction comes to an array of one text. -/
inductive Short (rightFirst : Bool) : Dyn → Prop where
  | single (op : Str) : Short rightFirst (.array [text op])
  | first (op : Connective) {f g : Dyn} : isArray f = true → isArray g = true →
      Short rightFirst (firstOperand rightFirst f g) → Short rightFirst (.array [text op.name, f, g])
  | second (op : Connective) {f g : Dyn} : isArray f = true → isArray g = true →
      Grammar (firstOperand rightFirst f g) → Short rightFirst (secondOperand rightFirst f g) →
      Short rightFirst (.array [text op.name, f, g])

section Outside

variable {P : Platform} {rightFirst : Bool}

theorem outside_both (f g : Dyn) (make : Filter → Filter → Filter) :
    ((parse P rightFirst f).both rightFirst (parse P rightFirst g) make).outside = true ↔
      (parse P rightFirst (firstOperand rightFirst f g)).outside = true ∨
      Grammar (firstOperand rightFirst f g) ∧
        (parse P rightFirst (secondOperand rightFirst f g)).outside = true := by
  have haccepts : ∀ v, (parse P rightFirst v).accepts ↔ Grammar v :=
    fun v => ⟨grammar_of_accepts v, Grammar.accepts⟩
  cases rightFirst with
  | true => exact Parsed.outside_seq.trans (by rw [haccepts]; rfl)
  | false => exact Parsed.outside_seq.trans (by rw [haccepts]; rfl)

theorem short_of_outside (v : Dyn) : (parse P rightFirst v).outside = true → Short rightFirst v := by
  fun_induction parse P rightFirst v with
  | case1 | case3 | case5 | case6 | case7 => exact nofun
  | case2 op => exact fun _ => .single op
  | case4 op operand1 operand2 ih₁ ih₂ =>
    intro h
    have hbinary := binary op operand1 operand2
      ((parse P rightFirst operand1).both rightFirst (parse P rightFirst operand2))
    generalize binaryOperatorFactory op operand1 operand2 _ = p at h hbinary
    cases hbinary with
    | throws e => cases h
    | compares hg => cases h
    | connects c hop h₁ h₂ =>
      rw [hop]
      rcases (outside_both ..).mp h with hfirst | ⟨hg, hsecond⟩
      · refine .first c h₁ h₂ ?_
        cases rightFirst with
        | true => exact ih₂ hfirst
        | false => exact ih₁ hfirst
      · refine .second c h₁ h₂ hg ?_
        cases rightFirst with
        | true => exact ih₁ hsecond
        | false => exact ih₂ hsecond

theorem Short.outside {v : Dyn} (h : Short rightFirst v) : (parse P rightFirst v).outside = true := by
  induction h with
  | single op => rfl
  | first op hf hg _ ih =>
    rw [text, parse, binaryOperatorFactory_connective op hf hg]
    exact (outside_both ..).mpr (.inl ih)
  | second op hf hg hgrammar _ ih =>
    rw [text, parse, binaryOperatorFactory_connective op hf hg]
    exact (outside_both ..).mpr (.inr ⟨hgrammar, ih⟩)

end Outside

/-- The constructor makes a filter of exactly the values of the grammar, and throws for
every other. It takes no element outside of an array if and only if it does not come to an
array of one text. -/
theorem parser_exact_iff (P : Platform) (rightFirst : Bool) (v : Dyn) :
    ((∃ f, (parse P rightFirst v).result = .ok f) ↔ Grammar v) ∧
    ((parse P rightFirst v).outside = false ↔ ¬Short rightFirst v) := by
  refine ⟨⟨grammar_of_accepts v, Grammar.accepts⟩, ?_⟩
  rw [← Bool.not_eq_true, not_iff_not]
  exact ⟨short_of_outside v, Short.outside⟩

/-- The array of the empty filter has no second element, and the constructor takes it. -/
theorem parser_outside : Grammar (.array [text "empty".toList]) ∧
    (parse x86 false (.array [text "empty".toList])).result = .ok .empty ∧
    (parse x86 false (.array [text "empty".toList])).outside = true :=
  ⟨.empty, rfl, rfl⟩

/-! ## Representation -/

def Filter.usesSeverity : Filter → Bool
  | .severity _ => true
  | .or f g | .and f g | .xor f g => f.usesSeverity || g.usesSeverity
  | _ => false

section RoundTrip

variable {P : Platform} {rightFirst : Bool}

theorem isArray_representation (f : Filter) : isArray f.representation = true := by
  cases f <;> rfl

theorem createOperand_representation (value : Operand) :
    createOperand value.representation = .ok value := by
  cases value with
  | uint n => exact congrArg (fun n => Except.ok (Operand.uint n)) UInt64.ofNat_toNat
  | int n => exact congrArg (fun n => Except.ok (Operand.int n)) (Int64.ofInt_toInt n)
  | bool b => rfl
  | double bits => rfl
  | string s => rfl

theorem parse_connective (c : Connective) (f g : Filter) :
    parse P rightFirst (.array [text c.name, f.representation, g.representation]) =
      (parse P rightFirst f.representation).both rightFirst (parse P rightFirst g.representation)
        c.make := by
  rw [text, parse, binaryOperatorFactory_connective c (isArray_representation f)
    (isArray_representation g)]

theorem result_both {x y : Parsed} {make : Filter → Filter → Filter} {f g : Filter}
    (hx : x.result = .ok f) (hy : y.result = .ok g) :
    (x.both rightFirst y make).result = .ok (make f g) := by
  cases rightFirst <;> simp [Parsed.both, Parsed.seq, hx, hy, Except.map]

/-- A filter without a severity is what its representation gives. -/
theorem parse_representation (f : Filter) (h : f.usesSeverity = false) :
    (parse P rightFirst f.representation).result = .ok f := by
  induction f with
  | empty | traced | «exists» | notExists => rfl
  | severity n => cases h
  | comparison op name value =>
    rw [Filter.representation, text, parse, binaryOperatorFactory_comparison, createComparison,
      createOperand_representation]
    rfl
  | or f g ihf ihg =>
    obtain ⟨hf, hg⟩ := Bool.or_eq_false_iff.mp h
    exact (congrArg Parsed.result (parse_connective .or f g)).trans (result_both (ihf hf) (ihg hg))
  | and f g ihf ihg =>
    obtain ⟨hf, hg⟩ := Bool.or_eq_false_iff.mp h
    exact (congrArg Parsed.result (parse_connective .and f g)).trans (result_both (ihf hf) (ihg hg))
  | xor f g ihf ihg =>
    obtain ⟨hf, hg⟩ := Bool.or_eq_false_iff.mp h
    exact (congrArg Parsed.result (parse_connective .xor f g)).trans (result_both (ihf hf) (ihg hg))

/-- The representation of a severity is not accepted. -/
theorem usesSeverity_of_accepts (f : Filter)
    (h : (parse P rightFirst f.representation).accepts) : f.usesSeverity = false := by
  have hconnective : ∀ (c : Connective) (f g : Filter),
      (parse P rightFirst (.array [text c.name, f.representation, g.representation])).accepts →
      (parse P rightFirst f.representation).accepts ∧
        (parse P rightFirst g.representation).accepts := by
    intro c f g h
    rw [parse_connective] at h
    exact Parsed.accepts_both.mp h
  induction f with
  | empty | traced | «exists» | notExists | comparison => rfl
  | severity n => exact absurd h nofun
  | or f g ihf ihg =>
    obtain ⟨hf, hg⟩ := hconnective .or f g h
    exact Bool.or_eq_false_iff.mpr ⟨ihf hf, ihg hg⟩
  | and f g ihf ihg =>
    obtain ⟨hf, hg⟩ := hconnective .and f g h
    exact Bool.or_eq_false_iff.mpr ⟨ihf hf, ihg hg⟩
  | xor f g ihf ihg =>
    obtain ⟨hf, hg⟩ := hconnective .xor f g h
    exact Bool.or_eq_false_iff.mpr ⟨ihf hf, ihg hg⟩

end RoundTrip

/-- The representation of a filter is made into a filter that accepts the same records, if
and only if no severity is in it. -/
theorem round_trip_iff (P : Platform) (rightFirst : Bool) (f : Filter) :
    (∃ f', (parse P rightFirst f.representation).result = .ok f' ∧
      ∀ r, f'.apply P r = f.apply P r) ↔ f.usesSeverity = false := by
  constructor
  · rintro ⟨f', hf', -⟩
    exact usesSeverity_of_accepts f ⟨f', hf'⟩
  · intro h
    exact ⟨f, parse_representation f h, fun _ => rfl⟩

/-- The parser makes a filter of a severity and throws for its representation. -/
theorem severity_not_parsed :
    (parse x86 false (.array [text "severity".toList, .uint 3])).result = .ok (.severity 3) ∧
    (parse x86 false (Filter.severity 3).representation).result =
      .error (.error "invalid unary filter operator: severity".toList) := by
  constructor
  · rfl
  · decide

end Cocaine.Logging
