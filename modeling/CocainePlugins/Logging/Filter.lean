import CocainePlugins.Framework.Dynamic
import CocainePlugins.Framework.Lexicographic

/-!
# Filters of log records

A filter decides about a record by its severity and its attributes. It is made from a
dynamic value, an array that begins with an operator, and gives such a value back. The
parser takes the second element of the array before it has looked at its size: `outside`
says that it has done so where there is none.
-/

namespace Cocaine.Logging

open Framework

inductive View where
  | null
  | bool (b : Bool)
  | sint (n : Int64)
  | uint (n : UInt64)
  | double (bits : UInt64)
  | string (s : Str)
  | function
deriving DecidableEq

/-- The attributes come in several lists. -/
abbrev Pack := List (List (Str × View))

def findAttribute (pack : Pack) (name : Str) : Option View := pack.flatten.lookup name

/-- What a comparison filter tests of a value that it has converted. -/
inductive Relation where
  | eq | gt | lt | ge | le
deriving DecidableEq, Repr

/-- What is left to the machine and the libraries: the order of its characters, which may be
signed, its doubles, by their bits, and how a dynamic value is printed. -/
structure Platform where
  charLt : Char → Char → Bool
  charLt_total : StrictTotal charLt
  /-- `static_cast<int64_t>` of a double. -/
  truncate : UInt64 → Int64
  ofInt : Int → UInt64
  testDouble : Relation → UInt64 → UInt64 → Bool
  print : Dyn → Str

/-- A character of a machine whose characters are signed bytes. -/
def signedChar (c : Char) : Int :=
  if 128 ≤ c.toNat ∧ c.toNat < 256 then c.toNat - 256 else c.toNat

theorem signedChar_total : StrictTotal fun a b => signedChar a < signedChar b where
  asymm x y h := by simp only [decide_eq_true_eq, decide_eq_false_iff_not] at h ⊢; omega
  total x y hne := by
    simp only [decide_eq_true_eq]
    have hnat : x.toNat ≠ y.toNat := fun h => hne (Char.toNat_inj.mp h)
    unfold signedChar
    split <;> split <;> omega

/-- A machine with signed characters and the usual doubles. -/
def x86 : Platform where
  charLt a b := signedChar a < signedChar b
  charLt_total := signedChar_total
  truncate bits := (Float.ofBits bits).toInt64
  ofInt n := (Float.ofInt n).toBits
  testDouble
    | .eq, a, b => Float.ofBits a == Float.ofBits b
    | .gt, a, b => Float.ofBits b < Float.ofBits a
    | .lt, a, b => Float.ofBits a < Float.ofBits b
    | .ge, a, b => Float.ofBits b ≤ Float.ofBits a
    | .le, a, b => Float.ofBits a ≤ Float.ofBits b
  print _ := "a dynamic value".toList

/-! ## Conversion of attributes -/

section Convert

variable (P : Platform)

def toInt64 : View → Option Int64
  | .null => some 0
  | .bool b => some (if b then 1 else 0)
  | .sint n => some n
  | .uint n => if 2 ^ 63 - 1 < n.toNat then none else some n.toInt64
  | .double bits => some (P.truncate bits)
  | .string _ => none
  | .function => none

def toStringView : View → Option Str
  | .null => some []
  | .string s => some s
  | _ => none

/-- `to<double>`; the bits of zero are zero. -/
def toDouble : View → Option UInt64
  | .null => some 0
  | .bool b => some (P.ofInt b.toNat)
  | .sint n => some (P.ofInt n.toInt)
  | .uint n => some (P.ofInt n.toNat)
  | .double bits => some bits
  | .string _ => none
  | .function => none

def stringLt (lhs rhs : Str) : Bool := lexicographicalCompare P.charLt lhs rhs

def stringGt (lhs rhs : Str) : Bool := lexicographicalCompare (fun x y => P.charLt y x) lhs rhs

def stringLe (lhs rhs : Str) : Bool := !stringGt P lhs rhs

def stringGe (lhs rhs : Str) : Bool := !stringLt P lhs rhs

namespace Relation

def testInt : Relation → Int → Int → Bool
  | .eq, a, b => a = b
  | .gt, a, b => b < a
  | .lt, a, b => a < b
  | .ge, a, b => b ≤ a
  | .le, a, b => a ≤ b

def testString : Relation → Str → Str → Bool
  | .eq, a, b => a = b
  | .gt, a, b => stringGt P a b
  | .lt, a, b => stringLt P a b
  | .ge, a, b => stringGe P a b
  | .le, a, b => stringLe P a b

end Relation

/-- The value that an attribute is compared with. -/
inductive Operand where
  | bool (b : Bool)
  | uint (n : UInt64)
  | int (n : Int64)
  | double (bits : UInt64)
  | string (s : Str)
deriving DecidableEq

/-- Converts the attribute to the type of the operand and compares. An integer is
converted by way of `int64_t`, whatever its type is. -/
def Operand.test (rel : Relation) (v : View) : Operand → Bool
  | .bool b => (toInt64 P v).any fun n => rel.testInt (n != 0).toNat b.toNat
  | .uint m => (toInt64 P v).any fun n => rel.testInt n.toUInt64.toNat m.toNat
  | .int m => (toInt64 P v).any fun n => rel.testInt n.toInt m.toInt
  | .double bits => (toDouble P v).any fun x => P.testDouble rel x bits
  | .string s => (toStringView v).any fun x => rel.testString P x s

end Convert

/-! ## Filters -/

inductive FilterResult where
  | accept | reject
deriving DecidableEq, Repr

inductive Comparison where
  | equals | notEquals | greater | less | greaterOrEqual | lessOrEqual
deriving DecidableEq, Repr

inductive Filter where
  | empty
  | traced
  | severity (n : Int32)
  | exists (name : Str)
  | notExists (name : Str)
  | comparison (op : Comparison) (name : Str) (value : Operand)
  | or (f g : Filter)
  | and (f g : Filter)
  | xor (f g : Filter)
deriving DecidableEq

section Apply

variable (P : Platform)

/-- What the comparison filters share: the result for an attribute that converts and passes
the test, and for any other. -/
def comparisonFilter (rel : Relation) (hit miss : FilterResult) (value : Operand) :
    Option View → FilterResult
  | none => miss
  | some v => if value.test P rel v then hit else miss

def equalsFilter := comparisonFilter P .eq .accept .reject

def notEqualsFilter := comparisonFilter P .eq .reject .accept

def greaterFilter := comparisonFilter P .gt .accept .reject

def lessFilter := comparisonFilter P .lt .accept .reject

def greaterOrEqualFilter := comparisonFilter P .ge .accept .reject

def lessOrEqualFilter := comparisonFilter P .le .accept .reject

def Comparison.apply : Comparison → Operand → Option View → FilterResult
  | .equals => equalsFilter P
  | .notEquals => notEqualsFilter P
  | .greater => greaterFilter P
  | .less => lessFilter P
  | .greaterOrEqual => greaterOrEqualFilter P
  | .lessOrEqual => lessOrEqualFilter P

/-- What a filter looks at. -/
structure LogRecord where
  severity : Int32
  attributes : Pack
  /-- The trace that the record belongs to is verbose. -/
  verbose : Bool

def Filter.apply (r : LogRecord) : Filter → FilterResult
  | .empty => .accept
  | .traced => if r.verbose then .accept else .reject
  | .severity n => if n ≤ r.severity then .accept else .reject
  | .exists name => if (findAttribute r.attributes name).isSome then .accept else .reject
  | .notExists name => if (findAttribute r.attributes name).isSome then .reject else .accept
  | .comparison op name value => op.apply P value (findAttribute r.attributes name)
  | .or f g => if f.apply r = .accept ∨ g.apply r = .accept then .accept else .reject
  | .and f g => if f.apply r = .accept ∧ g.apply r = .accept then .accept else .reject
  | .xor f g => if f.apply r ≠ g.apply r then .accept else .reject

end Apply

/-! ## Representation -/

def text (s : Str) : Dyn := .scalar (.string s)

def Comparison.name : Comparison → Str
  | .equals => "==".toList
  | .notEquals => "!=".toList
  | .greater => ">".toList
  | .less => "<".toList
  | .greaterOrEqual => ">=".toList
  | .lessOrEqual => "<=".toList

def Operand.representation : Operand → Dyn
  | .bool b => .scalar (.bool b)
  | .uint n => .uint n.toNat
  | .int n => .int n.toInt
  | .double bits => .scalar (.double bits)
  | .string s => text s

/-- `filter_t::representation`; a severity is given as a signed integer. -/
def Filter.representation : Filter → Dyn
  | .empty => .array [text "empty".toList]
  | .traced => .array [text "traced".toList]
  | .severity n => .array [text "severity".toList, .int n.toInt]
  | .exists name => .array [text "e".toList, text name]
  | .notExists name => .array [text "!e".toList, text name]
  | .comparison op name value => .array [text op.name, text name, value.representation]
  | .or f g => .array [text "||".toList, f.representation, g.representation]
  | .and f g => .array [text "&&".toList, f.representation, g.representation]
  | .xor f g => .array [text "xor".toList, f.representation, g.representation]

/-! ## The parser -/

inductive Thrown where
  | error (what : Str)
  | logicError (what : Str)
  /-- With `function_not_supported`. -/
  | systemError (what : Str)
deriving DecidableEq

/-- How the construction of a filter ends, and whether it took an element that is not in
its array. -/
structure Parsed where
  result : Except Thrown Filter
  outside : Bool := false

namespace Parsed

/-- The construction of two operands, one after the other. -/
def seq (x y : Parsed) (make : Filter → Filter → Filter) : Parsed :=
  match x.result with
  | .error e => { result := .error e, outside := x.outside }
  | .ok f => { result := y.result.map (make f), outside := x.outside || y.outside }

/-- The arguments of a call are evaluated in any order. -/
def both (rightFirst : Bool) (x y : Parsed) (make : Filter → Filter → Filter) : Parsed :=
  if rightFirst then y.seq x (fun g f => make f g) else x.seq y make

end Parsed

def isArray : Dyn → Bool
  | .array _ => true
  | _ => false

/-- `filter_creation_visitor_t`. -/
def createOperand : Dyn → Except Thrown Operand
  | .scalar (.bool b) => .ok (.bool b)
  | .scalar (.uint n) => .ok (.uint (.ofNat n))
  | .scalar (.int n) => .ok (.int (.ofInt n))
  | .scalar (.double bits) => .ok (.double bits)
  | .scalar (.string s) => .ok (.string s)
  | _ => .error (.systemError "invalid representation - cannot create filter from value".toList)

def singleArgument (op : Str) : Except Thrown Filter :=
  if op = "empty".toList then .ok .empty
  else if op = "traced".toList then .ok .traced
  else .error (.error "unknown single argument filter specification".toList)

def unaryOperatorFactory (op : Str) : Dyn → Except Thrown Filter
  | .scalar (.string s) =>
    if op = "e".toList then .ok (.exists s)
    else if op = "!e".toList then .ok (.notExists s)
    else .error (.error ("invalid unary filter operator: ".toList ++ op))
  | .scalar (.uint n) =>
    if op = "severity".toList then .ok (.severity (.ofNat n))
    else .error (.error ("invalid unary filter operator: ".toList ++ op))
  | _ => .error (.error ("invalid unary filter operator: ".toList ++ op))

/-- The branch that compares the operator with a comparison's name. -/
def createComparison (op : Comparison) (name : Str) (operand2 : Dyn) : Except Thrown Filter :=
  (createOperand operand2).map (.comparison op name)

def stringOperandFactory (op : Str) (operand1 operand2 : Dyn) : Except Thrown Filter :=
  match operand1 with
  | .scalar (.string name) =>
    if op = "==".toList then createComparison .equals name operand2
    else if op = "!=".toList then createComparison .notEquals name operand2
    else if op = ">".toList then createComparison .greater name operand2
    else if op = "<".toList then createComparison .less name operand2
    else if op = ">=".toList then createComparison .greaterOrEqual name operand2
    else if op = "<=".toList then createComparison .lessOrEqual name operand2
    else .error (.logicError ("Invalid operator passed: ".toList ++ op))
  | _ => .error (.error ("operand 1 for operator ".toList ++ op ++ " should be strings".toList))

/-- `operands` says how the construction of the operands ends, if they are constructed. -/
def filterOperandFactory (op : Str) (operand1 operand2 : Dyn)
    (operands : (Filter → Filter → Filter) → Parsed) : Parsed :=
  if !isArray operand1 || !isArray operand2 then
    { result := .error (.error ("operands for operator ".toList ++ op ++ " should be arrays".toList)) }
  else if op = "||".toList then operands .or
  else if op = "&&".toList then operands .and
  else if op = "xor".toList then operands .xor
  else { result := .error (.logicError ("Invalid operator passed: ".toList ++ op)) }

def stringOps : List Str :=
  ["==".toList, "!=".toList, ">".toList, "<".toList, ">=".toList, "<=".toList, "e".toList, "!e".toList]

def binaryOperatorFactory (op : Str) (operand1 operand2 : Dyn)
    (operands : (Filter → Filter → Filter) → Parsed) : Parsed :=
  if stringOps.contains op then { result := stringOperandFactory op operand1 operand2 }
  else filterOperandFactory op operand1 operand2 operands

/-- The constructor of `filter_t`. -/
def parse (P : Platform) (rightFirst : Bool) : Dyn → Parsed
  | .array [] =>
    { result := .error (.error "representation should contain  at least 1 element".toList) }
  -- `array[1]` is taken before the size is compared
  | .array [.scalar (.string op)] => { result := singleArgument op, outside := true }
  | .array [.scalar (.string op), operand] => { result := unaryOperatorFactory op operand }
  | .array [.scalar (.string op), operand1, operand2] =>
    binaryOperatorFactory op operand1 operand2
      ((parse P rightFirst operand1).both rightFirst (parse P rightFirst operand2))
  | .array (.scalar (.string op) :: _) =>
    { result :=
        .error (.error ("representation should contain 3 elements for operator ".toList ++ op)) }
  | .array _ => { result := .error (.error "operator should be string".toList) }
  | source =>
    { result := .error (.error ("representation should be array, found - ".toList ++ P.print source)) }

end Cocaine.Logging
