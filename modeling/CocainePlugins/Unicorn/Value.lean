import CocainePlugins.Framework.Dynamic
import CocainePlugins.Framework.Tree
import CocainePlugins.Framework.Word

/-!
# Values, errors and names of the unicorn service

`value_t` is a dynamic value; a node stores it packed. The names of the nodes
are those of `zookeeper.cpp`: the ancestors of a path, the node name at its end,
and whether that name ends with a sequence number.
-/

namespace Cocaine.Unicorn

open Framework

/-- The codes of the errors that unicorn reports. `uncaught` is the code of an
`error_t` that is made from a text only. -/
inductive Code where
  | childNotAllowed | invalidType | invalidValue | connectionLoss | noNode | nodeExists
  | versionNotAllowed | invalidPath | backendInternalError | uncaught
  | invalidAclFraming | permissionsChanged | permissionDenied
deriving DecidableEq, Repr

/-- An exception. The text is the source's, without what the libraries add to it. -/
structure Error where
  code : Code
  what : String := ""
deriving DecidableEq, Repr

def mapZooError : Rc → Code
  | .connectionLoss | .sessionExpired | .closing => .connectionLoss
  | .noNode => .noNode
  | .nodeExists => .nodeExists
  | .badVersion => .versionNotAllowed
  | _ => .backendInternalError

/-! ## Values -/

abbrev Value := Dyn

/-- The version of a node that does not exist. -/
def notExistingVersion : Int := -1

/-- `versioned_value_t`. -/
structure Versioned where
  value : Value
  version : Int
deriving DecidableEq

def Versioned.isThere (v : Versioned) : Bool := v.version != notExistingVersion

/-- The bytes of a node: a packed value, or bytes that do not unpack, as the
empty ones that the ancestors of a path get. -/
inductive Data where
  | packed (v : Value)
  | raw
deriving DecidableEq

def serialize (v : Value) : Data := .packed v

/-- Only strict unparse. -/
def unserialize : Data → Except Error Value
  | .packed v => .ok v
  | .raw => .error { code := .invalidValue }

def isDouble : Value → Bool
  | .scalar (.double _) => true
  | _ => false

def isInteger : Value → Bool
  | .scalar (.int _) | .scalar (.uint _) => true
  | _ => false

def isNumeric (v : Value) : Bool := isDouble v || isInteger v

def toInt64 : Value → Int
  | .scalar (.int n) => n
  | .scalar (.uint n) => i64 n
  | _ => 0

def toDouble : Value → Float
  | .scalar (.int n) => Float.ofInt n
  | .scalar (.uint n) => Float.ofNat n
  | .scalar (.double bits) => Float.ofBits bits
  | _ => 0

/-! ## Names -/

/-- The part of a path before its `depth`-th last slash. -/
def beforeNthLast : Nat → Str → Option Str
  | 0, path => some path
  | depth + 1, path => (beforeLast '/' path).bind (beforeNthLast depth)

theorem beforeNthLast_succ (depth : Nat) (path : Str) :
    beforeNthLast (depth + 1) path = (beforeNthLast depth path).bind (beforeLast '/') := by
  induction depth generalizing path with
  | zero => simp [beforeNthLast]
  | succ depth ih =>
    rw [beforeNthLast, beforeNthLast]
    cases beforeLast '/' path with
    | none => rfl
    | some p => exact ih p

/-- `path_parent`: for `/A/B/C/D` the first parent is `/A/B/C`. -/
def pathParent (path : Str) (depth : Nat) : Except Error Str :=
  if path = [] then .error ⟨.uncaught, "invalid path for path parent"⟩
  else if depth = 0 then .ok path
  else
    match beforeNthLast depth path with
    | none => .error ⟨.uncaught, "could not get level parent from path"⟩
    | some p => .ok p

theorem pathParent_eq_ok {path p : Str} {depth : Nat} (h : pathParent path depth = .ok p) :
    beforeNthLast depth path = some p := by
  unfold pathParent at h
  split at h
  · cases h
  · split at h
    · rename_i hd
      cases h
      rw [hd, beforeNthLast]
    · split at h
      · cases h
      · rename_i heq
        cases h
        exact heq

theorem pathParent_zero {path : Str} (h : path ≠ []) : pathParent path 0 = .ok path := by
  simp [pathParent, h]

theorem beforeLast_of_pathParent {path p p' : Str} {depth : Nat} (h : pathParent path depth = .ok p)
    (h' : pathParent path (depth + 1) = .ok p') : beforeLast '/' p = some p' := by
  have heq := beforeNthLast_succ depth path
  rw [pathParent_eq_ok h, pathParent_eq_ok h'] at heq
  exact heq.symm

theorem pathParent_succ {path p p' : Str} {depth : Nat} (h : pathParent path depth = .ok p)
    (hb : beforeLast '/' p = some p') : pathParent path (depth + 1) = .ok p' := by
  have hne : path ≠ [] := by
    rintro rfl
    cases h
  have heq := beforeNthLast_succ depth path
  rw [pathParent_eq_ok h, Option.bind_some, hb] at heq
  simp [pathParent, hne, heq]

/-- Higher ancestors are shorter. -/
theorem length_pathParent {path p p' : Str} {depth d : Nat} (h : pathParent path depth = .ok p)
    (h' : pathParent path (depth + d + 1) = .ok p') : p'.length < p.length := by
  have hlt : ∀ d p', beforeNthLast (depth + d + 1) path = some p' → p'.length < p.length := by
    intro d
    induction d with
    | zero =>
      intro p' hp'
      rw [beforeNthLast_succ, pathParent_eq_ok h] at hp'
      exact length_of_beforeLast hp'
    | succ d ih =>
      intro p' hp'
      rw [beforeNthLast_succ] at hp'
      obtain ⟨q, hq, hp'⟩ := Option.bind_eq_some_iff.mp hp'
      exact (length_of_beforeLast hp').trans (ih q hq)
  exact hlt d p' (pathParent_eq_ok h')

def isDigit (c : Char) : Bool := '0' ≤ c && c ≤ '9'

/-- `find_last_not_of`, which is the largest number if there is none. -/
def findLastNotDigit (path : Str) : Nat :=
  if path.all isDigit then 2 ^ 64 - 1
  else path.length - 1 - (path.reverse.takeWhile isDigit).length

def zooSequenceLength : Nat := 10

/-- `is_valid_sequence_node`: the name ends with as many digits as ZooKeeper
writes. -/
def isValidSequenceNode (path : Str) : Bool :=
  sub64 (sub64 path.length (findLastNotDigit path)) 1 == zooSequenceLength

def getNodeName (path : Str) : Except Error Str :=
  match afterLast '/' path with
  | none | some [] => .error ⟨.invalidPath, "invalid path specified"⟩
  | some name => .ok name

end Cocaine.Unicorn
