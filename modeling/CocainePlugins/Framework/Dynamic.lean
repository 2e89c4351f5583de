import CocainePlugins.Framework.Text

/-!
# Dynamic values

The values of a self-describing format: scalars, arrays, and objects with text
keys. A double is its 64 bits.
-/

namespace Cocaine.Framework

inductive Scalar where
  | null
  | bool (b : Bool)
  | int (n : Int)
  | uint (n : Nat)
  | double (bits : UInt64)
  | string (s : Str)
deriving DecidableEq

inductive Dyn where
  | scalar (s : Scalar)
  | array (items : List Dyn)
  | object (fields : List (Str × Dyn))

namespace Dyn

mutual

def decEq : (x y : Dyn) → Decidable (x = y)
  | .scalar a, .scalar b => decidable_of_iff (a = b) (by simp)
  | .array a, .array b =>
    have := decEqItems a b
    decidable_of_iff (a = b) (by simp)
  | .object a, .object b =>
    have := decEqFields a b
    decidable_of_iff (a = b) (by simp)
  | .scalar _, .array _ | .scalar _, .object _ | .array _, .scalar _ | .array _, .object _
  | .object _, .scalar _ | .object _, .array _ => isFalse (by simp)

def decEqItems : (x y : List Dyn) → Decidable (x = y)
  | [], [] => isTrue rfl
  | a :: as, b :: bs =>
    have := decEq a b
    have := decEqItems as bs
    decidable_of_iff (a = b ∧ as = bs) (by simp)
  | [], _ :: _ | _ :: _, [] => isFalse (by simp)

def decEqFields : (x y : List (Str × Dyn)) → Decidable (x = y)
  | [], [] => isTrue rfl
  | (k, a) :: as, (l, b) :: bs =>
    have := decEq a b
    have := decEqFields as bs
    decidable_of_iff (k = l ∧ a = b ∧ as = bs) (by simp [and_assoc])
  | [], _ :: _ | _ :: _, [] => isFalse (by simp)

end

instance : DecidableEq Dyn := decEq

def null : Dyn := .scalar .null

def int (n : Int) : Dyn := .scalar (.int n)

def uint (n : Nat) : Dyn := .scalar (.uint n)

end Dyn

end Cocaine.Framework
