import Mathlib.Logic.Basic

/-!
# The profile of an application

The settings that the engine and its slaves read, and the checks with which the
constructor of `profile_t` ends.
-/

namespace Cocaine.Node

structure Profile where
  /-- `timeout.heartbeat`, in milliseconds. -/
  heartbeat : Nat := 30000
  concurrency : Nat := 10
  poolLimit : Nat := 10
  queueLimit : Nat := 100
  growThreshold : Nat := 5
  publishOn : Nat := 0
  unpublishUnder : Nat := 0
  /-- In milliseconds. -/
  requestTimeout : Nat := 86400000
deriving DecidableEq, Repr

namespace Profile

def validate (p : Profile) : Except String Unit :=
  if p.heartbeat = 0 then .error "slave heartbeat timeout must be positive"
  else if p.poolLimit = 0 then .error "engine pool limit must be positive"
  else if p.concurrency = 0 then .error "engine concurrency must be positive"
  else if p.publishOn > p.poolLimit then
    .error "publish threshold must not be greater than pool limit"
  else if p.publishOn < p.unpublishUnder then
    .error "publish threshold must not be less than unpublish one"
  else .ok ()

def Accepted (p : Profile) : Prop := p.validate = .ok ()

theorem ite_error_eq_ok {c : Prop} [Decidable c] {e : String} {x : Except String Unit} :
    (if c then .error e else x) = .ok () ↔ ¬c ∧ x = .ok () := by
  split <;> simp [*]

theorem accepted_iff {p : Profile} : p.Accepted ↔
    0 < p.heartbeat ∧ 0 < p.poolLimit ∧ 0 < p.concurrency ∧ p.publishOn ≤ p.poolLimit ∧
      p.unpublishUnder ≤ p.publishOn := by
  simp only [Accepted, validate, ite_error_eq_ok, and_true]
  omega

instance (p : Profile) : Decidable p.Accepted := decidable_of_iff _ accepted_iff.symm

end Profile

end Cocaine.Node
