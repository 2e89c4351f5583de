import CocainePlugins.Framework.Dynamic
import CocainePlugins.Node.Engine.Rebalance

/-!
# The document of a profile

The constructor of `profile_t` takes the settings from a document, with a default
for each that is not there, and checks them at its end. The default of the grow
threshold is computed by a division by the pool limit before that limit is checked,
and the threshold itself is not checked at all, though `rebalance_slaves` divides by
it. `profile_safe_iff` says for which documents neither division is one by zero.
-/

namespace Cocaine.Node

open Framework

/-- The conversions of dynamic values, where `none` is a throw. -/
structure Converters where
  asBool : Dyn → Option Bool
  asUint : Dyn → Option Nat
  asString : Dyn → Option Str
  asObject : Dyn → Option (List (Str × Dyn))
  /-- `to<uint64_t>`. -/
  toUint : Dyn → Option Nat
  /-- `to<double>` of seconds, as milliseconds in a `uint64_t`. -/
  toMilliseconds : Dyn → Option Nat
  /-- An unsigned integer converts to itself. -/
  toUint_uint : ∀ n < 2 ^ 64, toUint (.uint n) = some n
  toUint_lt : ∀ d, ∀ n ∈ toUint d, n < 2 ^ 64

namespace Document

/-- How the construction of a profile ends without one. -/
inductive Stop where
  /-- A conversion of a dynamic value throws. -/
  | conversion
  /-- A check throws. -/
  | rejected (what : String)
  /-- A division by zero was executed. -/
  | division
deriving DecidableEq, Repr

/-- `object_t::at`. -/
def entry (config : List (Str × Dyn)) (key : String) (default : Dyn) : Dyn :=
  (config.lookup key.toList).getD default

def convert {α : Type} : Option α → Except Stop α
  | some a => .ok a
  | none => .error .conversion

def check (p : Profile) : Except Stop Unit :=
  match p.validate with
  | .ok () => .ok ()
  | .error what => .error (.rejected what)

/-- The settings that are read before the division. -/
structure Settings where
  heartbeat : Nat
  concurrency : Nat
  poolLimit : Nat
  queueLimit : Nat
deriving DecidableEq, Repr

section Construct

variable (c : Converters) (config : List (Str × Dyn))

/-- A timeout of so many seconds, if there is no other in the document. -/
def timeout (key : String) (seconds : UInt64) : Option Nat :=
  c.toMilliseconds (entry config key (.scalar (.double seconds)))

def limit (key : String) (default : Int) : Option Nat := c.toUint (entry config key (.int default))

/-- The defaults of the timeouts are 1, 5, 30, 60, 10 and 600 seconds, by their bits. -/
def readSettings : Except Stop Settings := do
  let _ ← convert (c.asBool (entry config "log-output" (.scalar (.bool false))))
  let _ ← convert (timeout c config "spawn-timeout" 0x3ff0000000000000)
  let _ ← convert (timeout c config "handshake-timeout" 0x4014000000000000)
  let heartbeat ← convert (timeout c config "heartbeat-timeout" 0x403e000000000000)
  let _ ← convert (timeout c config "seal-timeout" 0x404e000000000000)
  let _ ← convert (timeout c config "terminate-timeout" 0x4024000000000000)
  let _ ← convert (timeout c config "idle-timeout" 0x4082c00000000000)
  let concurrency ← convert (limit c config "concurrency" 10)
  let _ ← convert (limit c config "crashlog-limit" 50)
  let poolLimit ← convert (limit c config "pool-limit" 10)
  let queueLimit ← convert (limit c config "queue-limit" 100)
  return { heartbeat, concurrency, poolLimit, queueLimit }

/-- `max(1, queue_limit / pool_limit / 2)`. -/
def defaultThreshold (s : Settings) : Except Stop Nat :=
  if s.poolLimit = 0 then .error .division
  else .ok (max 1 (s.queueLimit / s.poolLimit / 2))

/-- `publish_on` and `unpublish_under` return the entry as a `uint32_t`. -/
def readUint32 (key : String) : Except Stop Nat := do
  let n ← convert (c.asUint (entry config key (.uint 0)))
  return n % 2 ^ 32

def finish (s : Settings) (threshold : Nat) : Except Stop Profile := do
  let growThreshold ← convert (c.toUint (entry config "grow-threshold" (.uint threshold)))
  let isolate ← convert (c.asObject (entry config "isolate" (.object [])))
  let _ ← convert (c.asString (entry isolate "type" (.scalar (.string "process".toList))))
  let p : Profile := {
    heartbeat := s.heartbeat, concurrency := s.concurrency, poolLimit := s.poolLimit
    queueLimit := s.queueLimit, growThreshold := growThreshold }
  -- the checks that read no entry come first
  check p
  let publishOn ← readUint32 c config "publish-on"
  check { p with publishOn := publishOn }
  let unpublishUnder ← readUint32 c config "unpublish-under"
  let p := { p with publishOn := publishOn, unpublishUnder := unpublishUnder }
  check p
  return p

/-- `profile_t::profile_t`, for the document that the storage gave. -/
def profile (doc : Dyn) : Except Stop Profile := do
  let config ← convert (c.asObject doc)
  let s ← readSettings c config
  let threshold ← defaultThreshold s
  finish c config s threshold

end Construct

/-! ## How the reads end -/

section Binds

variable {α β : Type} {x : Except Stop α} {f : α → Except Stop β}

theorem bind_eq_ok {b : β} : x >>= f = .ok b ↔ ∃ a, x = .ok a ∧ f a = .ok b := by
  cases x with
  | error e => exact ⟨nofun, fun ⟨_, h, _⟩ => nomatch h⟩
  | ok a => exact ⟨fun h => ⟨a, rfl, h⟩, fun ⟨_, ha, h⟩ => Except.ok.inj ha ▸ h⟩

theorem bind_eq_error {e : Stop} :
    x >>= f = .error e ↔ x = .error e ∨ ∃ a, x = .ok a ∧ f a = .error e := by
  cases x <;> simp [Bind.bind, Except.bind]

@[simp] theorem convert_eq_ok {x : Option α} {a : α} : convert x = .ok a ↔ x = some a := by
  cases x <;> simp [convert]

@[simp] theorem convert_ne_division {x : Option α} : convert x ≠ .error .division := by
  cases x <;> simp [convert]

@[simp] theorem check_eq_ok {p : Profile} {u : Unit} : check p = .ok u ↔ p.Accepted := by
  unfold check Profile.Accepted
  split <;> simp [*]

@[simp] theorem check_ne_division {p : Profile} : check p ≠ .error .division := by
  unfold check
  split <;> simp

end Binds

section Reads

variable {c : Converters} {config : List (Str × Dyn)} {s : Settings}

/-- The entries that are read before the division convert, and give these settings. -/
structure Entries (c : Converters) (config : List (Str × Dyn)) (s : Settings) : Prop where
  logOutput : ∃ b, c.asBool (entry config "log-output" (.scalar (.bool false))) = some b
  spawn : ∃ n, timeout c config "spawn-timeout" 0x3ff0000000000000 = some n
  handshake : ∃ n, timeout c config "handshake-timeout" 0x4014000000000000 = some n
  heartbeat : timeout c config "heartbeat-timeout" 0x403e000000000000 = some s.heartbeat
  sealing : ∃ n, timeout c config "seal-timeout" 0x404e000000000000 = some n
  terminate : ∃ n, timeout c config "terminate-timeout" 0x4024000000000000 = some n
  idle : ∃ n, timeout c config "idle-timeout" 0x4082c00000000000 = some n
  concurrency : limit c config "concurrency" 10 = some s.concurrency
  crashlog : ∃ n, limit c config "crashlog-limit" 50 = some n
  poolLimit : limit c config "pool-limit" 10 = some s.poolLimit
  queueLimit : limit c config "queue-limit" 100 = some s.queueLimit

theorem readSettings_eq_ok : readSettings c config = .ok s ↔ Entries c config s := by
  simp only [readSettings, bind_eq_ok, convert_eq_ok]
  constructor
  · rintro ⟨_, h₁, _, h₂, _, h₃, _, h₄, _, h₅, _, h₆, _, h₇, _, h₈, _, h₉, _, h₁₀, _, h₁₁, hs⟩
    cases hs
    exact ⟨⟨_, h₁⟩, ⟨_, h₂⟩, ⟨_, h₃⟩, h₄, ⟨_, h₅⟩, ⟨_, h₆⟩, ⟨_, h₇⟩, h₈, ⟨_, h₉⟩, h₁₀, h₁₁⟩
  · rintro ⟨⟨_, h₁⟩, ⟨_, h₂⟩, ⟨_, h₃⟩, h₄, ⟨_, h₅⟩, ⟨_, h₆⟩, ⟨_, h₇⟩, h₈, ⟨_, h₉⟩, h₁₀, h₁₁⟩
    exact ⟨_, h₁, _, h₂, _, h₃, _, h₄, _, h₅, _, h₆, _, h₇, _, h₈, _, h₉, _, h₁₀, _, h₁₁, rfl⟩

theorem readSettings_ne_division : readSettings c config ≠ .error .division := by
  simp [readSettings, bind_eq_error, Pure.pure, Except.pure]

/-- The entries that are read behind the division convert, and all checks pass. -/
structure Passes (c : Converters) (config : List (Str × Dyn)) (s : Settings) : Prop where
  isolate : ∃ fields, c.asObject (entry config "isolate" (.object [])) = some fields ∧
    ∃ t, c.asString (entry fields "type" (.scalar (.string "process".toList))) = some t
  thresholds : ∃ on under, c.asUint (entry config "publish-on" (.uint 0)) = some on ∧
    c.asUint (entry config "unpublish-under" (.uint 0)) = some under ∧
    on % 2 ^ 32 ≤ s.poolLimit ∧ under % 2 ^ 32 ≤ on % 2 ^ 32
  heartbeat : 0 < s.heartbeat
  concurrency : 0 < s.concurrency

theorem finish_ne_division (threshold : Nat) :
    finish c config s threshold ≠ .error .division := by
  simp [finish, readUint32, bind_eq_error, Pure.pure, Except.pure]

/-- A document with a grow threshold of zero that passes everything else. -/
theorem finish_threshold_zero {threshold : Nat} (hp : s.poolLimit ≠ 0) :
    (∃ p, finish c config s threshold = .ok p ∧ 0 < p.queueLimit ∧ p.growThreshold = 0) ↔
      0 < s.queueLimit ∧ c.toUint (entry config "grow-threshold" (.uint threshold)) = some 0 ∧
        Passes c config s := by
  simp only [finish, readUint32, bind_eq_ok, convert_eq_ok, check_eq_ok, Profile.accepted_iff,
    Pure.pure, Except.pure, Except.ok.injEq]
  constructor
  · rintro ⟨p, ⟨g, hg, fields, hfields, t, ht, -, -, _, ⟨on, hon, rfl⟩, -, -, _, ⟨under, hunder, rfl⟩, -,
      haccepted, rfl⟩, hq, hzero⟩
    obtain ⟨hheartbeat, -, hconcurrency, hle, hle'⟩ := haccepted
    exact ⟨hq, hg.trans (congrArg some hzero), ⟨fields, hfields, t, ht⟩,
      ⟨on, under, hon, hunder, hle, hle'⟩, hheartbeat, hconcurrency⟩
  · rintro ⟨hq, hg, ⟨fields, hfields, t, ht⟩, ⟨on, under, hon, hunder, hle, hle'⟩, hheartbeat,
      hconcurrency⟩
    have hp := Nat.pos_of_ne_zero hp
    exact ⟨_, ⟨0, hg, fields, hfields, t, ht, (), ⟨hheartbeat, hp, hconcurrency, Nat.zero_le _,
      Nat.le_refl 0⟩, _, ⟨on, hon, rfl⟩, (), ⟨hheartbeat, hp, hconcurrency, hle, Nat.zero_le _⟩, _,
      ⟨under, hunder, rfl⟩, (), ⟨hheartbeat, hp, hconcurrency, hle, hle'⟩, rfl⟩, hq, rfl⟩

/-- Only an entry of the document makes the grow threshold zero. -/
theorem threshold_eq_zero (h : Entries c config s) :
    c.toUint (entry config "grow-threshold" (.uint (max 1 (s.queueLimit / s.poolLimit / 2)))) =
        some 0 ↔
      ∃ d, config.lookup "grow-threshold".toList = some d ∧ c.toUint d = some 0 := by
  unfold entry
  cases config.lookup "grow-threshold".toList with
  | some d => simp
  | none =>
    have hlt := c.toUint_lt _ _ h.queueLimit
    have hle : s.queueLimit / s.poolLimit / 2 ≤ s.queueLimit :=
      Nat.le_trans (Nat.div_le_self _ 2) (Nat.div_le_self _ _)
    have hdefault := c.toUint_uint (max 1 (s.queueLimit / s.poolLimit / 2)) (by omega)
    rw [Option.getD_none, hdefault]
    simp

end Reads

section Profiles

variable {c : Converters} {doc : Dyn}

theorem profile_eq_division : profile c doc = .error .division ↔
    ∃ config, c.asObject doc = some config ∧ ∃ s, Entries c config s ∧ s.poolLimit = 0 := by
  have hthreshold : ∀ {s}, defaultThreshold s = .error .division ↔ s.poolLimit = 0 := by
    intro s
    unfold defaultThreshold
    split <;> simp [*]
  simp only [profile, bind_eq_error, convert_ne_division, convert_eq_ok, readSettings_ne_division,
    readSettings_eq_ok, finish_ne_division, hthreshold, false_or, and_false, exists_false, or_false]

theorem profile_eq_ok {p : Profile} : profile c doc = .ok p ↔
    ∃ config, c.asObject doc = some config ∧ ∃ s, Entries c config s ∧ s.poolLimit ≠ 0 ∧
      finish c config s (max 1 (s.queueLimit / s.poolLimit / 2)) = .ok p := by
  have hthreshold : ∀ {config s}, (∃ n, defaultThreshold s = .ok n ∧ finish c config s n = .ok p) ↔
      s.poolLimit ≠ 0 ∧ finish c config s (max 1 (s.queueLimit / s.poolLimit / 2)) = .ok p := by
    intro config s
    unfold defaultThreshold
    by_cases h : s.poolLimit = 0 <;> simp [h]
  simp only [profile, bind_eq_ok, convert_eq_ok, readSettings_eq_ok, hthreshold]

end Profiles

end Document

/-! ## Both divisions -/

namespace Engine

variable {st : Engine}

theorem failed_spawnLoop (n : Nat) (fails : Option Nat) (st : Engine) :
    (spawnLoop n fails st).1.failed = st.failed := by
  induction n generalizing fails st with
  | zero => rfl
  | succ n ih =>
    unfold spawnLoop
    split
    · rfl
    · exact ih _ _

theorem failed_sealLoop (lost : List Nat) (n : Nat) (st : Engine) :
    (sealLoop lost n st).failed = st.failed := by
  induction n generalizing st with
  | zero => rfl
  | succ n ih =>
    unfold sealLoop
    split
    · rfl
    · exact ih _

theorem failed_afterTarget (h : st.failed = false) : st.afterTarget.failed = st.dividesByZero := by
  unfold afterTarget
  split
  · exact Eq.symm ‹_›
  · rename_i hd
    rw [Bool.eq_false_iff.mpr hd]
    split <;> exact h

/-- Only the division by the grow threshold can be one by zero. -/
theorem failed_rebalanceSlaves (env : Supply) (h : st.failed = false) :
    (st.rebalanceSlaves env).1.failed = (!st.stopped && st.dividesByZero) := by
  rw [← failed_afterTarget h]
  cases hs : st.stopped with
  | true => simpa [rebalanceSlaves, hs] using h
  | false =>
    simp only [rebalanceSlaves, hs, Bool.false_eq_true, if_false, Bool.not_false, Bool.true_and]
    split
    · rfl
    split
    · split
      · exact failed_sealLoop ..
      · exact failed_spawnLoop ..
    · split
      · rfl
      · exact failed_spawnLoop ..

/-- A profile with which some engine divides by zero. -/
theorem exists_failed_iff (p : Profile) :
    (∃ st : Engine, st.profile = p ∧ st.failed = false ∧
      ∃ env, (st.rebalanceSlaves env).1.failed = true) ↔
    0 < p.queueLimit ∧ p.growThreshold = 0 := by
  constructor
  · rintro ⟨st, rfl, hf, env, h⟩
    rw [failed_rebalanceSlaves env hf] at h
    simp only [dividesByZero, Bool.and_eq_true, decide_eq_true_eq, beq_iff_eq] at h
    exact ⟨h.2.1.2, h.2.2⟩
  · rintro ⟨hq, hg⟩
    refine ⟨{ profile := p }, rfl, rfl, {}, ?_⟩
    rw [failed_rebalanceSlaves {} rfl]
    simp [dividesByZero, hq, hg]

end Engine

namespace Document

/-- For every document: the construction of its profile executes no division by zero,
and with a profile that it yields no call of `rebalance_slaves` does either, if and
only if the document, as far as it converts, does not set the pool limit to zero, and,
where it passes everything else, sets no grow threshold of zero beside a positive queue
limit. -/
theorem profile_safe_iff (c : Converters) (doc : Dyn) :
    (profile c doc ≠ .error .division ∧ ∀ p, profile c doc = .ok p →
      ∀ st : Engine, st.profile = p → st.failed = false →
        ∀ env, (st.rebalanceSlaves env).1.failed = false) ↔
    ∀ config, c.asObject doc = some config → ∀ s, Entries c config s →
      s.poolLimit ≠ 0 ∧
      ¬(0 < s.queueLimit ∧ Passes c config s ∧
        ∃ d, config.lookup "grow-threshold".toList = some d ∧ c.toUint d = some 0) := by
  constructor
  · rintro ⟨hdivision, hengine⟩ config hconfig s hs
    have hp : s.poolLimit ≠ 0 := fun hzero =>
      hdivision (profile_eq_division.mpr ⟨config, hconfig, s, hs, hzero⟩)
    refine ⟨hp, fun ⟨hq, hpasses, hzero⟩ => ?_⟩
    obtain ⟨p, hfinish, hunsafe⟩ :=
      (finish_threshold_zero hp).mpr ⟨hq, (threshold_eq_zero hs).mpr hzero, hpasses⟩
    obtain ⟨st, hst, hf, env, hfailed⟩ := (Engine.exists_failed_iff p).mpr hunsafe
    have hsafe := hengine p (profile_eq_ok.mpr ⟨config, hconfig, s, hs, hp, hfinish⟩) st hst hf env
    rw [hfailed] at hsafe
    cases hsafe
  · intro h
    constructor
    · intro hdivision
      obtain ⟨config, hconfig, s, hs, hzero⟩ := profile_eq_division.mp hdivision
      exact (h config hconfig s hs).1 hzero
    · intro p hprofile st hst hf env
      by_contra hfailed
      obtain ⟨config, hconfig, s, hs, hp, hfinish⟩ := profile_eq_ok.mp hprofile
      have hunsafe := (Engine.exists_failed_iff p).mp ⟨st, hst, hf, env, by simpa using hfailed⟩
      obtain ⟨hq, hzero, hpasses⟩ := (finish_threshold_zero hp).mp ⟨p, hfinish, hunsafe⟩
      exact (h config hconfig s hs).2 ⟨hq, hpasses, (threshold_eq_zero hs).mp hzero⟩

/-- Conversions that take a value of their own kind, and every number as seconds. -/
def plain : Converters where
  asBool
    | .scalar (.bool b) => some b
    | _ => none
  asUint
    | .scalar (.uint n) => some n
    | _ => none
  asString
    | .scalar (.string s) => some s
    | _ => none
  asObject
    | .object fields => some fields
    | _ => none
  toUint
    | .scalar (.uint n) => if n < 2 ^ 64 then some n else none
    | .scalar (.int n) => if 0 ≤ n ∧ n < 2 ^ 64 then some n.toNat else none
    | _ => none
  toMilliseconds
    | .scalar (.uint n) => some (1000 * n)
    | .scalar (.int n) => some (1000 * n).toNat
    -- the mantissa times a power of two
    | .scalar (.double bits) =>
      some (1000 * (bits.toNat % 2 ^ 52 + 2 ^ 52) / 2 ^ (1075 - bits.toNat / 2 ^ 52))
    | _ => none
  toUint_uint n hn := if_pos hn
  toUint_lt d n h := by
    split at h
    · split at h
      · cases h
        assumption
      · cases h
    · split at h
      · cases h
        omega
      · cases h
    · cases h

/-- A pool limit of zero is divided by before it is checked, and a grow threshold of zero
is accepted. -/
theorem document_divides_by_zero :
    profile plain (.object [("pool-limit".toList, .uint 0)]) = .error .division ∧
    ∃ p, profile plain (.object [("grow-threshold".toList, .uint 0)]) = .ok p ∧
      (Engine.rebalanceSlaves { profile := p } {}).1.failed = true :=
  ⟨by decide +kernel, { growThreshold := 0 }, by decide +kernel, by decide⟩

end Document

end Cocaine.Node
