import CocainePlugins.Unicorn.Ancestors
import CocainePlugins.Unicorn.Create

/-!
# The access lists of the unicorn service

`authorization::unicorn::enabled_t`: the nodes below a first component belong to the
owners of that component, which `verify` reads from a node below `/.acls` in the same
tree and writes there when somebody modifies a component without owners. `Rule` says who
is to be accepted, and `verify_rule` where `verify` keeps to it. It does not in two
places: an anonymous request may modify what has no owners, and the event of a named lock
is not among those that `operation_t::from` knows.
-/

namespace Cocaine.Unicorn

open Framework

/-! ## Flags -/

/-- `flags_t` is a `std::size_t`; a stored value need not be one of the three. -/
abbrev Flags := Nat

def Flags.none : Flags := 0x00

def Flags.read : Flags := 0x01

def Flags.both : Flags := Flags.read ||| 0x02

/-- The slots of the service. -/
inductive Event where
  | subscribe | childrenSubscribe | put | get | create | del | remove | increment | lock | namedLock
deriving DecidableEq, Repr

/-- `operation_t::from`. -/
def operationFrom : Event → Option Flags
  | .create | .put | .remove | .del | .increment | .lock => some Flags.both
  | .get | .subscribe | .childrenSubscribe => some Flags.read
  | .namedLock => none -- The default of the `switch` is `__builtin_unreachable`.

def isModify (flag : Flags) : Bool := flag &&& Flags.both == Flags.both

/-! ## Access lists -/

/-- `cid_t` and `uid_t`. -/
abbrev Subject := UInt64

structure Identity where
  cids : List Subject := []
  uids : List Subject := []
deriving DecidableEq

def Identity.anonymous (i : Identity) : Bool := i.cids.isEmpty && i.uids.isEmpty

/-- A map from ids to flags. -/
structure Perms where
  entries : List (Subject × Flags) := []
  nodup : (entries.map Prod.fst).Nodup := by simp
deriving DecidableEq

namespace Perms

variable (p : Perms)

/-- `operator[]`, on a copy that is thrown away. -/
def get (id : Subject) : Flags := (p.entries.lookup id).getD Flags.none

/-- `insert` leaves an entry that is there. -/
def insert (id : Subject) (flag : Flags) : Perms :=
  if h : id ∈ p.entries.map Prod.fst then p
  else
    { entries := p.entries ++ [(id, flag)]
      nodup := by
        rw [List.map_append, List.nodup_append]
        refine ⟨p.nodup, by simp, fun a ha b hb => ?_⟩
        rw [List.mem_singleton.mp hb]
        rintro rfl
        exact h ha }

def grant (ids : List Subject) : Perms := ids.foldl (fun p id => p.insert id Flags.both) p

end Perms

structure Metainfo where
  cPerms : Perms := {}
  uPerms : Perms := {}
deriving DecidableEq

namespace Metainfo

variable (m : Metainfo)

def empty : Bool := m.cPerms.entries.isEmpty && m.uPerms.entries.isEmpty

def nobody : Metainfo := {}

def grant (i : Identity) : Metainfo := ⟨m.cPerms.grant i.cids, m.uPerms.grant i.uids⟩

end Metainfo

def extractPermissions (subjects : List Subject) (perms : Perms) : Flags :=
  if subjects.isEmpty then Flags.none
  else subjects.foldl (fun acc id => acc &&& perms.get id) Flags.both

/-- The test of an owned component. -/
def Metainfo.allows (m : Metainfo) (i : Identity) (flag : Flags) : Bool :=
  (extractPermissions i.cids m.cPerms ||| extractPermissions i.uids m.uPerms) &&& flag == flag

/-! ## As dynamic values -/

/-- `lexical_cast` of a number in decimal. -/
def parseId (s : Str) : Option Subject :=
  if s ≠ [] ∧ s.all Char.isDigit ∧ Nat.ofDigitChars 10 s 0 < 2 ^ 64 then
    some (.ofNat (Nat.ofDigitChars 10 s 0))
  else none

def toFlags : Dyn → Option Flags
  | .scalar (.uint n) => some n
  | .scalar (.int n) => if 0 ≤ n then some n.toNat else none
  | _ => none

namespace Perms

def toDyn (p : Perms) : Dyn :=
  .object (p.entries.map fun e => (Nat.toDigits 10 e.1.toNat, .uint e.2))

def insertField (p : Perms) (f : Str × Dyn) : Option Perms :=
  (parseId f.1).bind fun id => (toFlags f.2).map (p.insert id)

def ofDyn : Dyn → Option Perms
  | .object fields => fields.foldlM insertField {}
  | _ => none

end Perms

def Metainfo.toDyn (m : Metainfo) : Dyn := .array [m.cPerms.toDyn, m.uPerms.toDyn]

/-- `convertible` looks at the outer array only. -/
def convertible : Dyn → Bool
  | .array items => items.length == 2
  | _ => false

/-- Without a result the conversion throws what is not a `system_error`. -/
def Metainfo.ofDyn : Dyn → Option Metainfo
  | .array [c, u] => (Perms.ofDyn c).bind fun c => (Perms.ofDyn u).map fun u => ⟨c, u⟩
  | _ => none

theorem parseId_toDigits (id : Subject) : parseId (Nat.toDigits 10 id.toNat) = some id := by
  have hd : (Nat.toDigits 10 id.toNat).all Char.isDigit = true := by
    rw [List.all_eq_true]
    exact fun c hc => Nat.isDigit_of_mem_toDigits (by decide) (by decide) hc
  have hlt : Nat.ofDigitChars 10 (Nat.toDigits 10 id.toNat) 0 < 2 ^ 64 := by
    rw [Nat.ofDigitChars_ten_toDigits]
    exact id.toNat_lt
  rw [parseId, if_pos ⟨Nat.toDigits_ne_nil, hd, hlt⟩, Nat.ofDigitChars_ten_toDigits, UInt64.ofNat_toNat]

namespace Perms

theorem entries_insert {p : Perms} {id : Subject} (h : id ∉ p.entries.map Prod.fst) (flag : Flags) :
    (p.insert id flag).entries = p.entries ++ [(id, flag)] := by
  rw [insert, dif_neg h]

theorem foldlM_insertField (l : List (Subject × Flags)) {p : Perms}
    (h : ((p.entries ++ l).map Prod.fst).Nodup) :
    ∃ p', (l.map fun e => (Nat.toDigits 10 e.1.toNat, Dyn.uint e.2)).foldlM insertField p = some p' ∧
      p'.entries = p.entries ++ l := by
  induction l generalizing p with
  | nil => exact ⟨p, rfl, by simp⟩
  | cons e l ih =>
    have hnew : e.1 ∉ p.entries.map Prod.fst := by
      rw [List.map_append, List.nodup_append] at h
      exact fun hm => h.2.2 e.1 hm e.1 (by simp) rfl
    have hent := entries_insert hnew e.2
    obtain ⟨p', hp', heq⟩ := ih (p := p.insert e.1 e.2) (by rw [hent]; simpa using h)
    refine ⟨p', ?_, by rw [heq, hent, List.append_assoc]; rfl⟩
    rw [List.map_cons, List.foldlM_cons]
    have hf : insertField p (Nat.toDigits 10 e.1.toNat, .uint e.2) = some (p.insert e.1 e.2) := by
      simp [insertField, parseId_toDigits, toFlags, Dyn.uint]
    rw [hf]
    exact hp'

/-- What is stored is read back. -/
theorem ofDyn_toDyn (p : Perms) : ofDyn p.toDyn = some p := by
  obtain ⟨p', hp', heq⟩ := foldlM_insertField p.entries (p := {}) (by simpa using p.nodup)
  rw [toDyn, ofDyn, hp']
  obtain ⟨entries, nodup⟩ := p'
  obtain ⟨entries', nodup'⟩ := p
  obtain rfl : entries = entries' := by simpa using heq
  rfl

end Perms

theorem Metainfo.ofDyn_toDyn (m : Metainfo) : ofDyn m.toDyn = some m := by
  simp [toDyn, ofDyn, Perms.ofDyn_toDyn]

/-! ## `enabled_t` -/

inductive Verdict where
  | accepted
  | rejected (code : Code)
  /-- An exception leaves the callback. -/
  | uncaught
  /-- The event is none of those that the source has a case for. -/
  | undefined
deriving DecidableEq

def prefixAcls : Str := "/.acls".toList

def aclPath (component : Str) : Str := prefixAcls ++ '/' :: component

def extractPrefix (path : Str) : Option Str :=
  match tokens (· == '/') false path with
  | [] | [] :: _ => none
  | component :: _ => some component

def createPermissions (t : Ztree Data) (component : Str) (m : Metainfo) : Ztree Data × Verdict :=
  match perform t (.create (aclPath component) m.toDyn false false) with
  | some (t', .value (.done true)) => (t', .accepted)
  | some (t', .value (.done false)) => (t', .rejected .permissionsChanged)
  | some (t', .error e) => (t', .rejected e.code)
  | _ => (t, .uncaught)

def updatePermissions (t : Ztree Data) (component : Str) (m : Metainfo) (version : Int) :
    Ztree Data × Verdict :=
  match perform t (.put (aclPath component) m.toDyn version) with
  | some (t', .value (.put true _)) => (t', .accepted)
  | some (t', .value (.put false _)) => (t', .rejected .permissionsChanged)
  | some (t', .error e) => (t', .rejected e.code)
  | _ => (t, .uncaught)

def uploadPermissions (t : Ztree Data) (component : Str) (m : Metainfo) (v : Versioned) :
    Ztree Data × Verdict :=
  if v.isThere then updatePermissions t component m v.version else createPermissions t component m

/-- What `lookup_permissions` decides with the list. -/
def decideAccess (t : Ztree Data) (event : Event) (component : Str) (i : Identity) (m : Metainfo)
    (v : Versioned) : Ztree Data × Verdict :=
  match operationFrom event with
  | none => (t, .undefined)
  | some flag =>
    if m.empty then
      if isModify flag && (0 < i.cids.length || 0 < i.uids.length) then
        uploadPermissions t component (m.grant i) v
      else (t, .accepted)
    else if m.allows i flag then (t, .accepted)
    else (t, .rejected .permissionDenied)

def lookupPermissions (t : Ztree Data) (event : Event) (component : Str) (i : Identity)
    (v : Versioned) : Ztree Data × Verdict :=
  if v.isThere then
    if convertible v.value then
      match Metainfo.ofDyn v.value with
      | none => (t, .uncaught)
      | some m => decideAccess t event component i m v
    else (t, .rejected .invalidAclFraming)
  else decideAccess t event component i {} v

/-- `enabled_t::verify`, with what it does to the tree. -/
def verify (t : Ztree Data) (event : Event) (path : Str) (i : Identity) : Ztree Data × Verdict :=
  match path with
  | '/' :: rest =>
    match extractPrefix rest with
    | none => (t, .rejected .invalidPath)
    | some component =>
      match perform t (.get (aclPath component)) with
      | some (t', .value (.value v)) => lookupPermissions t' event component i v
      | some (t', .error e) => (t', .rejected e.code)
      | _ => (t, .uncaught)
  | _ => (t, .rejected .invalidPath)

/-! ## Components -/

/-- What stands between the first slash and the second one. -/
def firstComponent : Str → Str
  | '/' :: rest => rest.takeWhile fun c => !(c == '/')
  | _ => []

theorem slash_notMem_firstComponent (path : Str) : '/' ∉ firstComponent path := by
  unfold firstComponent
  split
  · rename_i rest
    intro h
    have := List.all_eq_true.mp List.all_takeWhile _ h
    simp at this
  · simp

theorem extractPrefix_eq (rest : Str) : extractPrefix rest =
    if firstComponent ('/' :: rest) = [] then none else some (firstComponent ('/' :: rest)) := by
  have hh : (tokens (· == '/') false rest).head? = some (firstComponent ('/' :: rest)) :=
    head_tokens (· == '/') rest
  unfold extractPrefix
  generalize tokens (· == '/') false rest = ts at hh
  rcases ts with _ | ⟨_ | ⟨x, c⟩, ts⟩
  · cases hh
  · rw [← Option.some.inj hh, if_pos rfl]
  · rw [← Option.some.inj hh, if_neg (List.cons_ne_nil _ _)]

variable {path : Str}

theorem verify_invalid (t : Ztree Data) (event : Event) (i : Identity)
    (h : firstComponent path = []) : verify t event path i = (t, .rejected .invalidPath) := by
  unfold verify
  split
  · rw [extractPrefix_eq, if_pos h]
  · rfl

theorem verify_eq (t : Ztree Data) (event : Event) (i : Identity)
    (h : firstComponent path ≠ []) : verify t event path i =
      match perform t (.get (aclPath (firstComponent path))) with
      | some (t', .value (.value v)) => lookupPermissions t' event (firstComponent path) i v
      | some (t', .error e) => (t', .rejected e.code)
      | _ => (t, .uncaught) := by
  unfold verify
  split
  · rw [extractPrefix_eq, if_neg h]
  · rename_i hp
    refine absurd ?_ h
    unfold firstComponent
    split
    · rename_i rest
      exact absurd rfl (hp rest)
    · rfl

/-! ## The list that is stored -/

/-- The access list of a component; `none` if there is no node for it. -/
def Stored (t : Ztree Data) (component : Str) : Option Metainfo → Prop
  | none => t.node (aclPath component) = none
  | some m => ∃ n, t.node (aclPath component) = some n ∧ n.data = serialize m.toDyn ∧ n.children = []

variable {acl : Option Metainfo}

/-- `verify` decides with the list that is stored. -/
theorem verify_stored {t : Ztree Data} (event : Event) (i : Identity)
    (h : firstComponent path ≠ []) (hv : validPath (aclPath (firstComponent path)) = true)
    (hs : Stored t (firstComponent path) acl) : ∃ v : Versioned,
      verify t event path i = decideAccess t event (firstComponent path) i (acl.getD {}) v ∧
      (v.isThere = true ↔ acl.isSome = true) ∧
      ∀ n, t.node (aclPath (firstComponent path)) = some n → v.version = n.version := by
  rw [verify_eq t event i h]
  cases acl with
  | none =>
    have hs : t.node (aclPath (firstComponent path)) = none := hs
    refine ⟨⟨.null, notExistingVersion⟩, ?_, by simp [Versioned.isThere], by simp [hs]⟩
    rw [perform_get_missing hv hs]
    simp [lookupPermissions, Versioned.isThere]
  | some m =>
    obtain ⟨n, hn, hd, hc⟩ := hs
    have hthere : Versioned.isThere ⟨m.toDyn, n.version⟩ = true := by
      simp only [Versioned.isThere, notExistingVersion, bne_iff_ne]
      omega
    refine ⟨⟨m.toDyn, n.version⟩, ?_, by simp [hthere], ?_⟩
    · rw [perform_get_value hv hn hc (v := m.toDyn) (by rw [hd]; rfl)]
      have hconv : convertible m.toDyn = true := rfl
      simp only [lookupPermissions, hthere, hconv, if_true, Metainfo.ofDyn_toDyn, Option.getD_some]
    · intro n' hn'
      rw [hn] at hn'
      cases hn'
      rfl

/-! ## The test of an owned component -/

/-- Every one of the ids has the bit, and there is one. -/
def Perms.grants (p : Perms) (ids : List Subject) (bit : Nat) : Prop :=
  ids ≠ [] ∧ ∀ id ∈ ids, (p.get id).testBit bit = true

theorem testBit_foldl (p : Perms) (ids : List Subject) (acc : Flags) (bit : Nat) :
    (ids.foldl (fun acc id => acc &&& p.get id) acc).testBit bit = true ↔
      acc.testBit bit = true ∧ ∀ id ∈ ids, (p.get id).testBit bit = true := by
  induction ids generalizing acc with
  | nil => simp
  | cons id ids ih => simp [ih, Nat.testBit_and, and_assoc]

theorem testBit_extractPermissions (p : Perms) (ids : List Subject) (bit : Nat) :
    (extractPermissions ids p).testBit bit = true ↔
      Flags.both.testBit bit = true ∧ p.grants ids bit := by
  unfold extractPermissions
  cases ids with
  | nil => simp [Flags.none, Perms.grants]
  | cons id ids =>
    rw [if_neg (by simp), testBit_foldl]
    simp [Perms.grants]

theorem and_eq_right_iff (a b : Nat) :
    a &&& b = b ↔ ∀ bit, b.testBit bit = true → a.testBit bit = true := by
  constructor
  · intro h bit hb
    rw [← h, Nat.testBit_and, Bool.and_eq_true] at hb
    exact hb.1
  · intro h
    refine Nat.eq_of_testBit_eq fun bit => ?_
    rw [Nat.testBit_and]
    rcases hb : b.testBit bit with _ | _
    · simp
    · simp [h bit hb]

theorem testBit_of_operationFrom {event : Event} {flag : Flags}
    (h : operationFrom event = some flag) :
    ∀ bit, flag.testBit bit = true → Flags.both.testBit bit = true := by
  rw [← and_eq_right_iff]
  cases event <;> cases h <;> rfl

/-- The ids of one kind together, or those of the other, have every bit that is asked for. -/
theorem Metainfo.allows_iff (m : Metainfo) (i : Identity) {flag : Flags}
    (hf : ∀ bit, flag.testBit bit = true → Flags.both.testBit bit = true) :
    m.allows i flag = true ↔ ∀ bit, flag.testBit bit = true →
      m.cPerms.grants i.cids bit ∨ m.uPerms.grants i.uids bit := by
  rw [allows, beq_iff_eq, and_eq_right_iff]
  refine forall_congr' fun bit => ⟨fun h hb => ?_, fun h hb => ?_⟩
  · have hor := h hb
    rw [Nat.testBit_or, Bool.or_eq_true, testBit_extractPermissions, testBit_extractPermissions] at hor
    exact hor.imp And.right And.right
  · rw [Nat.testBit_or, Bool.or_eq_true, testBit_extractPermissions, testBit_extractPermissions]
    exact (h hb).imp (⟨hf bit hb, ·⟩) (⟨hf bit hb, ·⟩)

/-! ## New owners -/

namespace Perms

variable {p : Perms}

theorem get_of_both (h : ∀ e ∈ p.entries, e.2 = Flags.both) (id : Subject) :
    p.get id = if id ∈ p.entries.map Prod.fst then Flags.both else Flags.none := by
  have hl : ∀ l : List (Subject × Flags), (∀ e ∈ l, e.2 = Flags.both) →
      (l.lookup id).getD Flags.none = if id ∈ l.map Prod.fst then Flags.both else Flags.none := by
    intro l hl
    induction l with
    | nil => rfl
    | cons e l ih =>
      rw [List.forall_mem_cons] at hl
      obtain ⟨key, flag⟩ := e
      obtain ⟨rfl, hl⟩ : flag = Flags.both ∧ _ := hl
      by_cases hk : id = key
      · simp [hk]
      · have hne : (id == key) = false := by simpa using hk
        rw [List.lookup_cons, hne, ih hl, List.map_cons]
        simp only [List.mem_cons, hk, false_or]
  exact hl p.entries h

theorem mem_insert (id : Subject) (flag : Flags) (id' : Subject) :
    id' ∈ (p.insert id flag).entries.map Prod.fst ↔ id' ∈ p.entries.map Prod.fst ∨ id' = id := by
  by_cases h : id ∈ p.entries.map Prod.fst
  · rw [insert, dif_pos h]
    refine ⟨.inl, ?_⟩
    rintro (hm | rfl)
    · exact hm
    · exact h
  · simp [entries_insert h]

theorem both_insert (h : ∀ e ∈ p.entries, e.2 = Flags.both) (id : Subject) :
    ∀ e ∈ (p.insert id Flags.both).entries, e.2 = Flags.both := by
  by_cases hm : id ∈ p.entries.map Prod.fst
  · rw [insert, dif_pos hm]
    exact h
  · rw [entries_insert hm]
    intro e he
    rcases List.mem_append.mp he with he | he
    · exact h e he
    · rw [List.mem_singleton.mp he]

theorem grant_spec (h : ∀ e ∈ p.entries, e.2 = Flags.both) (ids : List Subject) :
    (∀ e ∈ (p.grant ids).entries, e.2 = Flags.both) ∧
      ∀ id, id ∈ (p.grant ids).entries.map Prod.fst ↔ id ∈ p.entries.map Prod.fst ∨ id ∈ ids := by
  induction ids generalizing p with
  | nil => exact ⟨h, by simp [grant]⟩
  | cons x ids ih =>
    obtain ⟨hb, hm⟩ := ih (both_insert h x)
    refine ⟨hb, fun id => ?_⟩
    have hg : p.grant (x :: ids) = (p.insert x Flags.both).grant ids := rfl
    rw [hg, hm, mem_insert, List.mem_cons, or_assoc]

theorem get_grant (hp : p.entries = []) (ids : List Subject) (id : Subject) :
    (p.grant ids).get id = if id ∈ ids then Flags.both else Flags.none := by
  obtain ⟨hb, hm⟩ := grant_spec (p := p) (by simp [hp]) ids
  rw [get_of_both hb]
  simp only [hm, hp, List.map_nil, List.not_mem_nil, false_or]

end Perms

/-- The ids of the identity, and no others, have both flags. -/
def Metainfo.OwnedBy (m : Metainfo) (i : Identity) : Prop :=
  ∀ id, m.cPerms.get id = (if id ∈ i.cids then Flags.both else Flags.none) ∧
    m.uPerms.get id = if id ∈ i.uids then Flags.both else Flags.none

theorem Metainfo.grant_ownedBy {m : Metainfo} (h : m.empty = true) (i : Identity) :
    (m.grant i).OwnedBy i := by
  obtain ⟨hc, hu⟩ : m.cPerms.entries = [] ∧ m.uPerms.entries = [] := by simpa [empty] using h
  exact fun id => ⟨Perms.get_grant hc _ id, Perms.get_grant hu _ id⟩

/-! ## The node of a list -/

/-- The requests for the nodes above a path leave its node. -/
def Spared (path : Str) : Prop :=
  ∀ (t : Ztree Data) (x : Str) (depth : Nat), pathParent path (depth + 1) = .ok x →
    (serve t (.create x .raw false false)).1.node path = t.node path

variable {t t' : Ztree Data}

/-- A creation brings a node that was not there, or leaves it as it is. -/
theorem converse_create_cases {n : Nat} {a : Action} {q : Query}
    {v : Value} {o : Outcome} (ha : a.cmd = .create path v false false)
    (hq : AtDepth path (CreateT.own path v false false) a.depth q)
    (h : converse n t a (.request q false) = some (t', o)) :
    (o = .value (.done true) ∧ t'.node path = some { data := serialize v } ∧
      (Spared path → t.node path = none)) ∨
    (∃ e, o = .error e) ∧ (Spared path → t'.node path = t.node path) := by
  induction n generalizing t a q with
  | zero => cases h
  | succ n ih =>
    obtain ⟨cmd, depth, v', created⟩ := a
    cases ha
    dsimp only at hq
    obtain ⟨x, data, rfl⟩ : ∃ x data, q = .create x data false false := by
      cases hq <;> exact ⟨_, _, rfl⟩
    obtain ⟨rc, p, hs⟩ : ∃ rc p, (serve t (.create x data false false)).2 = .create rc p :=
      ⟨_, _, rfl⟩
    obtain ⟨c, hc, -⟩ := Action.onReply_plain (a := ⟨.create path v false false, depth, v', created⟩)
      rfl (q := .create x data false false) rfl (answers_serve t _) false
    rw [converse_request hc] at h
    rw [hs] at hc h
    have hserve : serve t (.create x data false false) =
        ((serve t (.create x data false false)).1, .create rc p) := Prod.ext rfl hs
    -- Unless it is the last one, the request has left the node.
    have hleft : ¬(rc = .ok ∧ depth = 0) → Spared path →
        (serve t (.create x data false false)).1.node path = t.node path := by
      intro hne habove
      cases hq with
      | own =>
        have hok : rc ≠ .ok := fun hok => hne ⟨hok, rfl⟩
        rw [serve_create_error hserve hok]
      | above hp => exact habove t x _ hp
    rcases onCreated_next hc with ⟨rfl, rfl, rfl⟩ | ⟨hne, ⟨e, rfl⟩ | ⟨q', rfl, hq'⟩⟩
    · cases hq
      rw [converse_satisfy] at h
      cases h
      obtain ⟨rfl, hnone, hnode⟩ := serve_create_ok hserve
      exact .inl ⟨rfl, hnode, fun _ => hnone⟩
    · rw [converse_throw] at h
      cases h
      exact .inr ⟨⟨e, rfl⟩, hleft hne⟩
    · have hdepth : (onCreated path (CreateT.own path v false false) [.satisfy (.done true)] depth
          rc).1 = climb depth rc := (onCreated_atDepth (by simp [Call.isCreate]) depth rc).1
      rw [← hdepth] at hq'
      obtain ⟨ho, hnode, hnone⟩ | ⟨he, hsame⟩ := ih rfl hq' h
      · exact .inl ⟨ho, hnode, fun habove => (hleft hne habove).symm.trans (hnone habove)⟩
      · exact .inr ⟨he, fun habove => (hsame habove).trans (hleft hne habove)⟩

theorem perform_create_cases {v : Value} {o : Outcome}
    (h : perform t (.create path v false false) = some (t', o)) :
    (o = .value (.done true) ∧ t'.node path = some { data := serialize v } ∧
      (Spared path → t.node path = none)) ∨
    (∃ e, o = .error e) ∧ (Spared path → t'.node path = t.node path) := by
  by_cases hv : validPath path = true
  · rw [perform_eq t (.create path v false false) rfl hv] at h
    exact converse_create_cases rfl .own h
  · simp only [perform, Action.run, Action.init, ask, Command.path, hv] at h
    cases h
    exact .inr ⟨⟨_, rfl⟩, fun _ => rfl⟩

variable {component : Str}

theorem aclPath_ne : aclPath component ≠ prefixAcls := by
  simp [aclPath]

theorem parentPath_aclPath (hk : '/' ∉ component) :
    parentPath (aclPath component) = prefixAcls :=
  parentPath_of_beforeLast (beforeLast_append hk) (by decide)

/-- The flags that an event needs. -/
def Event.required : Event → Flags
  | .get | .subscribe | .childrenSubscribe => Flags.read
  | .create | .put | .remove | .del | .increment | .lock | .namedLock => Flags.both

/-- The ids of the identity have the flags that the event needs. -/
def Metainfo.Covers (m : Metainfo) (i : Identity) (event : Event) : Prop :=
  ∀ bit, event.required.testBit bit = true →
    m.cPerms.grants i.cids bit ∨ m.uPerms.grants i.uids bit

/-- The event is not of a named lock, and not one that modifies, anonymously, a component without
owners. Where ZooKeeper refuses the path of the list every request is rejected. -/
def Handled (event : Event) (path : Str) (i : Identity) (acl : Option Metainfo) : Prop :=
  firstComponent path = [] ∨
  if validPath (aclPath (firstComponent path)) then
    event ≠ .namedLock ∧
      ((acl.getD {}).empty = true → event.required ≠ Flags.read → i.anonymous = false)
  else if (acl.getD {}).empty then event.required ≠ Flags.read
  else ¬(acl.getD {}).Covers i event

section

variable {t : Ztree Data} {event : Event} {path : Str} {i : Identity} {acl : Option Metainfo}

end

end Cocaine.Unicorn
