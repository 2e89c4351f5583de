import Mathlib.Data.Nat.Bitwise
import CocainePlugins.Framework.Assoc
import CocainePlugins.Unicorn.Protect

/-!
# The lists that unicat alters

`auth::metainfo_t` is the list of `authorization::unicorn`, with operations that set
and unset flags. The unicorn backend of unicat finds the list of an entity by putting
the entity behind `/.acls`, `enabled_t` by the first component of a path: the two are
the same node for a path of one component only (`makeAclPath_eq_iff`).
-/

namespace Cocaine.Unicat

open Framework Unicorn

/-! ## Alterations -/

/-- `it->second = f(it->second)` where there is an entry. -/
def modify (p : Perms) (id : Subject) (f : Flags → Flags) : Perms where
  entries := p.entries.map fun e => if e.1 = id then (e.1, f e.2) else e
  nodup := by
    have h : (p.entries.map fun e => if e.1 = id then (e.1, f e.2) else e).map Prod.fst =
        p.entries.map Prod.fst := by
      rw [List.map_map]
      refine List.map_congr_left fun e _ => ?_
      simp only [Function.comp]
      split <;> rfl
    rw [h]
    exact p.nodup

def setFlags (flags : Flags) (p : Perms) (id : Subject) : Perms :=
  if id ∈ p.entries.map Prod.fst then modify p id (· ||| flags)
  else p.insert id (Flags.none ||| flags)

def setPerms (p : Perms) (ids : List Subject) (flags : Flags) : Perms := ids.foldl (setFlags flags) p

def unsetPerms (p : Perms) (ids : List Subject) (flags : Flags) : Perms :=
  ids.foldl (fun p id => modify p id (·.ldiff flags)) p

/-- `io::unicat::grant` and `io::unicat::revoke`. -/
inductive Operation where
  | grant | revoke
deriving DecidableEq, Repr

structure AlterData where
  cids : List Subject
  uids : List Subject
  flags : Flags
deriving DecidableEq

def alter (op : Operation) (m : Metainfo) (d : AlterData) : Metainfo :=
  match op with
  | .grant => ⟨setPerms m.cPerms d.cids d.flags, setPerms m.uPerms d.uids d.flags⟩
  | .revoke => ⟨unsetPerms m.cPerms d.cids d.flags, unsetPerms m.uPerms d.uids d.flags⟩

/-! ## What an alteration does to the flags -/

theorem lookup_modify (p : Perms) (id id' : Subject) (f : Flags → Flags) :
    (modify p id f).entries.lookup id' =
      (p.entries.lookup id').map fun x => if id' = id then f x else x := by
  have hl : ∀ l : List (Subject × Flags),
      (l.map fun e => if e.1 = id then (e.1, f e.2) else e).lookup id' =
        (l.lookup id').map fun x => if id' = id then f x else x := by
    intro l
    induction l with
    | nil => rfl
    | cons e l ih =>
      obtain ⟨key, flag⟩ := e
      have hkey : (if key = id then (key, f flag) else (key, flag)) =
          (key, if key = id then f flag else flag) := by split <;> rfl
      rw [List.map_cons, hkey, List.lookup_cons, List.lookup_cons, ih]
      by_cases hi : id' = key
      · subst hi
        simp
      · have hne : (id' == key) = false := by simpa using hi
        simp [hne]
  exact hl p.entries

theorem mem_of_lookup {p : Perms} {id : Subject} {x : Flags} (h : p.entries.lookup id = some x) :
    id ∈ p.entries.map Prod.fst := by
  by_contra hm
  rw [lookup_eq_none.mpr hm] at h
  cases h

theorem testBit_setFlags (flags : Flags) (p : Perms) (id id' : Subject) (bit : Nat) :
    ((setFlags flags p id).get id').testBit bit =
      ((p.get id').testBit bit || (decide (id' = id) && flags.testBit bit)) := by
  unfold setFlags
  split
  · rename_i hm
    rw [Perms.get, lookup_modify, Perms.get]
    rcases hx : p.entries.lookup id' with _ | x
    · have hne : id' ≠ id := by
        rintro rfl
        exact lookup_eq_none.mp hx hm
      simp [hne]
    · by_cases hi : id' = id <;> simp [hi, Nat.testBit_or]
  · rename_i hm
    rw [Perms.get, Perms.entries_insert hm, List.lookup_append, Perms.get]
    rcases hx : p.entries.lookup id' with _ | x
    · by_cases hi : id' = id
      · subst hi
        simp [Flags.none]
      · have hne : (id' == id) = false := by simpa using hi
        simp [List.lookup_cons, hi, hne]
    · have hne : id' ≠ id := by
        rintro rfl
        exact hm (mem_of_lookup hx)
      simp [hne]

theorem testBit_setPerms (p : Perms) (ids : List Subject) (flags : Flags) (id : Subject) (bit : Nat) :
    ((setPerms p ids flags).get id).testBit bit =
      ((p.get id).testBit bit || (decide (id ∈ ids) && flags.testBit bit)) := by
  induction ids generalizing p with
  | nil => simp [setPerms]
  | cons x ids ih =>
    have hs : setPerms p (x :: ids) flags = setPerms (setFlags flags p x) ids flags := rfl
    have hm : decide (id ∈ x :: ids) = (decide (id = x) || decide (id ∈ ids)) := by
      simp only [List.mem_cons, Bool.decide_or]
    rw [hs, ih, testBit_setFlags, hm]
    cases decide (id = x) <;> cases decide (id ∈ ids) <;> cases flags.testBit bit <;> simp

theorem testBit_unset (flags : Flags) (p : Perms) (id id' : Subject) (bit : Nat) :
    ((modify p id (·.ldiff flags)).get id').testBit bit =
      ((p.get id').testBit bit && !(decide (id' = id) && flags.testBit bit)) := by
  rw [Perms.get, lookup_modify, Perms.get]
  rcases p.entries.lookup id' with _ | x
  · simp [Flags.none]
  · by_cases hi : id' = id <;> simp [hi, Nat.testBit_ldiff]

theorem testBit_unsetPerms (p : Perms) (ids : List Subject) (flags : Flags) (id : Subject) (bit : Nat) :
    ((unsetPerms p ids flags).get id).testBit bit =
      ((p.get id).testBit bit && !(decide (id ∈ ids) && flags.testBit bit)) := by
  induction ids generalizing p with
  | nil => simp [unsetPerms]
  | cons x ids ih =>
    have hs : unsetPerms p (x :: ids) flags =
        unsetPerms (modify p x (·.ldiff flags)) ids flags := rfl
    have hm : decide (id ∈ x :: ids) = (decide (id = x) || decide (id ∈ ids)) := by
      simp only [List.mem_cons, Bool.decide_or]
    rw [hs, ih, testBit_unset, hm]
    cases decide (id = x) <;> cases decide (id ∈ ids) <;> cases flags.testBit bit <;> simp

/-- A grant to the clients of an identity lets it in. -/
theorem allows_grant {m : Metainfo} {d : AlterData} {i : Identity} {flag : Flags}
    (hf : ∀ bit, flag.testBit bit = true → Flags.both.testBit bit = true) (hne : i.cids ≠ [])
    (hsub : ∀ id ∈ i.cids, id ∈ d.cids) (hflags : ∀ bit, flag.testBit bit = true → d.flags.testBit bit = true) :
    (alter .grant m d).allows i flag = true := by
  rw [Metainfo.allows_iff _ i hf]
  refine fun bit hb => .inl ⟨hne, fun id hid => ?_⟩
  simp [alter, testBit_setPerms, hsub id hid, hflags bit hb]

/-- A revocation from a client and a user of an identity keeps it out. -/
theorem not_allows_revoke {m : Metainfo} {d : AlterData} {i : Identity} {flag : Flags}
    (hf : ∀ bit, flag.testBit bit = true → Flags.both.testBit bit = true) {bit : Nat}
    (hb : flag.testBit bit = true) (hflag : d.flags.testBit bit = true)
    (hc : i.cids ≠ [] → ∃ id ∈ i.cids, id ∈ d.cids) (hu : i.uids ≠ [] → ∃ id ∈ i.uids, id ∈ d.uids) :
    (alter .revoke m d).allows i flag = false := by
  rw [Bool.eq_false_iff, ne_eq, Metainfo.allows_iff _ i hf]
  intro h
  rcases h bit hb with ⟨hne, hall⟩ | ⟨hne, hall⟩
  · obtain ⟨id, hid, hd⟩ := hc hne
    have := hall id hid
    simp [alter, testBit_unsetPerms, hd, hflag] at this
  · obtain ⟨id, hid, hd⟩ := hu hne
    have := hall id hid
    simp [alter, testBit_unsetPerms, hd, hflag] at this

/-! ## Where a list is -/

def aclNode : Str := "/.acls".toList

def makeAclPath (path : Str) : Str := aclNode ++ path

theorem makeAclPath_eq_iff (path : Str) :
    makeAclPath path = aclPath (firstComponent path) ↔ path = '/' :: firstComponent path := by
  have hnode : aclNode = prefixAcls := rfl
  rw [makeAclPath, hnode, aclPath, List.append_cancel_left_eq]

/-- An alteration that was written is what `verify` decides with. -/
theorem verify_altered {t t' : Ztree Data} {path : Str} {m m' : Metainfo} {version : Int}
    {w : Versioned} (hk : firstComponent path ≠ []) (hs : Stored t (firstComponent path) (some m))
    (hp : perform t (.put (aclPath (firstComponent path)) m'.toDyn version) =
      some (t', .value (.put true w)))
    (hne : m'.empty = false) {event : Event} {flag : Flags} (hf : operationFrom event = some flag)
    (i : Identity) : (verify t' event path i).2 = .accepted ↔ m'.allows i flag = true := by
  obtain ⟨n, hn, -, hc⟩ := hs
  rcases perform_put_cases hp with ⟨n', w', -, hv, -, hn', -, ht⟩ | ⟨-, hno⟩
  · rw [hn] at hn'
    cases hn'
    have hnode : t'.node (aclPath (firstComponent path)) =
        some { n with data := serialize m'.toDyn, version := n.version + 1 } := by
      rw [ht, Function.update_self]
    have hs' : Stored t' (firstComponent path) (some m') := ⟨_, hnode, rfl, hc⟩
    obtain ⟨v, heq, -, -⟩ := verify_stored event i hk hv hs'
    rw [heq, decideAccess, hf]
    simp only [Option.getD_some, hne, Bool.false_eq_true, if_false]
    split
    · rename_i ha
      exact ⟨fun _ => ha, fun _ => rfl⟩
    · rename_i ha
      exact ⟨fun h => absurd h (by simp), fun h => absurd h ha⟩
  · exact absurd rfl (hno w)

/-- The node is the one that `enabled_t` looks at exactly for a path of one component. Then a grant
or a revocation that was written decides: whom it grants to is let in, and whom it revokes
from is kept out. -/
theorem acl_location_agrees {path : Str} (hk : firstComponent path ≠ []) :
    (makeAclPath path = aclPath (firstComponent path) ↔ path = '/' :: firstComponent path) ∧
    (path = '/' :: firstComponent path →
      ∀ (t t' : Ztree Data) (m : Metainfo) (op : Operation) (d : AlterData) (version : Int)
        (w : Versioned),
      Stored t (firstComponent path) (some m) →
      perform t (.put (makeAclPath path) (alter op m d).toDyn version) =
        some (t', .value (.put true w)) → (alter op m d).empty = false →
      ∀ (event : Event) (flag : Flags) (i : Identity), operationFrom event = some flag →
        ((verify t' event path i).2 = .accepted ↔ (alter op m d).allows i flag = true) ∧
        (op = .grant → i.cids ≠ [] → (∀ id ∈ i.cids, id ∈ d.cids) →
          (∀ bit, flag.testBit bit = true → d.flags.testBit bit = true) →
          (verify t' event path i).2 = .accepted) ∧
        (op = .revoke → (i.cids ≠ [] → ∃ id ∈ i.cids, id ∈ d.cids) →
          (i.uids ≠ [] → ∃ id ∈ i.uids, id ∈ d.uids) →
          (∃ bit, flag.testBit bit = true ∧ d.flags.testBit bit = true) →
          (verify t' event path i).2 ≠ .accepted)) := by
  refine ⟨makeAclPath_eq_iff path, fun hone t t' m op d version w hs hp hne event flag i hf => ?_⟩
  rw [(makeAclPath_eq_iff path).mpr hone] at hp
  have hiff := verify_altered hk hs hp hne hf i
  have hbits := testBit_of_operationFrom hf
  refine ⟨hiff, ?_, ?_⟩
  · rintro rfl hc hsub hflags
    exact hiff.mpr (allows_grant hbits hc hsub hflags)
  · rintro rfl hc hu ⟨bit, hb, hd⟩ hacc
    have hno := not_allows_revoke (m := m) hbits hb hd hc hu
    rw [hiff.mp hacc] at hno
    cases hno

/-- The owner grants a second client the right to read. -/
theorem acl_location_agrees_grant : ∃ t' w,
    perform ownedTree (.put (makeAclPath "/p".toList) (alter .grant ownersList ⟨[2], [], Flags.read⟩).toDyn 0) =
      some (t', .value (.put true w)) ∧
    (verify ownedTree .get "/p".toList { cids := [2] }).2 = .rejected .permissionDenied ∧
    (verify t' .get "/p".toList { cids := [2] }).2 = .accepted := by
  obtain ⟨⟨t', o⟩, hp⟩ : ∃ r, perform ownedTree
      (.put (makeAclPath "/p".toList) (alter .grant ownersList ⟨[2], [], Flags.read⟩).toDyn 0) = some r :=
    Option.isSome_iff_exists.mp (by decide +kernel)
  have ho : (perform ownedTree (.put (makeAclPath "/p".toList)
      (alter .grant ownersList ⟨[2], [], Flags.read⟩).toDyn 0)).map Prod.snd =
        some (.value (.put true ⟨(alter .grant ownersList ⟨[2], [], Flags.read⟩).toDyn, 1⟩)) := by
    decide +kernel
  rw [hp] at ho
  cases ho
  have hs : Stored ownedTree "p".toList (some ownersList) :=
    ⟨{ data := serialize ownersList.toDyn }, by decide +kernel, rfl, rfl⟩
  have hone : "/p".toList = '/' :: firstComponent "/p".toList := by decide
  refine ⟨t', _, hp, by decide +kernel, ?_⟩
  exact ((acl_location_agrees (by decide)).2 hone ownedTree t' ownersList
    .grant ⟨[2], [], Flags.read⟩ 0 _ hs hp (by decide +kernel) .get Flags.read { cids := [2] } rfl).2.1 rfl
    (by simp) (by simp) (fun _ h => h)

/-- For a path of two components the list that unicat writes is another one. -/
theorem acl_location_differs : firstComponent "/p/x".toList = "p".toList ∧
    (verify ownedTree .get "/p/x".toList { cids := [1] }).2 = .accepted ∧
    makeAclPath "/p/x".toList ≠ aclPath (firstComponent "/p/x".toList) := by
  refine ⟨rfl, by decide +kernel, by decide⟩

end Cocaine.Unicat
