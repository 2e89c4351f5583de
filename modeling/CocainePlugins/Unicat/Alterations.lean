import Mathlib.Data.List.Induction
import CocainePlugins.Unicat.Metainfo

/-!
# Alterations one after the other

A grant sets bits and a revocation unsets them, for the clients and for the users of the list
alone. So after any number of alterations the bit of an id is as the last one that was about it
has left it, and the record of an id that none was about is as it was.
-/

namespace Cocaine.Unicat

open Framework Unicorn

/-- What an alteration does to the clients, or to the users. -/
def alterPerms (op : Operation) (p : Perms) (ids : List Subject) (flags : Flags) : Perms :=
  match op with
  | .grant => setPerms p ids flags
  | .revoke => unsetPerms p ids flags

theorem alter_eq (op : Operation) (m : Metainfo) (d : AlterData) :
    alter op m d = ⟨alterPerms op m.cPerms d.cids d.flags, alterPerms op m.uPerms d.uids d.flags⟩ := by
  cases op with
  | grant | revoke => rfl

/-! ## One alteration -/

theorem testBit_alterPerms (op : Operation) (p : Perms) (ids : List Subject) (flags : Flags)
    (id : Subject) (bit : Nat) :
    ((alterPerms op p ids flags).get id).testBit bit =
      if id ∈ ids ∧ flags.testBit bit = true then decide (op = .grant) else (p.get id).testBit bit := by
  cases op with
  | grant =>
    rw [alterPerms, testBit_setPerms]
    by_cases hid : id ∈ ids <;> cases hb : flags.testBit bit <;> simp [hid]
  | revoke =>
    rw [alterPerms, testBit_unsetPerms]
    by_cases hid : id ∈ ids <;> cases hb : flags.testBit bit <;> simp [hid]

theorem lookup_modify_ne {p : Perms} {id id' : Subject} (f : Flags → Flags) (h : id' ≠ id) :
    (modify p id f).entries.lookup id' = p.entries.lookup id' := by
  rw [lookup_modify]
  simp [h]

theorem lookup_setFlags_ne {p : Perms} {flags : Flags} {id id' : Subject} (h : id' ≠ id) :
    (setFlags flags p id).entries.lookup id' = p.entries.lookup id' := by
  unfold setFlags
  split
  · exact lookup_modify_ne _ h
  · rename_i hm
    have hbeq : (id' == id) = false := beq_eq_false_iff_ne.mpr h
    rw [Perms.entries_insert hm, List.lookup_append]
    simp [List.lookup_cons, hbeq]

/-- An operation on each of the ids leaves the records of the others. -/
theorem lookup_foldl_ne {f : Perms → Subject → Perms} {id : Subject}
    (hf : ∀ p x, id ≠ x → (f p x).entries.lookup id = p.entries.lookup id) {ids : List Subject}
    (h : id ∉ ids) (p : Perms) : (ids.foldl f p).entries.lookup id = p.entries.lookup id := by
  induction ids generalizing p with
  | nil => rfl
  | cons x ids ih =>
    rw [List.mem_cons, not_or] at h
    rw [List.foldl_cons, ih h.2, hf p x h.1]

theorem lookup_alterPerms_ne (op : Operation) (p : Perms) {ids : List Subject} (flags : Flags)
    {id : Subject} (h : id ∉ ids) :
    (alterPerms op p ids flags).entries.lookup id = p.entries.lookup id := by
  cases op with
  | grant => exact lookup_foldl_ne (fun p x hx => lookup_setFlags_ne hx) h p
  | revoke => exact lookup_foldl_ne (fun p x hx => lookup_modify_ne _ hx) h p

/-! ## Any number of them -/

def alterAll (m : Metainfo) (as : List (Operation × AlterData)) : Metainfo :=
  as.foldl (fun m a => alter a.1 m a.2) m

/-- The last alteration with the id, in `cids` or in `uids`, and the bit in its flags. -/
def lastOn (ids : AlterData → List Subject) (id : Subject) (bit : Nat)
    (as : List (Operation × AlterData)) : Option Operation :=
  (as.reverse.find? fun a => decide (id ∈ ids a.2) && a.2.flags.testBit bit).map Prod.fst

theorem lastOn_concat (ids : AlterData → List Subject) (id : Subject) (bit : Nat)
    (as : List (Operation × AlterData)) (a : Operation × AlterData) :
    lastOn ids id bit (as ++ [a]) =
      if id ∈ ids a.2 ∧ a.2.flags.testBit bit = true then some a.1 else lastOn ids id bit as := by
  rw [lastOn, List.reverse_append, List.reverse_singleton, List.singleton_append, List.find?_cons]
  by_cases h : id ∈ ids a.2 ∧ a.2.flags.testBit bit = true
  · simp [h.1, h.2]
  · have hb : (decide (id ∈ ids a.2) && a.2.flags.testBit bit) = false := by
      rw [Bool.eq_false_iff]
      simpa using h
    rw [hb, if_neg h, lastOn]

/-- The clients and the users alike: `perms` is one of the two lists of ids, and `ids` what an
alteration has for it. -/
structure Side (perms : Metainfo → Perms) (ids : AlterData → List Subject) : Prop where
  altered : ∀ op m d, perms (alter op m d) = alterPerms op (perms m) (ids d) d.flags

theorem Side.clients : Side Metainfo.cPerms AlterData.cids := ⟨fun op m d => by rw [alter_eq]⟩

theorem Side.users : Side Metainfo.uPerms AlterData.uids := ⟨fun op m d => by rw [alter_eq]⟩

namespace Side

variable {perms : Metainfo → Perms} {ids : AlterData → List Subject}

theorem testBit_alterAll (h : Side perms ids) (m : Metainfo) (as : List (Operation × AlterData))
    (id : Subject) (bit : Nat) : ((perms (alterAll m as)).get id).testBit bit = true ↔
      lastOn ids id bit as = some .grant ∨
      lastOn ids id bit as = none ∧ ((perms m).get id).testBit bit = true := by
  -- The induction takes off the last alteration, which is the one that may decide.
  induction as using List.reverseRecOn with
  | nil => simp [alterAll, lastOn]
  | append_singleton as a ih =>
    have hstep : alterAll m (as ++ [a]) = alter a.1 (alterAll m as) a.2 := by
      rw [alterAll, List.foldl_append]
      rfl
    rw [hstep, h.altered, testBit_alterPerms, lastOn_concat]
    split
    · simp
    · exact ih

theorem lookup_alterAll (h : Side perms ids) {as : List (Operation × AlterData)} {id : Subject}
    (hno : ∀ a ∈ as, id ∉ ids a.2) (m : Metainfo) :
    (perms (alterAll m as)).entries.lookup id = (perms m).entries.lookup id := by
  induction as generalizing m with
  | nil => rfl
  | cons a as ih =>
    rw [List.forall_mem_cons] at hno
    have hstep : alterAll m (a :: as) = alterAll (alter a.1 m a.2) as := rfl
    rw [hstep, ih hno.2, h.altered, lookup_alterPerms_ne a.1 _ _ hno.1]

end Side

/-- The bit of an id is set exactly if the last alteration about it was a grant, or there was none
and it was set before; the record of an id that no alteration has is the one of before. -/
theorem last_alteration_decides (m : Metainfo) (as : List (Operation × AlterData)) (id : Subject) :
    (∀ bit, (((alterAll m as).cPerms.get id).testBit bit = true ↔
        lastOn AlterData.cids id bit as = some .grant ∨
        lastOn AlterData.cids id bit as = none ∧ (m.cPerms.get id).testBit bit = true) ∧
      (((alterAll m as).uPerms.get id).testBit bit = true ↔
        lastOn AlterData.uids id bit as = some .grant ∨
        lastOn AlterData.uids id bit as = none ∧ (m.uPerms.get id).testBit bit = true)) ∧
    ((∀ a ∈ as, id ∉ a.2.cids) →
      (alterAll m as).cPerms.entries.lookup id = m.cPerms.entries.lookup id) ∧
    ((∀ a ∈ as, id ∉ a.2.uids) →
      (alterAll m as).uPerms.entries.lookup id = m.uPerms.entries.lookup id) :=
  ⟨fun bit => ⟨Side.clients.testBit_alterAll m as id bit, Side.users.testBit_alterAll m as id bit⟩,
    fun h => Side.clients.lookup_alterAll h m, fun h => Side.users.lookup_alterAll h m⟩

/-- A client that has got both flags, twice, and lost the right to read. -/
theorem last_alteration_decides_revoke :
    let as : List (Operation × AlterData) :=
      [(.grant, ⟨[2, 2], [], Flags.both⟩), (.revoke, ⟨[2, 3], [], Flags.read⟩)]
    ((alterAll ownersList as).cPerms.get 2).testBit 1 = true ∧
    ((alterAll ownersList as).cPerms.get 2).testBit 0 = false ∧
    (alterAll ownersList as).cPerms.entries.lookup 1 = ownersList.cPerms.entries.lookup 1 := by
  refine ⟨((last_alteration_decides _ _ 2).1 1).1.mpr (.inl (by decide)), ?_,
    (last_alteration_decides _ _ 1).2.1 (by decide)⟩
  rw [Bool.eq_false_iff, ne_eq, ((last_alteration_decides _ _ 2).1 0).1]
  decide

end Cocaine.Unicat
