import Mathlib.Data.List.AList
import Mathlib.Logic.Function.Basic
import CocainePlugins.Framework.Recency
import CocainePlugins.Framework.Text

/-!
# The cache

`lru_cache` has a list of its items and a map from the keys to iterators of the list. An iterator
stands here for its node, so that the nodes keep theirs when the list is spliced, and following an
iterator whose node is gone is undefined.

The reference has no list and no map: it remembers every use of a key and the last value that was
put, and keeps the most recently used keys. The cache does what the reference does, whatever the
calls are, and never follows an iterator whose node is gone.
-/

namespace Cocaine.Cache

open Framework

variable {κ ν : Type} [DecidableEq κ]

/-! ## lru_cache -/

structure Node (κ ν : Type) where
  it : Nat
  key : κ
  value : ν
deriving DecidableEq, Repr

structure LruCache (κ ν : Type) where
  maxSize : Nat
  list : List (Node κ ν) := []
  map : AList fun _ : κ => Nat := ∅
  /-- The iterator of the next node. -/
  next : Nat := 0

namespace LruCache

variable (s : LruCache κ ν)

def deref (it : Nat) : Option (Node κ ν) := s.list.find? fun x => x.it = it

def unlink (it : Nat) : List (Node κ ν) := s.list.filter fun x => x.it ≠ it

/-- The first part of `put`. -/
def drop (key : κ) : Option (LruCache κ ν) :=
  match s.map.lookup key with
  | none => some s
  | some it => (s.deref it).map fun _ => { s with list := s.unlink it, map := s.map.erase key }

def pushFront (key : κ) (value : ν) : LruCache κ ν :=
  { s with
    list := ⟨s.next, key, value⟩ :: s.list
    map := s.map.insert key s.next
    next := s.next + 1 }

/-- The last part of `put`. -/
def trim : Option (LruCache κ ν) :=
  if s.map.entries.length > s.maxSize then
    s.list.getLast?.map fun last =>
      { s with map := s.map.erase last.key, list := s.list.dropLast }
  else some s

def put (key : κ) (value : ν) : Option (LruCache κ ν) :=
  (s.drop key).bind fun s => (s.pushFront key value).trim

/-- `get`, which throws a `std::range_error` when the key is not there. -/
def get (key : κ) : Option (LruCache κ ν × Except Str ν) :=
  match s.map.lookup key with
  | none => some (s, .error "there is no such key in cache".toList)
  | some it => (s.deref it).map fun x => ({ s with list := x :: s.unlink it }, .ok x.value)

def existsKey (key : κ) : Bool := (s.map.lookup key).isSome

/-- `cache_t::get`, where `empty` is the empty string. -/
def serviceGet (empty : ν) (key : κ) : Option (LruCache κ ν × Except Str (Bool × ν)) :=
  if s.existsKey key then (s.get key).map fun p => (p.1, p.2.map fun value => (true, value))
  else some (s, .ok (false, empty))

end LruCache

inductive Call (κ ν : Type) where
  | put (key : κ) (value : ν)
  | get (key : κ)
  | exists (key : κ)

inductive Reply (ν : Type) where
  | done
  | got (result : Except Str ν)
  | found (there : Bool)

namespace LruCache

variable (s : LruCache κ ν)

def call : Call κ ν → Option (LruCache κ ν × Reply ν)
  | .put key value => (s.put key value).map fun s => (s, .done)
  | .get key => (s.get key).map fun p => (p.1, .got p.2)
  | .exists key => some (s, .found (s.existsKey key))

def calls : LruCache κ ν → List (Call κ ν) → Option (LruCache κ ν × List (Reply ν))
  | s, [] => some (s, [])
  | s, c :: cs => (s.call c).bind fun p => (calls p.1 cs).map fun q => (q.1, p.2 :: q.2)

end LruCache

/-! ## The reference -/

structure Reference (κ ν : Type) where
  /-- The keys that were put or got, newest first. -/
  uses : List κ := []
  /-- What was put last. -/
  values : κ → Option ν := fun _ => none

namespace Reference

variable (n : Nat) (r : Reference κ ν)

/-- The keys of a cache of `n` items. -/
def kept : List κ := recent n r.uses

def find (key : κ) : Option ν := if key ∈ r.kept n then r.values key else none

def contents : List (κ × ν) :=
  (r.kept n).filterMap fun key => (r.values key).map fun value => (key, value)

def use (key : κ) : Reference κ ν := { r with uses := key :: r.uses }

def call : Call κ ν → Reference κ ν × Reply ν
  | .put key value =>
    ({ r.use key with values := Function.update r.values key (some value) }, .done)
  | .get key =>
    match r.find n key with
    | some value => (r.use key, .got (.ok value))
    | none => (r, .got (.error "there is no such key in cache".toList))
  | .exists key => (r, .found (r.find n key).isSome)

def calls : Reference κ ν → List (Call κ ν) → Reference κ ν × List (Reply ν)
  | r, [] => (r, [])
  | r, c :: cs =>
    let p := r.call n c
    let q := calls p.1 cs
    (q.1, p.2 :: q.2)

end Reference

/-! ## The list and the map -/

/-- The map has the iterator of each node under the key of the node, and nothing else. -/
structure Linked (list : List (Node κ ν)) (map : AList fun _ : κ => Nat) : Prop where
  keys : (list.map Node.key).Nodup
  its : (list.map Node.it).Nodup
  lookup : ∀ key it, map.lookup key = some it ↔ ∃ x ∈ list, x.key = key ∧ x.it = it

namespace Linked

variable {list : List (Node κ ν)} {map : AList fun _ : κ => Nat}

theorem nil : Linked ([] : List (Node κ ν)) ∅ := ⟨List.nodup_nil, List.nodup_nil, by simp⟩

theorem mem_map_iff (h : Linked list map) (key : κ) : key ∈ map ↔ key ∈ list.map Node.key := by
  rw [← AList.lookup_isSome, Option.isSome_iff_exists, List.mem_map]
  constructor
  · rintro ⟨it, hit⟩
    obtain ⟨x, hx, hkey, -⟩ := (h.lookup key it).mp hit
    exact ⟨x, hx, hkey⟩
  · rintro ⟨x, hx, hkey⟩
    exact ⟨x.it, (h.lookup key x.it).mpr ⟨x, hx, hkey, rfl⟩⟩

theorem length_eq (h : Linked list map) : map.entries.length = list.length := by
  have hperm : map.keys.Perm (list.map Node.key) := by
    rw [List.perm_ext_iff_of_nodup map.keys_nodup h.keys]
    exact fun key => h.mem_map_iff key
  have hlen := hperm.length_eq
  rwa [AList.keys, List.keys, List.length_map, List.length_map] at hlen

theorem perm {list' : List (Node κ ν)} (h : Linked list map) (hp : list.Perm list') :
    Linked list' map where
  keys := (hp.map Node.key).nodup_iff.mp h.keys
  its := (hp.map Node.it).nodup_iff.mp h.its
  lookup key it := by
    rw [h.lookup]
    exact exists_congr fun x => and_congr_left fun _ => hp.mem_iff

theorem it_eq_iff (h : Linked list map) {x y : Node κ ν} (hx : x ∈ list) (hy : y ∈ list) :
    x.it = y.it ↔ x.key = y.key := by
  constructor
  · intro he
    rw [List.inj_on_of_nodup_map h.its hx hy he]
  · intro he
    rw [List.inj_on_of_nodup_map h.keys hx hy he]

variable {x : Node κ ν}

theorem remove (h : Linked list map) (hx : x ∈ list) :
    Linked (list.filter fun y => y.it ≠ x.it) (map.erase x.key) where
  keys := h.keys.sublist (List.filter_sublist.map _)
  its := h.its.sublist (List.filter_sublist.map _)
  lookup key it := by
    by_cases hk : key = x.key
    · subst hk
      rw [AList.lookup_erase]
      refine iff_of_false (by simp) ?_
      rintro ⟨y, hy, hkey, -⟩
      rw [List.mem_filter, decide_eq_true_eq] at hy
      exact hy.2 ((h.it_eq_iff hy.1 hx).mpr hkey)
    · rw [AList.lookup_erase_ne hk, h.lookup]
      refine exists_congr fun y => ?_
      rw [List.mem_filter, decide_eq_true_eq, and_assoc]
      refine and_congr_right fun hy => (and_iff_right_of_imp ?_).symm
      rintro ⟨rfl, -⟩ he
      exact hk ((h.it_eq_iff hy hx).mp he)

theorem push (h : Linked list map) {it : Nat} {key : κ} (value : ν) (hit : ∀ x ∈ list, x.it ≠ it)
    (hkey : key ∉ list.map Node.key) : Linked (⟨it, key, value⟩ :: list) (map.insert key it) where
  keys := List.nodup_cons.mpr ⟨hkey, h.keys⟩
  its := by
    refine List.nodup_cons.mpr ⟨fun hm => ?_, h.its⟩
    obtain ⟨x, hx, he⟩ := List.mem_map.mp hm
    exact hit x hx he
  lookup key' it' := by
    rw [List.exists_mem_cons_iff]
    by_cases hk : key' = key
    · subst hk
      rw [AList.lookup_insert, Option.some.injEq]
      refine ⟨fun he => .inl ⟨rfl, he⟩, ?_⟩
      rintro (⟨-, he⟩ | ⟨x, hx, hxk, -⟩)
      · exact he
      · exact absurd (List.mem_map.mpr ⟨x, hx, hxk⟩) hkey
    · rw [AList.lookup_insert_ne hk, h.lookup]
      exact ⟨.inr, fun hor => hor.resolve_left fun hx => hk hx.1.symm⟩

theorem map_key_remove (h : Linked list map) (hx : x ∈ list) :
    (list.filter fun y => y.it ≠ x.it).map Node.key = (list.map Node.key).erase x.key := by
  rw [h.keys.erase_eq_filter, List.filter_map]
  congr 1
  refine List.filter_congr fun y hy => ?_
  have hiff := not_congr (h.it_eq_iff hy hx)
  by_cases hk : y.key = x.key <;> simp_all

theorem perm_front (h : Linked list map) (hx : x ∈ list) :
    list.Perm (x :: list.filter fun y => y.it ≠ x.it) := by
  have hnot : x ∉ list.filter fun y => y.it ≠ x.it := by simp
  rw [List.perm_ext_iff_of_nodup h.its.of_map
    (List.nodup_cons.mpr ⟨hnot, (h.its.of_map).sublist List.filter_sublist⟩)]
  intro y
  rw [List.mem_cons, List.mem_filter, decide_eq_true_eq]
  constructor
  · intro hy
    by_cases he : y.it = x.it
    · exact .inl (List.inj_on_of_nodup_map h.its hy hx he)
    · exact .inr ⟨hy, he⟩
  · rintro (rfl | ⟨hy, -⟩)
    · exact hx
    · exact hy

theorem deref (h : Linked list map) (hx : x ∈ list) :
    (list.find? fun y => y.it = x.it) = some x := by
  cases hf : list.find? fun y => y.it = x.it with
  | none =>
    have := List.find?_eq_none.mp hf x hx
    simp at this
  | some y =>
    have hit : y.it = x.it := by simpa using List.find?_some hf
    rw [List.inj_on_of_nodup_map h.its (List.mem_of_find?_eq_some hf) hx hit]

theorem filter_last {init : List (Node κ ν)} {last : Node κ ν} (h : Linked (init ++ [last]) map) :
    (init ++ [last]).filter (fun y => y.it ≠ last.it) = init := by
  have hlast : last.it ∉ init.map Node.it := by
    have hits := h.its
    rw [List.map_append, List.map_singleton, ← List.concat_eq_append, List.nodup_concat] at hits
    exact hits.1
  rw [List.filter_append, List.filter_eq_self.mpr]
  · simp
  · intro y hy
    rw [decide_eq_true_eq]
    exact fun he => hlast (he ▸ List.mem_map_of_mem hy)

end Linked

/-! ## The parts of a call -/

namespace LruCache

variable {s : LruCache κ ν}

/-- Following an iterator of the map leads to the node of the key. -/
theorem deref_of_lookup (h : Linked s.list s.map) {key : κ} {it : Nat}
    (hl : s.map.lookup key = some it) :
    ∃ x ∈ s.list, x.key = key ∧ x.it = it ∧ s.deref it = some x := by
  obtain ⟨x, hx, hkey, rfl⟩ := (h.lookup key it).mp hl
  exact ⟨x, hx, hkey, rfl, h.deref hx⟩

theorem drop_spec (h : Linked s.list s.map) (key : κ) : ∃ list map,
    s.drop key = some { s with list := list, map := map } ∧ Linked list map ∧
    list.map Node.key = (s.list.map Node.key).erase key ∧ ∀ x ∈ list, x ∈ s.list := by
  unfold drop
  cases hl : s.map.lookup key with
  | none =>
    have hkey : key ∉ s.list.map Node.key := by
      rw [← h.mem_map_iff, ← AList.lookup_isSome, hl]
      simp
    exact ⟨s.list, s.map, rfl, h, (List.erase_of_not_mem hkey).symm, fun x hx => hx⟩
  | some it =>
    obtain ⟨x, hx, rfl, rfl, hd⟩ := deref_of_lookup h hl
    refine ⟨s.unlink x.it, s.map.erase x.key, by simp [hd], h.remove hx, h.map_key_remove hx, ?_⟩
    exact fun y hy => List.mem_of_mem_filter hy

/-- There is at most one item too many. -/
theorem trim_spec (h : Linked s.list s.map) (hlen : s.list.length ≤ s.maxSize + 1) : ∃ map,
    s.trim = some { s with list := s.list.take s.maxSize, map := map } ∧
    Linked (s.list.take s.maxSize) map := by
  unfold trim
  rw [h.length_eq]
  by_cases hmany : s.list.length > s.maxSize
  · rw [if_pos hmany]
    have hne : s.list ≠ [] := List.ne_nil_of_length_pos (by omega)
    obtain ⟨init, last, hlist⟩ : ∃ init last, s.list = init ++ [last] :=
      ⟨_, _, (List.dropLast_append_getLast hne).symm⟩
    have hinit : s.list.take s.maxSize = init := by
      rw [hlist, List.length_append, List.length_singleton] at hlen hmany
      have hmax : s.maxSize = init.length := by omega
      rw [hlist, hmax, List.take_left]
    have hlast : s.list.getLast? = some last := by rw [hlist, List.getLast?_concat]
    have hdrop : s.list.dropLast = init := by rw [hlist, List.dropLast_concat]
    refine ⟨s.map.erase last.key, by rw [hlast, hdrop, hinit]; rfl, ?_⟩
    have hmem : last ∈ init ++ [last] := by simp
    rw [hlist] at h
    have hremove := h.remove hmem
    rwa [h.filter_last, ← hinit] at hremove
  · rw [if_neg hmany, List.take_of_length_le (by omega)]
    exact ⟨s.map, rfl, h⟩

theorem put_spec (h : Linked s.list s.map) (hfresh : ∀ x ∈ s.list, x.it < s.next)
    (hlen : s.list.length ≤ s.maxSize) (key : κ) (value : ν) : ∃ list map,
    let list' := (⟨s.next, key, value⟩ :: list).take s.maxSize
    s.put key value = some { s with list := list', map := map, next := s.next + 1 } ∧
    Linked list' map ∧ list.map Node.key = (s.list.map Node.key).erase key ∧
    ∀ x ∈ list, x ∈ s.list := by
  obtain ⟨list, map, hdrop, hlinked, hkeys, hsub⟩ := drop_spec h key
  have hnot : key ∉ list.map Node.key := hkeys ▸ h.keys.not_mem_erase
  have hpush := hlinked.push value (fun x hx => (hfresh x (hsub x hx)).ne) hnot
  have hle : list.length ≤ s.list.length := by
    have hl := congrArg List.length hkeys
    rw [List.length_map] at hl
    rw [hl]
    exact List.length_erase_le.trans_eq (List.length_map _)
  obtain ⟨map', htrim, htrimmed⟩ :=
    trim_spec (s := pushFront ⟨s.maxSize, list, map, s.next⟩ key value) hpush
      (Nat.succ_le_succ (hle.trans hlen))
  exact ⟨list, map', by rw [put, hdrop, Option.bind_some, htrim]; rfl, htrimmed, hkeys, hsub⟩

end LruCache

/-! ## The cache and the reference -/

structure Refines (n : Nat) (s : LruCache κ ν) (r : Reference κ ν) : Prop where
  maxSize : s.maxSize = n
  linked : Linked s.list s.map
  fresh : ∀ x ∈ s.list, x.it < s.next
  kept : s.list.map Node.key = r.kept n
  values : ∀ x ∈ s.list, r.values x.key = some x.value

namespace Refines

variable {n : Nat} {s : LruCache κ ν} {r : Reference κ ν}

theorem init : Refines n ({ maxSize := n } : LruCache κ ν) {} :=
  ⟨rfl, .nil, by simp, by simp [Reference.kept, recent, distinct], by simp⟩

theorem find_of_mem (h : Refines n s r) {x : Node κ ν} (hx : x ∈ s.list) :
    r.find n x.key = some x.value := by
  have hk : x.key ∈ r.kept n := h.kept ▸ List.mem_map_of_mem hx
  rw [Reference.find, if_pos hk, h.values x hx]

theorem find_of_lookup_none (h : Refines n s r) {key : κ} (hl : s.map.lookup key = none) :
    r.find n key = none := by
  refine if_neg fun hk => ?_
  rw [← h.kept, ← h.linked.mem_map_iff, ← AList.lookup_isSome, hl] at hk
  simp at hk

theorem existsKey_eq (h : Refines n s r) (key : κ) : s.existsKey key = (r.find n key).isSome := by
  unfold LruCache.existsKey
  cases hl : s.map.lookup key with
  | none => rw [h.find_of_lookup_none hl]; rfl
  | some it =>
    obtain ⟨x, hx, rfl, -⟩ := LruCache.deref_of_lookup h.linked hl
    rw [h.find_of_mem hx]
    rfl

theorem contents_eq (h : Refines n s r) :
    s.list.map (fun x => (x.key, x.value)) = r.contents n := by
  rw [Reference.contents, ← h.kept, List.filterMap_map]
  refine (List.filterMap_eq_map_iff_forall_eq_some.mpr fun x hx => ?_).symm
  simp [h.values x hx]

theorem length_le (h : Refines n s r) : s.list.length ≤ n := by
  rw [← List.length_map, h.kept]
  exact length_recent_le n r.uses

theorem put (h : Refines n s r) (key : κ) (value : ν) : ∃ s', s.put key value = some s' ∧
    Refines n s' { r.use key with values := Function.update r.values key (some value) } := by
  obtain ⟨list, map, hput, hlinked, hkeys, hsub⟩ :=
    LruCache.put_spec h.linked h.fresh (h.length_le.trans_eq h.maxSize.symm) key value
  have hnot : key ∉ list.map Node.key := hkeys ▸ h.linked.keys.not_mem_erase
  have hmem : ∀ x ∈ ((⟨s.next, key, value⟩ : Node κ ν) :: list).take s.maxSize,
      x = ⟨s.next, key, value⟩ ∨ x ∈ list :=
    fun x hx => List.mem_cons.mp (List.mem_of_mem_take hx)
  refine ⟨_, hput, h.maxSize, hlinked, ?_, ?_, ?_⟩
  · intro x hx
    rcases hmem x hx with rfl | hx
    · exact Nat.lt_succ_self _
    · exact Nat.lt_succ_of_lt (h.fresh x (hsub x hx))
  · rw [List.map_take, List.map_cons, hkeys, h.kept, h.maxSize]
    exact (recent_cons n key r.uses).symm
  · intro x hx
    rcases hmem x hx with rfl | hx
    · exact Function.update_self _ _ _
    · have hne : x.key ≠ key := fun he => hnot (he ▸ List.mem_map_of_mem hx)
      exact (Function.update_of_ne hne _ _).trans (h.values x (hsub x hx))

theorem get_none (h : Refines n s r) {key : κ} (hf : r.find n key = none) :
    s.get key = some (s, .error "there is no such key in cache".toList) := by
  unfold LruCache.get
  cases hl : s.map.lookup key with
  | none => rfl
  | some it =>
    obtain ⟨x, hx, rfl, -⟩ := LruCache.deref_of_lookup h.linked hl
    rw [h.find_of_mem hx] at hf
    cases hf

theorem get_some (h : Refines n s r) {key : κ} {value : ν} (hf : r.find n key = some value) :
    ∃ s', s.get key = some (s', .ok value) ∧ Refines n s' (r.use key) := by
  unfold LruCache.get
  cases hl : s.map.lookup key with
  | none =>
    rw [h.find_of_lookup_none hl] at hf
    cases hf
  | some it =>
    obtain ⟨x, hx, rfl, rfl, hd⟩ := LruCache.deref_of_lookup h.linked hl
    rw [h.find_of_mem hx, Option.some.injEq] at hf
    subst hf
    have hp := h.linked.perm_front hx
    refine ⟨{ s with list := x :: s.unlink x.it }, by simp [hd], h.maxSize, h.linked.perm hp, ?_, ?_, ?_⟩
    · exact fun y hy => h.fresh y (hp.mem_iff.mpr hy)
    · have hk : x.key ∈ recent n r.uses := by
        rw [← Reference.kept, ← h.kept]
        exact List.mem_map_of_mem hx
      rw [List.map_cons, LruCache.unlink, h.linked.map_key_remove hx, h.kept]
      exact (recent_cons_of_mem hk).symm
    · exact fun y hy => h.values y (hp.mem_iff.mpr hy)

theorem call (h : Refines n s r) (c : Call κ ν) : ∃ s',
    s.call c = some (s', (r.call n c).2) ∧ Refines n s' (r.call n c).1 := by
  cases c with
  | put key value =>
    obtain ⟨s', hput, h'⟩ := h.put key value
    exact ⟨s', by rw [LruCache.call, hput]; rfl, h'⟩
  | get key =>
    cases hf : r.find n key with
    | none =>
      refine ⟨s, by simp [LruCache.call, Reference.call, h.get_none hf, hf], ?_⟩
      simpa [Reference.call, hf] using h
    | some value =>
      obtain ⟨s', hget, h'⟩ := h.get_some hf
      refine ⟨s', by simp [LruCache.call, Reference.call, hget, hf], ?_⟩
      simpa [Reference.call, hf] using h'
  | «exists» key => exact ⟨s, by rw [LruCache.call, h.existsKey_eq]; rfl, h⟩

theorem calls (h : Refines n s r) (cs : List (Call κ ν)) : ∃ s',
    s.calls cs = some (s', (r.calls n cs).2) ∧ Refines n s' (r.calls n cs).1 := by
  induction cs generalizing s r with
  | nil => exact ⟨s, rfl, h⟩
  | cons c cs ih =>
    obtain ⟨s₁, hcall, h₁⟩ := h.call c
    obtain ⟨s₂, hcalls, h₂⟩ := ih h₁
    exact ⟨s₂, by rw [LruCache.calls, hcall, Option.bind_some, hcalls]; rfl, h₂⟩

theorem serviceGet (h : Refines n s r) (empty : ν) (key : κ) :
    (s.serviceGet empty key).map Prod.snd = some (.ok (match r.find n key with
      | some value => (true, value)
      | none => (false, empty))) := by
  rw [LruCache.serviceGet, h.existsKey_eq]
  cases hf : r.find n key with
  | none => rfl
  | some value =>
    obtain ⟨s', hget, -⟩ := h.get_some hf
    simp [hget, Except.map]

end Refines

/-- Whatever the calls are, the cache replies to them as the reference does and has the same keys
and values in the same order. -/
theorem cache_refines_reference (n : Nat) (cs : List (Call κ ν)) : ∃ s : LruCache κ ν,
    ({ maxSize := n } : LruCache κ ν).calls cs =
      some (s, (({} : Reference κ ν).calls n cs).2) ∧
    (s.list.map Node.key).Nodup ∧ (∀ key, key ∈ s.map ↔ key ∈ s.list.map Node.key) ∧
    s.map.entries.length = s.list.length ∧ s.list.length ≤ n ∧
    s.list.map (fun x => (x.key, x.value)) = (({} : Reference κ ν).calls n cs).1.contents n ∧
    ∀ (empty : ν) (key : κ), (s.serviceGet empty key).map Prod.snd =
      some (.ok (match (({} : Reference κ ν).calls n cs).1.find n key with
        | some value => (true, value)
        | none => (false, empty))) := by
  obtain ⟨s, hcalls, h⟩ := (Refines.init (κ := κ) (ν := ν) (n := n)).calls cs
  exact ⟨s, hcalls, h.linked.keys, h.linked.mem_map_iff, h.linked.length_eq, h.length_le,
    h.contents_eq, h.serviceGet⟩

end Cocaine.Cache
