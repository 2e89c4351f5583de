import CocainePlugins.Framework.Text
import CocainePlugins.Framework.Transition
import Mathlib.Logic.Function.Basic

/-!
# The tag index of the postgres storage

`postgres_t` keeps its data in a wrapped storage and the tags in a table. A write or a
remove is passed to the wrapped storage first; its callback posts the change of the table
to a pool of connections, where it runs on any thread. Nothing keeps the changes of the
table in the order in which the wrapped storage took the calls. `Aligned` says what the
table holds when they do keep it: the tags of the last call whose change has run.
-/

namespace Cocaine.Postgres

open Framework

abbrev Key := Str × Str

abbrev Tags := List Str

/-- The data in the wrapped storage, with the tags of the write that it is from. -/
structure Stored where
  blob : Str
  tags : Tags
deriving DecidableEq, Repr

inductive Op where
  | write (blob : Str) (tags : Tags)
  | remove
deriving DecidableEq, Repr

namespace Op

/-- What the wrapped storage has after the call. -/
def stored : Op → Option Stored
  | .write blob tags => some ⟨blob, tags⟩
  | .remove => none

/-- What the table has after the call's change: `INSERT … ON CONFLICT … DO UPDATE`, or
`DELETE`. -/
def indexed : Op → Option Tags
  | .write _ tags => some tags
  | .remove => none

theorem map_stored (op : Op) : op.stored.map Stored.tags = op.indexed := by
  cases op <;> rfl

end Op

inductive Phase where
  /-- Passed to the wrapped storage. -/
  | issued
  /-- The wrapped storage is done; its callback is to run. -/
  | stored
  /-- The change of the table is posted to the pool. -/
  | queued
  | done
  | failed
deriving DecidableEq, Repr

structure Request where
  key : Key
  op : Op
deriving DecidableEq, Repr

structure Storage where
  made : Nat := 0
  calls : Nat → Request := fun _ => ⟨([], []), .remove⟩
  phase : Nat → Phase := fun _ => .issued
  wrapped : Key → Option Stored := fun _ => none
  /-- The calls that the wrapped storage took, the latest first. -/
  taken : List Nat := []
  index : Key → Option Tags := fun _ => none
  /-- The calls whose change of the table was committed. -/
  committed : List Nat := []

namespace Storage

variable (st : Storage)

/-- `write` and `remove`. -/
def issue (key : Key) (op : Op) : Storage :=
  { st with
    made := st.made + 1
    calls := Function.update st.calls st.made ⟨key, op⟩
    phase := Function.update st.phase st.made .issued }

def setPhase (n : Nat) (phase : Phase) : Storage :=
  { st with phase := Function.update st.phase n phase }

def take (n : Nat) : Storage :=
  { st with
    wrapped := Function.update st.wrapped (st.calls n).key (st.calls n).op.stored
    taken := n :: st.taken }

def commit (n : Nat) : Storage :=
  { st with
    index := Function.update st.index (st.calls n).key (st.calls n).op.indexed
    committed := n :: st.committed }

/-- `effect` says that a phase had its effect, `ok` that it is reported as a success. -/
inductive Label where
  | issue (key : Key) (op : Op)
  | wrapped (n : Nat) (effect ok : Bool)
  /-- The callback of the wrapped storage; `ok` says that the pool takes the change. -/
  | callback (n : Nat) (ok : Bool)
  | index (n : Nat) (effect ok : Bool)
deriving DecidableEq, Repr

/-- A success has its effect, and a failure may have it. -/
def step (st : Storage) : Label → Option Storage
  | .issue key op => some (st.issue key op)
  | .wrapped n effect ok =>
    if n < st.made ∧ st.phase n = .issued ∧ (ok → effect) then
      some ((if effect then st.take n else st).setPhase n (if ok then .stored else .failed))
    else none
  | .callback n ok =>
    if n < st.made ∧ st.phase n = .stored then
      some (st.setPhase n (if ok then .queued else .failed))
    else none
  | .index n effect ok =>
    if n < st.made ∧ st.phase n = .queued ∧ (ok → effect) then
      some ((if effect then st.commit n else st).setPhase n (if ok then .done else .failed))
    else none

end Storage

/-- At first the table agrees with the wrapped storage. -/
def storageSystem : System Storage Storage.Label where
  init st := ∃ data : Key → Option Stored,
    st = { wrapped := data, index := fun key => (data key).map Stored.tags }
  step := Storage.step

variable {n : Nat}

/-- The first that passes is the one before which none does. -/
theorem head?_filter_eq {l : List Nat} {p : Nat → Bool} (hn : n ∈ l) (hp : p n = true)
    (h : ∀ m ∈ l.takeWhile (· ≠ n), p m = false) : (l.filter p).head? = some n := by
  induction l with
  | nil => cases hn
  | cons m l ih =>
    by_cases hm : m = n
    · rw [hm, List.filter_cons_of_pos hp]
      rfl
    · rw [List.takeWhile_cons_of_pos (by simpa using hm)] at h
      obtain ⟨hm', h⟩ := List.forall_mem_cons.mp h
      rw [List.filter_cons_of_neg (by simp [hm'])]
      exact ih ((List.mem_cons.mp hn).resolve_left (Ne.symm hm)) h

namespace Storage

/-! ## The last call of a key -/

section Last

variable (st : Storage) (key : Key)

/-- The last call of a key that the wrapped storage took. -/
def lastTaken : Option Nat := (st.taken.filter fun n => (st.calls n).key = key).head?

/-- The last of them whose change of the table was committed. -/
def lastIndexed : Option Nat :=
  (st.taken.filter fun n => (st.calls n).key = key ∧ st.committed.contains n).head?

end Last

/-- Both stores have what the last call of each key left there. -/
structure Aligned (data : Key → Option Stored) (st : Storage) : Prop where
  wrapped : ∀ key, st.wrapped key =
    (st.lastTaken key).elim (data key) fun n => (st.calls n).op.stored
  index : ∀ key, st.index key =
    (st.lastIndexed key).elim ((data key).map Stored.tags) fun n => (st.calls n).op.indexed

/-- What the phases of the calls say. -/
structure Phased (st : Storage) : Prop where
  taken_lt : ∀ n ∈ st.taken, n < st.made
  committed_lt : ∀ n ∈ st.committed, n < st.made
  issued : ∀ n < st.made, st.phase n = .issued → n ∉ st.committed
  taken : ∀ n < st.made, st.phase n = .stored ∨ st.phase n = .queued → n ∈ st.taken
  done : ∀ n < st.made, st.phase n = .done → n ∈ st.committed

/-- No call of the key that the wrapped storage took later has changed the table before. -/
def InOrder (st : Storage) : Label → Prop
  | .index n true _ => ∀ m ∈ st.taken.takeWhile (· ≠ n), (st.calls m).key = (st.calls n).key →
    m ∉ st.committed
  | _ => True

variable {st : Storage} {data : Key → Option Stored}

/-! ## What a step does -/

inductive Stepped (st : Storage) : Label → Storage → Prop where
  | issue {key : Key} {op : Op} : Stepped st (.issue key op) (st.issue key op)
  | takes {n : Nat} {effect ok : Bool} {phase : Phase} : n < st.made → st.phase n = .issued →
      phase = .stored ∨ phase = .failed →
      Stepped st (.wrapped n effect ok) ((st.take n).setPhase n phase)
  | fails {a : Label} {n : Nat} : n < st.made → Stepped st a (st.setPhase n .failed)
  | posts {n : Nat} {ok : Bool} : n < st.made → st.phase n = .stored →
      Stepped st (.callback n ok) (st.setPhase n .queued)
  | commits {n : Nat} {ok : Bool} {phase : Phase} : n < st.made → st.phase n = .queued →
      phase = .done ∨ phase = .failed →
      Stepped st (.index n true ok) ((st.commit n).setPhase n phase)

theorem stepped {st' : Storage} {a : Label} (h : st.step a = some st') : Stepped st a st' := by
  cases a with
  | issue key op =>
    cases h
    exact .issue
  | wrapped n effect ok =>
    obtain ⟨hc, rfl⟩ := of_guard h
    obtain ⟨hn, hp, heffect⟩ := hc
    cases ok with
    | true =>
      rw [heffect rfl]
      exact .takes hn hp (.inl rfl)
    | false =>
      cases effect with
      | true => exact .takes hn hp (.inr rfl)
      | false => exact .fails hn
  | callback n ok =>
    obtain ⟨hc, rfl⟩ := of_guard h
    cases ok with
    | true => exact .posts hc.1 hc.2
    | false => exact .fails hc.1
  | index n effect ok =>
    obtain ⟨hc, rfl⟩ := of_guard h
    obtain ⟨hn, hp, heffect⟩ := hc
    cases ok with
    | true =>
      rw [heffect rfl]
      exact .commits hn hp (.inl rfl)
    | false =>
      cases effect with
      | true => exact .commits hn hp (.inr rfl)
      | false => exact .fails hn

/-! ## The phases -/

namespace Phased

theorem setPhase (h : Phased st) {phase : Phase} (hissued : phase ≠ .issued)
    (htaken : phase = .stored ∨ phase = .queued → n ∈ st.taken)
    (hdone : phase = .done → n ∈ st.committed) : Phased (st.setPhase n phase) := by
  have hphase : ∀ m, (st.setPhase n phase).phase m = if m = n then phase else st.phase m :=
    fun m => Function.update_apply ..
  refine ⟨h.taken_lt, h.committed_lt, fun m hm hp => ?_, fun m hm hp => ?_, fun m hm hp => ?_⟩ <;>
    rw [hphase] at hp <;> by_cases hmn : m = n
  · exact absurd ((if_pos hmn).symm.trans hp) hissued
  · exact h.issued m hm ((if_neg hmn).symm.trans hp)
  · rw [if_pos hmn] at hp
    exact hmn ▸ htaken hp
  · rw [if_neg hmn] at hp
    exact h.taken m hm hp
  · exact hmn ▸ hdone ((if_pos hmn).symm.trans hp)
  · exact h.done m hm ((if_neg hmn).symm.trans hp)

theorem take (h : Phased st) (hn : n < st.made) : Phased (st.take n) :=
  ⟨List.forall_mem_cons.mpr ⟨hn, h.taken_lt⟩, h.committed_lt, h.issued,
    fun m hm hp => List.mem_cons_of_mem _ (h.taken m hm hp), h.done⟩

theorem commit (h : Phased st) (hn : n < st.made) (hp : st.phase n ≠ .issued) :
    Phased (st.commit n) := by
  refine ⟨h.taken_lt, List.forall_mem_cons.mpr ⟨hn, h.committed_lt⟩, fun m hm hm' hmem => ?_,
    h.taken, fun m hm hd => List.mem_cons_of_mem _ (h.done m hm hd)⟩
  rcases List.mem_cons.mp hmem with rfl | hmem
  · exact hp hm'
  · exact h.issued m hm hm' hmem

theorem issue (h : Phased st) (key : Key) (op : Op) : Phased (st.issue key op) := by
  have hphase : ∀ m < st.made + 1, m = st.made ∧ (st.issue key op).phase m = .issued ∨
      m < st.made ∧ (st.issue key op).phase m = st.phase m := by
    intro m hm
    rcases Nat.lt_succ_iff_lt_or_eq.mp hm with hm | rfl
    · exact .inr ⟨hm, Function.update_of_ne (Nat.ne_of_lt hm) ..⟩
    · exact .inl ⟨rfl, Function.update_self ..⟩
  refine ⟨fun m hm => Nat.lt_succ_of_lt (h.taken_lt m hm),
    fun m hm => Nat.lt_succ_of_lt (h.committed_lt m hm), fun m hm hp => ?_, fun m hm hp => ?_,
    fun m hm hp => ?_⟩ <;> rcases hphase m hm with ⟨rfl, heq⟩ | ⟨hlt, heq⟩ <;> rw [heq] at hp
  · exact fun hmem => Nat.lt_irrefl _ (h.committed_lt _ hmem)
  · exact h.issued m hlt hp
  · exact absurd hp (by simp)
  · exact h.taken m hlt hp
  · cases hp
  · exact h.done m hlt hp

theorem step {st' : Storage} {a : Label} (hp : Phased st) (h : Stepped st a st') : Phased st' := by
  cases h with
  | issue => exact hp.issue ..
  | takes hn _ hphase =>
    refine (hp.take hn).setPhase ?_ (fun _ => List.mem_cons_self) ?_
    · rcases hphase with rfl | rfl <;> exact nofun
    · rcases hphase with rfl | rfl <;> exact nofun
  | fails => exact hp.setPhase nofun (by simp) nofun
  | posts hn hphase => exact hp.setPhase nofun (fun _ => hp.taken _ hn (.inl hphase)) nofun
  | commits hn hphase hnew =>
    have hcommit := hp.commit hn (by rw [hphase]; exact nofun)
    refine hcommit.setPhase ?_ (fun _ => hp.taken _ hn (.inr hphase)) fun _ => List.mem_cons_self
    rcases hnew with rfl | rfl <;> exact nofun

end Phased

/-! ## The stores -/

namespace Aligned

theorem setPhase (h : Aligned data st) (n : Nat) (phase : Phase) :
    Aligned data (st.setPhase n phase) :=
  ⟨h.wrapped, h.index⟩

theorem mem_of_lastTaken {key : Key} (h : st.lastTaken key = some n) : n ∈ st.taken :=
  List.mem_of_mem_filter (List.mem_of_mem_head? h)

theorem mem_of_lastIndexed {key : Key} (h : st.lastIndexed key = some n) :
    n ∈ st.taken :=
  List.mem_of_mem_filter (List.mem_of_mem_head? h)

theorem issue (h : Aligned data st) (hp : Phased st) (key : Key) (op : Op) :
    Aligned data (st.issue key op) := by
  have hcalls : ∀ n ∈ st.taken, (st.issue key op).calls n = st.calls n :=
    fun n hn => Function.update_of_ne (Nat.ne_of_lt (hp.taken_lt n hn)) ..
  have htaken : ∀ k, (st.issue key op).lastTaken k = st.lastTaken k := fun k =>
    congrArg List.head? (List.filter_congr fun n hn => by rw [hcalls n hn])
  have hindexed : ∀ k, (st.issue key op).lastIndexed k = st.lastIndexed k := fun k =>
    congrArg List.head? (List.filter_congr fun n hn => by rw [hcalls n hn]; rfl)
  refine ⟨fun k => ?_, fun k => ?_⟩
  · rw [htaken]
    refine (h.wrapped k).trans ?_
    cases hlast : st.lastTaken k with
    | none => rfl
    | some n =>
      show (st.calls n).op.stored = ((st.issue key op).calls n).op.stored
      rw [hcalls n (mem_of_lastTaken hlast)]
  · rw [hindexed]
    refine (h.index k).trans ?_
    cases hlast : st.lastIndexed k with
    | none => rfl
    | some n =>
      show (st.calls n).op.indexed = ((st.issue key op).calls n).op.indexed
      rw [hcalls n (mem_of_lastIndexed hlast)]

theorem take (h : Aligned data st) (hn : n ∉ st.committed) : Aligned data (st.take n) := by
  refine ⟨fun key => ?_, fun key => ?_⟩
  · show Function.update st.wrapped (st.calls n).key (st.calls n).op.stored key =
      (((n :: st.taken).filter fun m => (st.calls m).key = key).head?).elim _ _
    by_cases hkey : (st.calls n).key = key
    · rw [List.filter_cons_of_pos (by simpa using hkey), ← hkey, Function.update_self]
      rfl
    · rw [List.filter_cons_of_neg (by simpa using hkey), Function.update_of_ne (Ne.symm hkey)]
      exact h.wrapped key
  · have hlast : (st.take n).lastIndexed key = st.lastIndexed key :=
      congrArg List.head? (List.filter_cons_of_neg (by simp [Storage.take, hn]))
    rw [hlast]
    exact h.index key

/-- A change that comes in order is the last one of its key. -/
theorem commit (h : Aligned data st) (hn : n ∈ st.taken)
    (hok : ∀ m ∈ st.taken.takeWhile (· ≠ n), (st.calls m).key = (st.calls n).key →
      m ∉ st.committed) : Aligned data (st.commit n) := by
  refine ⟨h.wrapped, fun key => ?_⟩
  by_cases hkey : (st.calls n).key = key
  · have hlast : (st.commit n).lastIndexed key = some n := by
      refine head?_filter_eq hn (by simp [Storage.commit, hkey]) fun m hm => ?_
      have hne : m ≠ n := by simpa using List.all_eq_true.mp List.all_takeWhile m hm
      have hmissing := hok m hm
      rw [hkey] at hmissing
      simpa [Storage.commit, hne] using hmissing
    rw [hlast]
    show Function.update st.index (st.calls n).key (st.calls n).op.indexed key = _
    rw [← hkey, Function.update_self]
    rfl
  · have hlast : (st.commit n).lastIndexed key = st.lastIndexed key := by
      refine congrArg List.head? (List.filter_congr fun m _ => ?_)
      have hne : (st.calls m).key = key → m ≠ n := fun hm hmn => hkey (hmn ▸ hm)
      by_cases hm : (st.calls m).key = key
      · simp [Storage.commit, hm, hne hm]
      · simp [Storage.commit, hm]
    rw [hlast]
    show Function.update st.index (st.calls n).key (st.calls n).op.indexed key = _
    rw [Function.update_of_ne (Ne.symm hkey)]
    exact h.index key

theorem step {st' : Storage} {a : Label} (ha : Aligned data st) (hp : Phased st)
    (hok : InOrder st a) (h : Stepped st a st') : Aligned data st' := by
  cases h with
  | issue => exact ha.issue hp ..
  | takes hn hphase => exact (ha.take (hp.issued _ hn hphase)).setPhase ..
  | fails => exact ha.setPhase ..
  | posts => exact ha.setPhase ..
  | commits hn hphase => exact (ha.commit (hp.taken _ hn (.inr hphase)) hok).setPhase ..

theorem of_reachable (hr : storageSystem.Reachable InOrder st) :
    ∃ data, Aligned data st ∧ Phased st := by
  refine hr.induct (P := fun st => ∃ data, Aligned data st ∧ Phased st) ?_ ?_
  · rintro _ ⟨data, rfl⟩
    exact ⟨data, ⟨fun _ => rfl, fun _ => rfl⟩, nofun, nofun, nofun, nofun, nofun⟩
  · rintro s a t ⟨data, ha, hp⟩ hok hs
    exact ⟨data, ha.step hp hok (stepped hs), hp.step (stepped hs)⟩

end Aligned

/-- In a run where the changes of the table for each key come in the order in which the
wrapped storage took the calls: when all calls have succeeded, the table has the keys
that the wrapped storage has, with the tags of the writes whose data is there. -/
theorem index_agrees (hr : storageSystem.Reachable InOrder st)
    (hdone : ∀ n < st.made, st.phase n = .done) (key : Key) :
    st.index key = (st.wrapped key).map Stored.tags ∧
      ((st.index key).isSome ↔ (st.wrapped key).isSome) := by
  obtain ⟨data, ha, hp⟩ := Aligned.of_reachable hr
  have hlast : st.lastIndexed key = st.lastTaken key := by
    refine congrArg List.head? (List.filter_congr fun n hn => ?_)
    have hlt := hp.taken_lt n hn
    simp [hp.done n hlt (hdone n hlt)]
  have heq : st.index key = (st.wrapped key).map Stored.tags := by
    rw [ha.index, ha.wrapped, hlast]
    cases st.lastTaken key with
    | none => rfl
    | some n => exact (Op.map_stored _).symm
  exact ⟨heq, by rw [heq, Option.isSome_map]⟩

section Runs

instance (st : Storage) (a : Label) : Decidable (InOrder st a) := by
  unfold InOrder
  split <;> infer_instance

def thing : Key := ("app".toList, "key".toList)

/-- Two writes to one key, that the wrapped storage has taken and whose changes of the table
are posted. -/
def twoWrites : List Label :=
  [.issue thing (.write ['1'] [['a']]), .issue thing (.write ['2'] [['b']]),
    .wrapped 0 true true, .wrapped 1 true true, .callback 0 true, .callback 1 true]

theorem index_agrees_twoWrites : ∃ st : Storage, st.index thing = some [['b']] ∧
    st.index thing = (st.wrapped thing).map Stored.tags := by
  obtain ⟨st, hr, hmade, hphase, hindex⟩ := storageSystem.exists_reachable InOrder
    (P := fun st => st.made = 2 ∧ (∀ n < 2, st.phase n = .done) ∧ st.index thing = some [['b']])
    (twoWrites ++ [.index 0 true true, .index 1 true true]) ⟨fun _ => none, rfl⟩ (by decide +kernel)
  exact ⟨st, hindex, (index_agrees hr (hmade ▸ hphase) thing).1⟩

/-- The changes of the table run in the other order: the table has the tags of the first
write, and the wrapped storage the data of the second. -/
theorem index_reordered : ∃ st, storageSystem.Reachable System.Any st ∧ st.made = 2 ∧
    (∀ n < 2, st.phase n = .done) ∧ st.wrapped thing = some ⟨['2'], [['b']]⟩ ∧
    st.index thing = some [['a']] :=
  storageSystem.exists_reachable System.Any
    (twoWrites ++ [.index 1 true true, .index 0 true true]) ⟨fun _ => none, rfl⟩ (by decide +kernel)

end Runs

end Storage

end Cocaine.Postgres
