import CocainePlugins.Framework.Lines

/-!
# The output of a worker and its crash log

The isolate passes what a worker prints to `machine_t::output`, in chunks that need not
end where a line ends. A splitter (`util/splitter.hpp`) keeps the bytes behind the last line
feed; the lines go to a circular buffer, which the machine writes to the storage when the
worker dies of an error (`machine_t::dump`).

`Described` says what the output is as a function of all the bytes so far: a chunk keeps it
(`Described.output`), hence the chunks do not matter (`output_of_chunks`).
-/

namespace Cocaine.Node.Slave

open Framework

abbrev Bytes := List UInt8

/-- `splitter_t`. -/
@[ext]
structure Splitter where
  sep : UInt8 := 10
  unparsed : Bytes := []
deriving DecidableEq, Repr

namespace Splitter

/-- The position of the separator in `unparsed` (`std::string::find`). -/
def find (s : Splitter) : Option Nat := s.unparsed.findIdx? (· == s.sep)

/-- A line, and the splitter without it and its separator. -/
def next (s : Splitter) : Option (Bytes × Splitter) :=
  match s.find with
  | none => none
  | some pos => some (s.unparsed.take pos, { s with unparsed := s.unparsed.drop (pos + 1) })

def empty (s : Splitter) : Bool := s.unparsed.isEmpty

def data (s : Splitter) : Bytes := s.unparsed

def consume (s : Splitter) (data : Bytes) : Splitter := { s with unparsed := s.unparsed ++ data }

theorem next_eq_none {s : Splitter} (h : s.next = none) : s.sep ∉ s.unparsed := by
  intro hmem
  simp only [next, find] at h
  split at h
  · rename_i hfind
    have hno := List.findIdx?_eq_none_iff.mp hfind _ hmem
    rw [beq_self_eq_true] at hno
    cases hno
  · cases h

theorem next_eq_some {s t : Splitter} {line : Bytes} (h : s.next = some (line, t)) :
    s.unparsed = line ++ s.sep :: t.unparsed ∧ s.sep ∉ line ∧ t.sep = s.sep := by
  simp only [next, find] at h
  split at h
  · cases h
  · rename_i pos hfind
    obtain ⟨rfl, rfl⟩ := Prod.mk.inj (Option.some.inj h)
    obtain ⟨hlt, hsep, hbefore⟩ := List.findIdx?_eq_some_iff_getElem.mp hfind
    refine ⟨?_, ?_, rfl⟩
    · calc s.unparsed
          = s.unparsed.take pos ++ s.unparsed.drop pos := (List.take_append_drop pos _).symm
        _ = s.unparsed.take pos ++ s.sep :: s.unparsed.drop (pos + 1) := by
          rw [List.drop_eq_getElem_cons hlt, eq_of_beq hsep]
    · intro hmem
      obtain ⟨i, hi, hget⟩ := List.mem_take_iff_getElem.mp hmem
      exact hbefore i (by omega) (beq_iff_eq.mpr hget)

theorem next_length {s t : Splitter} {line : Bytes} (h : s.next = some (line, t)) :
    t.unparsed.length < s.unparsed.length := by
  rw [(next_eq_some h).1, List.length_append, List.length_cons]
  omega

end Splitter

/-- What the machine keeps of the worker's output. -/
@[ext]
structure Output where
  splitter : Splitter := {}
  lines : Circular Bytes
  /-- The lines written to the log, when the profile asks for it (`log_output`). -/
  logged : List Bytes := []
  /-- All the lines that the splitter has given, the oldest first; a history. -/
  produced : List Bytes := []

namespace Output

/-- A new machine: the buffer has room for `crashlog_limit` lines. -/
def start (crashlogLimit : Nat) : Output := { lines := { capacity := crashlogLimit } }

/-- The body of the loop of `output`. -/
def line (logOutput : Bool) (o : Output) (line : Bytes) : Output :=
  { o with
    lines := o.lines.pushBack line
    logged := if logOutput then o.logged ++ [line] else o.logged
    produced := o.produced ++ [line] }

/-- The loop of `output`: while the splitter has a line. -/
def drain (logOutput : Bool) (o : Output) : Output :=
  match _h : o.splitter.next with
  | none => o
  | some (line, splitter) => drain logOutput ({ o with splitter := splitter }.line logOutput line)
termination_by o.splitter.unparsed.length
decreasing_by exact Splitter.next_length _h

end Output

/-- `machine_t::output`. -/
def Output.output (logOutput : Bool) (o : Output) (data : Bytes) : Output :=
  { o with splitter := o.splitter.consume data }.drain logOutput

/-- What `machine_t::dump` hands to the storage. -/
structure Crashlog where
  collection : String
  key : String
  value : List Bytes
  indexes : List String
deriving DecidableEq, Repr

namespace Output

/-- The lines of the crash log: those of the buffer, then what is not split yet. -/
def dumped (o : Output) : List Bytes :=
  if o.lines.items.isEmpty && o.splitter.empty then []
  else o.lines.items ++ if o.splitter.empty then [] else [o.splitter.data]

/-- `machine_t::dump`, at the time `us`; `date` is what `strftime` makes of it, when it has
room. A worker that has printed nothing leaves no crash log. -/
def dump (o : Output) (us : Nat) (id name : String) (date : Option String) : Option Crashlog :=
  if o.dumped.isEmpty then none
  else some {
    collection := "crashlogs"
    key := toString us ++ ":" ++ id
    value := o.dumped
    indexes := name :: date.toList }

/-- The bytes so far are the lines given, and what the splitter still holds. -/
structure Reading (limit : Nat) (logOutput : Bool) (bytes : Bytes) (o : Output) : Prop where
  sep : o.splitter.sep = 10
  split : bytes.splitOn 10 = o.produced ++ o.splitter.unparsed.splitOn 10
  capacity : o.lines.capacity = limit
  items : o.lines.items = Circular.last limit o.produced
  logged : o.logged = if logOutput then o.produced else []

/-- The output of a worker that printed `bytes`: between two chunks no line waits. -/
structure Described (limit : Nat) (logOutput : Bool) (bytes : Bytes) (o : Output) : Prop extends
    Reading limit logOutput bytes o where
  tail : 10 ∉ o.splitter.unparsed

variable {limit : Nat} {logOutput : Bool} {bytes : Bytes} {o : Output}

theorem Described.start : Described limit logOutput [] (start limit) where
  sep := rfl
  split := rfl
  capacity := rfl
  items := by simp [Output.start, Circular.last]
  logged := by simp [Output.start]
  tail := List.not_mem_nil

theorem Reading.line {splitter : Splitter} {line : Bytes} (h : Reading limit logOutput bytes o)
    (hnext : o.splitter.next = some (line, splitter)) :
    Reading limit logOutput bytes ({ o with splitter := splitter }.line logOutput line) := by
  obtain ⟨hunparsed, hline, hsep⟩ := Splitter.next_eq_some hnext
  rw [h.sep] at hunparsed hline hsep
  refine ⟨hsep, ?_, ?_, ?_, ?_⟩
  · rw [h.split, hunparsed, splitOn_line hline, Output.line, List.append_assoc]
    rfl
  · exact (Circular.capacity_pushBack ..).trans h.capacity
  · have hpush := Circular.items_pushBack (h.items.trans (by rw [h.capacity])) line
    rwa [h.capacity] at hpush
  · simp only [Output.line, h.logged]
    cases logOutput <;> rfl

/-- The loop gives every line that there is. -/
theorem Reading.drain (h : Reading limit logOutput bytes o) :
    Described limit logOutput bytes (o.drain logOutput) := by
  fun_induction Output.drain logOutput o with
  | case1 o hnext =>
    have htail := Splitter.next_eq_none hnext
    rw [h.sep] at htail
    exact ⟨h, htail⟩
  | case2 o line splitter hnext ih => exact ih (h.line hnext)

theorem Described.split_eq (h : Described limit logOutput bytes o) :
    bytes.splitOn 10 = o.produced ++ [o.splitter.unparsed] := by
  rw [h.split, splitOn_of_not_mem h.tail]

theorem Described.output (h : Described limit logOutput bytes o) (data : Bytes) :
    Described limit logOutput (bytes ++ data) (o.output logOutput data) :=
  Reading.drain ⟨h.sep, splitOn_append data h.split_eq, h.capacity, h.items, h.logged⟩

theorem Described.outputs (h : Described limit logOutput bytes o) (chunks : List Bytes) :
    Described limit logOutput (bytes ++ chunks.flatten)
      (chunks.foldl (Output.output logOutput) o) := by
  induction chunks generalizing bytes o with
  | nil => simpa using h
  | cons data chunks ih =>
    rw [List.flatten_cons, ← List.append_assoc]
    exact ih (h.output data)

/-- The bytes determine the output. -/
theorem Described.unique {o' : Output} (h : Described limit logOutput bytes o)
    (h' : Described limit logOutput bytes o') : o = o' := by
  obtain ⟨hproduced, htail⟩ := List.append_inj' (h.split_eq.symm.trans h'.split_eq) rfl
  apply Output.ext
  · exact Splitter.ext (h.sep.trans h'.sep.symm) (List.singleton_inj.mp htail)
  · apply Circular.ext (h.capacity.trans h'.capacity.symm)
    rw [h.items, h'.items, hproduced]
  · rw [h.logged, h'.logged, hproduced]
  · exact hproduced

theorem dumped_eq (o : Output) : o.dumped =
    o.lines.items ++ if o.splitter.unparsed = [] then [] else [o.splitter.unparsed] := by
  simp only [dumped, Splitter.empty, Splitter.data, List.isEmpty_iff]
  split
  · rename_i hempty
    simp only [Bool.and_eq_true, List.isEmpty_iff] at hempty
    rw [hempty.1, hempty.2]
    rfl
  · rfl

/-- The output of a worker depends on its bytes only, not on the chunks in which they came:
the lines and the tail are the split of the bytes at the line feeds, the buffer has the last
`limit` of the lines, and the crash log has these and the tail, unless it is empty. -/
theorem output_of_chunks (limit : Nat) (logOutput : Bool) (chunks : List Bytes) :
    let o := chunks.foldl (output logOutput) (start limit)
    o.produced ++ [o.splitter.unparsed] = chunks.flatten.splitOn 10 ∧
    o.lines.items = Circular.last limit o.produced ∧
    o.dumped = Circular.last limit o.produced ++
      (if o.splitter.unparsed = [] then [] else [o.splitter.unparsed]) ∧
    ∀ chunks' : List Bytes, chunks'.flatten = chunks.flatten →
      let o' := chunks'.foldl (output logOutput) (start limit)
      o'.produced = o.produced ∧ o'.lines = o.lines ∧ o'.splitter = o.splitter ∧
      o'.logged = o.logged ∧
      ∀ us id name date, o'.dump us id name date = o.dump us id name date := by
  intro o
  have h : Described limit logOutput chunks.flatten o := Described.start.outputs chunks
  refine ⟨h.split_eq.symm, h.items, ?_, ?_⟩
  · rw [dumped_eq, h.items]
  · intro chunks' hflat o'
    have h' : Described limit logOutput chunks'.flatten o' := Described.start.outputs chunks'
    rw [hflat] at h'
    rw [h'.unique h]
    exact ⟨rfl, rfl, rfl, rfl, fun _ _ _ _ => rfl⟩

end Output

end Cocaine.Node.Slave
