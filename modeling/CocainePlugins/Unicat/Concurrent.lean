import Mathlib.Data.Fintype.Defs
import CocainePlugins.Framework.Optimistic
import CocainePlugins.Unicat.Report
import CocainePlugins.Unicorn.Version

/-!
# Requests side by side

Any number of grants and revocations of one entity, each with its chain of handlers, around
the backend that stores the list. The unicorn writes on the condition that the version is
the one that was read, so the alterations that took place follow each other. The storage
overwrites, and an alteration is lost when another one is read and written in between.
-/

namespace Cocaine.Unicat

open Framework Unicorn

/-! ## The backends -/

/-- What a request wants of the entity, and for whom. -/
structure Alteration where
  op : Operation
  data : AlterData
  identity : Identity

/-- The tree of the unicorn, or what a read of the blob gives. -/
inductive Store where
  | unicorn (tree : Ztree Data)
  | storage (blob : Except Exception Metainfo)

/-- The exception of an operation of the unicorn; its text stands for the code. -/
def Exception.ofError (e : Error) : Exception := .system (.other e.what.toList) e.what.toList

/-- The list in the bytes of a node. -/
def decode (d : Data) : Option Metainfo :=
  match unserialize d with
  | .ok v => Metainfo.ofDyn v
  | .error _ => none

namespace Store

def scheme : Store → Scheme
  | .unicorn _ => .unicorn
  | .storage _ => .storage

def list (entity : Str) : Store → Option Metainfo
  | .unicorn tree => (tree.node (makeAclPath entity)).bind fun n => decode n.data
  | .storage blob => blob.toOption

/-- A call is carried out; `fault` is what the call throws that the handler of a read makes. -/
def serve (fault : Option Exception) : Store → BackendCall → Option (Store × Reply)
  | _, .verify _ _ _ => none
  | .unicorn tree, .readMetainfo url _ =>
    match perform tree (.get (makeAclPath url.entity)) with
    | some (tree, .value (.value v)) => some (.unicorn tree, .value (.ok v) fault)
    | some (tree, .error e) => some (.unicorn tree, .value (.error (.ofError e)) fault)
    | _ => none
  | .unicorn tree, .writeMetainfo url _ version m =>
    match perform tree (.put (makeAclPath url.entity) m.toDyn version) with
    | some (tree, .value (.put updated _)) => some (.unicorn tree, .put (.ok updated))
    | some (tree, .error e) => some (.unicorn tree, .put (.error (.ofError e)))
    | _ => none
  | .storage blob, .readMetainfo _ _ => some (.storage blob, .metainfo blob fault)
  | .storage _, .writeMetainfo _ _ _ m => some (.storage (.ok m), .stored (.ok ()))

end Store

def BackendCall.failure (x : Exception) : Scheme → BackendCall → Option Reply
  | _, .verify _ _ _ => none
  | .unicorn, .readMetainfo _ _ => some (.value (.error x) none)
  | .unicorn, .writeMetainfo _ _ _ _ => some (.put (.error x))
  | .storage, .readMetainfo _ _ => some (.metainfo (.error x) none)
  | .storage, .writeMetainfo _ _ _ _ => some (.stored (.error x))

structure Contest (ι : Type) where
  store : Store
  task : ι → Task
  call : ι → Option BackendCall
  /-- The last answer, with the completion that it led to. -/
  ended : ι → Option (Reply × Completion)

namespace Contest

variable {ι : Type} [DecidableEq ι]

inductive Label (ι : Type) where
  | verified (k : ι) (ec : ErrorCode)
  | serve (k : ι) (fault : Option Exception)
  /-- The call fails, and nothing was done. -/
  | fail (k : ι) (x : Exception)
  /-- The call is carried out, and an error is reported. -/
  | lose (k : ι) (x : Exception)

def answer (requests : ι → Alteration) (s : Contest ι) (k : ι) (store : Store) (reply : Reply) :
    Option (Contest ι) :=
  ((s.task k).reply (requests k).op (requests k).data reply).map fun e =>
    { store
      task := Function.update s.task k { s.task k with stage := e.stage }
      call := Function.update s.call k e.calls.head?
      ended := Function.update s.ended k (e.completion.map (reply, ·)) }

def step (requests : ι → Alteration) (s : Contest ι) : Label ι → Option (Contest ι)
  | .verified k ec => s.answer requests k s.store (.verified ec)
  | .serve k fault =>
    (s.call k).bind fun call => (s.store.serve fault call).bind fun (store, reply) =>
      s.answer requests k store reply
  | .fail k x =>
    (s.call k).bind fun call => (call.failure x s.store.scheme).bind fun reply =>
      s.answer requests k s.store reply
  | .lose k x =>
    (s.call k).bind fun call => (s.store.serve none call).bind fun (store, _) =>
      (call.failure x s.store.scheme).bind fun reply => s.answer requests k store reply

/-- The request has completed with success, and the put took place. -/
def Counts (s : Contest ι) (k : ι) : Prop :=
  ∃ r c, s.ended k = some (r, c) ∧ c.report = none ∧ r ≠ .put (.ok false)

end Contest

/-- The requests for one entity, whose list `store₀` stores at first. -/
def contestSystem {ι : Type} [DecidableEq ι] (serviceName entity : Str)
    (requests : ι → Alteration) (store₀ : Store) : System (Contest ι) (Contest.Label ι) where
  init s := s =
    { store := store₀
      task := fun k =>
        ⟨⟨store₀.scheme, serviceName, entity⟩, (requests k).identity, .verifying .onVerifyRead .read⟩
      call := fun k =>
        some (.verify .read ⟨store₀.scheme, serviceName, entity⟩ (requests k).identity)
      ended := fun _ => none }
  step := Contest.step requests

def Stage.isWriting : Stage → Bool
  | .writing _ => true
  | _ => false

def BackendCall.isRead : BackendCall → Bool
  | .readMetainfo _ _ => true
  | _ => false

def BackendCall.version : BackendCall → Int
  | .writeMetainfo _ _ version _ => version
  | _ => notExistingVersion

/-- No reply to a call is lost. The unicorn's versions are below `2 ^ 31`, and the storage reads
for no request while another one is between its read and its write. -/
def Contest.Orderly {ι : Type} (s : Contest ι) : Contest.Label ι → Prop
  | .verified _ _ | .fail _ _ => True
  | .serve k _ => ∀ call ∈ s.call k,
    (s.store.scheme = .unicorn → call.version < 2 ^ 31) ∧
    (s.store.scheme = .storage → call.isRead = true → ∀ j, (s.task j).stage.isWriting = false)
  | .lose _ _ => False

instance {ι : Type} [Fintype ι] (s : Contest ι) (a : Contest.Label ι) : Decidable (s.Orderly a) := by
  unfold Contest.Orderly
  split <;> infer_instance

/-! ## What the backends do -/

/-- What a request writes over what it has read. -/
def Alteration.writes (r : Alteration) (v : Option (Option Metainfo)) : Option (Option Metainfo) :=
  v.join.map fun m => some (alter r.op m r.data)

/-- The list as a cell: the node of the unicorn has a version, and the writes of the storage
are counted. -/
def Store.Shows (entity : Str) : Store → Cell (Option Metainfo) → Prop
  | .unicorn tree, c =>
    c = (tree.node (makeAclPath entity)).map fun n => (n.version, decode n.data)
  | .storage blob, c => c.value = some blob.toOption

theorem Store.Shows.list {entity : Str} {store : Store} {c : Cell (Option Metainfo)}
    (h : store.Shows entity c) : store.list entity = c.value.join := by
  cases store with
  | unicorn tree =>
    obtain rfl : c = _ := h
    rw [Store.list]
    cases tree.node (makeAclPath entity) <;> rfl
  | storage blob =>
    have hc : c.value = some blob.toOption := h
    rw [hc]
    rfl

theorem unpack_cases (v : Versioned) : (∃ x, unpack v = .error x) ∨
    ∃ m, v.isThere = true ∧ Metainfo.ofDyn v.value = some m ∧ unpack v = .ok (m, v.version) := by
  unfold unpack
  split
  · rename_i hv
    rcases hm : Metainfo.ofDyn v.value with _ | m
    · exact .inl ⟨_, rfl⟩
    · exact .inr ⟨m, (Bool.and_eq_true_iff.mp hv).1, rfl, rfl⟩
  · exact .inl ⟨_, rfl⟩

section

variable {fault : Option Exception} {store store' : Store} {url : Url} {i : Identity} {reply : Reply}
  {c : Cell (Option Metainfo)}

/-- A read gives the handler an error, or the list with its version. -/
theorem Store.serve_read (h : store.serve fault (.readMetainfo url i) = some (store', reply))
    (hc : store.Shows url.entity c) (op : Operation) (d : AlterData) {t : Task}
    (ht : t.url.scheme = store.scheme) (hs : t.stage = .reading) : store' = store ∧
      ((∃ x, t.reply op d reply = some { completion := some (t.fail x) }) ∨
      ∃ n m version, c = some (n, some m) ∧ (store.scheme = .unicorn → version = (n : Int)) ∧
        t.reply op d reply = some (t.onRead op d (.ok (m, version)) fault)) := by
  cases store with
  | unicorn tree =>
    have hreply : ∀ v, t.reply op d (.value v fault) = some (t.onRead op d (v.bind unpack) fault) := by
      intro v
      simp only [Task.reply, ht, hs, Store.scheme]
    obtain rfl : c = _ := hc
    simp only [Store.serve] at h
    split at h
    · rename_i tree' v hp
      cases h
      obtain ⟨rfl, ⟨e, he⟩ | ⟨-, ho⟩ | ⟨n, v', hn, hd, ho⟩⟩ := perform_get_cases hp
      · cases he
      · -- There is no node, so there is no list.
        cases ho
        refine ⟨rfl, .inl ⟨_, (hreply _).trans rfl⟩⟩
      · cases ho
        refine ⟨rfl, ?_⟩
        rcases unpack_cases ⟨v', n.version⟩ with ⟨x, hx⟩ | ⟨m, -, hm, hx⟩
        · exact .inl ⟨x, (hreply _).trans (by rw [Except.bind, hx]; rfl)⟩
        · refine .inr ⟨n.version, m, n.version, ?_, fun _ => rfl, (hreply _).trans (by rw [Except.bind, hx])⟩
          have hdec : decode n.data = some m := by
            rw [decode, hd]
            exact hm
          simp [hn, hdec]
    · rename_i tree' e hp
      cases h
      obtain ⟨rfl, -⟩ := perform_get_cases hp
      exact ⟨rfl, .inl ⟨_, (hreply _).trans rfl⟩⟩
    · cases h
  | storage blob =>
    cases h
    have hreply : t.reply op d (.metainfo blob fault) =
        some (t.onRead op d (blob.map (·, notExistingVersion)) fault) := by
      simp only [Task.reply, ht, hs, Store.scheme]
    refine ⟨rfl, ?_⟩
    cases blob with
    | error x => exact .inl ⟨x, hreply⟩
    | ok m =>
      obtain ⟨⟨n, v⟩, rfl, rfl⟩ := Option.map_eq_some_iff.mp (show c.value = some (some m) from hc)
      exact .inr ⟨n, m, notExistingVersion, rfl, by simp [Store.scheme], hreply⟩

/-- A write takes place, on the unicorn only if the version is still that one; or it is not
one that the handler takes for an error, or one that it does. -/
theorem Store.serve_write {version : Int} {m : Metainfo}
    (h : store.serve fault (.writeMetainfo url i version m) = some (store', reply))
    (hc : store.Shows url.entity c) (hv : store.scheme = .unicorn → version < 2 ^ 31) :
    (store'.scheme = store.scheme ∧ store'.Shows url.entity (c.put (some m)) ∧
      (reply = .put (.ok true) ∧ store.scheme = .unicorn ∧ (∃ n v, c = some (n, v) ∧ version = n) ∨
        reply = .stored (.ok ()) ∧ store.scheme = .storage)) ∨
    store' = store ∧ store.scheme = .unicorn ∧
      ((∃ x, reply = .put (.error x)) ∨ reply = .put (.ok false)) := by
  cases store with
  | unicorn tree =>
    obtain rfl : c = _ := hc
    simp only [Store.serve] at h
    split at h
    · rename_i tree' updated w hp
      cases h
      rcases perform_put_cases hp with ⟨n, w', ho, -, h0, hn, hx, ht⟩ | ⟨rfl, hne⟩
      · cases ho
        have hver : (n.version : Int) = version := (expects_i32_iff h0 (hv rfl)).mp hx
        refine .inl ⟨rfl, ?_, .inl ⟨rfl, rfl, n.version, decode n.data, by simp [hn], hver.symm⟩⟩
        have hdec : decode (serialize m.toDyn) = some m := Metainfo.ofDyn_toDyn m
        simp [Store.Shows, ht, hn, Cell.put, Cell.age, hdec]
      · cases updated with
        | true => exact absurd rfl (hne w)
        | false => exact .inr ⟨rfl, rfl, .inr rfl⟩
    · rename_i tree' e hp
      cases h
      rcases perform_put_cases hp with ⟨n, w', ho, -⟩ | ⟨rfl, -⟩
      · cases ho
      · exact .inr ⟨rfl, rfl, .inl ⟨_, rfl⟩⟩
    · cases h
  | storage blob =>
    cases h
    exact .inl ⟨rfl, rfl, .inr ⟨rfl, rfl⟩⟩

end

/-! ## The race -/

/-- How far a request is: what it waits for, and what it has read. -/
inductive Place (r : Alteration) (t : Task) :
    Option BackendCall → Race.Turn (Option Metainfo) → Prop where
  | verifying {handler : VerifyHandler} {asked a : Access} {url : Url} {i : Identity}
    (hs : t.stage = .verifying handler asked) : Place r t (some (.verify a url i)) .idle
  | reading (hs : t.stage = .reading) : Place r t (some (.readMetainfo t.url t.identity)) .idle
  | writing {n : Nat} {m : Metainfo} {version : Int} (hs : t.stage = .writing (alter r.op m r.data))
    (hv : t.url.scheme = .unicorn → version = n) :
    Place r t (some (.writeMetainfo t.url t.identity version (alter r.op m r.data)))
      (.holds (some (n, some m)))
  | finished {call : Option BackendCall} (hs : t.stage = .finished) : Place r t call .done

section

variable {ι : Type} {serviceName entity : Str} {requests : ι → Alteration}

/-- The requests are at the places of the parties of a race. -/
structure Played (serviceName entity : Str) (requests : ι → Alteration)
    (race : Race ι (Option Metainfo)) (s : Contest ι) : Prop where
  url : ∀ k, (s.task k).url = ⟨s.store.scheme, serviceName, entity⟩
  cell : s.store.Shows entity race.cell
  place : ∀ k, Place (requests k) (s.task k) (s.call k) (race.turn k)
  counts : ∀ k, k ∈ race.applied ↔ s.Counts k
  /-- On the storage at most one request is between its read and its write. -/
  alone : s.store.scheme = .storage → ∀ k c, race.turn k = .holds c →
    c = race.cell ∧ ∀ j c', race.turn j = .holds c' → j = k

variable {race : Race ι (Option Metainfo)} {s s' : Contest ι} {k : ι}

variable [DecidableEq ι] {reply : Reply} {e : Effect}

theorem Contest.answer_eq {requests : ι → Alteration} {store : Store}
    (he : (s.task k).reply (requests k).op (requests k).data reply = some e) :
    s.answer requests k store reply = some
      { store
        task := Function.update s.task k { s.task k with stage := e.stage }
        call := Function.update s.call k e.calls.head?
        ended := Function.update s.ended k (e.completion.map (reply, ·)) } := by
  rw [Contest.answer, he, Option.map_some]

theorem Played.turned (h : Played serviceName entity requests race s) (hk : k ∉ race.applied)
    {u : Race.Turn (Option Metainfo)}
    (hp : Place (requests k) { s.task k with stage := e.stage } e.calls.head? u)
    (hc : ∀ c, e.completion = some c → c.report = none → reply = .put (.ok false))
    (hu : ∀ c, u = .holds c → s.store.scheme = .storage →
      c = race.cell ∧ ∀ j c', race.turn j = .holds c' → j = k) :
    Played serviceName entity requests { race with turn := Function.update race.turn k u }
      { store := s.store
        task := Function.update s.task k { s.task k with stage := e.stage }
        call := Function.update s.call k e.calls.head?
        ended := Function.update s.ended k (e.completion.map (reply, ·)) } := by
  refine ⟨fun j => ?_, h.cell, fun j => ?_, fun j => ?_, fun hst j c hj => ?_⟩
  · by_cases hjk : j = k
    · subst hjk
      simpa using h.url j
    · simpa [hjk] using h.url j
  · by_cases hjk : j = k
    · subst hjk
      simpa using hp
    · simpa [hjk] using h.place j
  · by_cases hjk : j = k
    · subst hjk
      refine iff_of_false hk ?_
      rintro ⟨r, c, hr, hnone, hput⟩
      simp only [Function.update_self] at hr
      obtain ⟨c', hc', heq⟩ := Option.map_eq_some_iff.mp hr
      cases heq
      exact hput (hc c hc' hnone)
    · simpa [Contest.Counts, hjk] using h.counts j
  · by_cases hjk : j = k
    · subst hjk
      obtain ⟨hcell, hother⟩ := hu c (by simpa using hj) hst
      refine ⟨hcell, fun i c' hi => ?_⟩
      by_cases hij : i = j
      · exact hij
      · exact hother i c' (by simpa [hij] using hi)
    · have hj' : race.turn j = .holds c := by simpa [hjk] using hj
      obtain ⟨hcell, hother⟩ := h.alone hst j c hj'
      refine ⟨hcell, fun i c' hi => ?_⟩
      by_cases hik : i = k
      · subst hik
        obtain ⟨-, hk'⟩ := hu c' (by simpa using hi) hst
        exact (hk' j c hj').symm
      · exact hother i c' (by simpa [hik] using hi)

theorem Played.written (h : Played serviceName entity requests race s) {c : Cell (Option Metainfo)}
    (hk : race.turn k = .holds c) {store : Store} (hst : store.scheme = s.store.scheme)
    {m : Metainfo} (hc : store.Shows entity (race.cell.put (some m)))
    (he : e.completion = some (s.task k).succeed) (hf : e.stage = .finished)
    (hput : reply ≠ .put (.ok false)) :
    Played serviceName entity requests
      { cell := race.cell.put (some m)
        turn := Function.update race.turn k .done
        applied := k :: race.applied }
      { store
        task := Function.update s.task k { s.task k with stage := e.stage }
        call := Function.update s.call k e.calls.head?
        ended := Function.update s.ended k (e.completion.map (reply, ·)) } := by
  refine ⟨fun j => ?_, hc, fun j => ?_, fun j => ?_, fun hsto j c' hj => ?_⟩
  · by_cases hjk : j = k
    · subst hjk
      simpa [hst] using h.url j
    · simpa [hjk, hst] using h.url j
  · by_cases hjk : j = k
    · subst hjk
      simpa using Place.finished hf
    · simpa [hjk] using h.place j
  · by_cases hjk : j = k
    · subst hjk
      exact iff_of_true List.mem_cons_self ⟨reply, (s.task j).succeed, by simp [he], rfl, hput⟩
    · simpa [Contest.Counts, hjk] using h.counts j
  · by_cases hjk : j = k
    · simp [hjk] at hj
    · have hj' : race.turn j = .holds c' := by simpa [hjk] using hj
      exact absurd ((h.alone (hst ▸ hsto) j c' hj').2 k c hk).symm hjk

/-- The requests as parties around the list. -/
def alterationRace (requests : ι → Alteration) (c₀ : Cell (Option Metainfo)) :
    System (Race ι (Option Metainfo)) (Race.Label ι) :=
  raceSystem (fun k => (requests k).writes) c₀

variable {c₀ : Cell (Option Metainfo)}

/-- Some race of the parties is at the places of the requests. -/
def Contest.Simulated (serviceName entity : Str) (requests : ι → Alteration)
    (c₀ : Cell (Option Metainfo)) (s : Contest ι) : Prop :=
  ∃ race, (alterationRace requests c₀).Reachable System.Any race ∧
    Played serviceName entity requests race s

theorem notMem_applied (hr : (alterationRace requests c₀).Reachable System.Any race)
    (hk : race.turn k ≠ .done) : k ∉ race.applied :=
  fun hm => hk ((Race.serial hr).done k hm)

section

variable (hr : (alterationRace requests c₀).Reachable System.Any race)
  (h : Played serviceName entity requests race s)

include hr h

theorem Played.quit (hk : race.turn k ≠ .done)
    (he : (s.task k).reply (requests k).op (requests k).data reply = some e)
    (hf : e.stage = .finished)
    (hc : ∀ c, e.completion = some c → c.report = none → reply = .put (.ok false))
    (hs : s.answer requests k s.store reply = some s') :
    s'.Simulated serviceName entity requests c₀ := by
  rw [Contest.answer_eq he] at hs
  cases hs
  refine ⟨_, hr.tail (a := .quit k) trivial (Race.step_quit (f := fun k => (requests k).writes) hk), ?_⟩
  exact h.turned (notMem_applied hr hk) (.finished hf) hc (by simp)

theorem Played.stay (hk : race.turn k = .idle)
    (he : (s.task k).reply (requests k).op (requests k).data reply = some e)
    (hp : Place (requests k) { s.task k with stage := e.stage } e.calls.head? .idle)
    (hc : e.completion = none) (hs : s.answer requests k s.store reply = some s') :
    s'.Simulated serviceName entity requests c₀ := by
  rw [Contest.answer_eq he] at hs
  cases hs
  refine ⟨race, hr, ?_⟩
  have hnone : ∀ c, e.completion = some c → c.report = none → reply = .put (.ok false) := by simp [hc]
  have hturned := h.turned (notMem_applied hr (by simp [hk])) hp hnone (by simp)
  rwa [← hk, Function.update_eq_self] at hturned

end

namespace Played

variable (hr : (alterationRace requests c₀).Reachable System.Any race)
  (h : Played serviceName entity requests race s)

include hr h

theorem verified {ec : ErrorCode} (hs : s.answer requests k s.store (.verified ec) = some s') :
    s'.Simulated serviceName entity requests c₀ := by
  obtain ⟨e, he, -⟩ := Option.map_eq_some_iff.mp hs
  have hplace := h.place k
  have hidle : ∀ handler asked, (s.task k).stage = .verifying handler asked → race.turn k = .idle := by
    intro handler asked hst
    generalize s.call k = call, hturn : race.turn k = u at hplace
    cases hplace with
    | verifying hst' | reading hst' => rfl
    | writing hst' | finished hst' =>
      rw [hst] at hst'
      cases hst'
  cases Task.replied he with
  | refused hst hec opcode =>
    refine h.quit hr (by simp [hidle _ _ hst]) he rfl ?_ hs
    rintro c hc hnone
    cases hc
    exact absurd hnone ((s.task k).report_refuse hec opcode)
  | verified hst hec => exact h.stay hr (hidle _ _ hst) he (.verifying rfl) rfl hs
  | permitted hst hec => exact h.stay hr (hidle _ _ hst) he (.reading rfl) rfl hs
  | unread hst | faulted hst | altered hst | unwritten hst | written hst =>
    simp [Task.reply, hst] at he

theorem failed (hk : race.turn k ≠ .done) {x : Exception} {calls : List BackendCall}
    (he : (s.task k).reply (requests k).op (requests k).data reply =
      some { calls, completion := some ((s.task k).fail x) })
    (hs : s.answer requests k s.store reply = some s') :
    s'.Simulated serviceName entity requests c₀ := by
  refine h.quit hr hk he rfl ?_ hs
  rintro c hc hnone
  cases hc
  exact absurd hnone ((s.task k).report_fail x)

theorem read {fault : Option Exception} {store : Store} (hok : s.Orderly (.serve k fault))
    (hcall : s.call k = some (.readMetainfo (s.task k).url (s.task k).identity))
    (hst : (s.task k).stage = .reading) (hturn : race.turn k = .idle)
    (hserve : s.store.serve fault (.readMetainfo (s.task k).url (s.task k).identity) =
      some (store, reply))
    (hs : s.answer requests k store reply = some s') :
    s'.Simulated serviceName entity requests c₀ := by
  have hne : race.turn k ≠ .done := by simp [hturn]
  obtain ⟨rfl, ⟨x, he⟩ | ⟨n, m, version, hc, hv, he⟩⟩ := Store.serve_read hserve (c := race.cell)
    (by rw [h.url k]; exact h.cell) (requests k).op (requests k).data (by rw [h.url k]) hst
  · exact h.failed hr hne he hs
  · cases fault with
    | some x => exact h.failed hr hne he hs
    | none =>
      rw [Contest.answer_eq he] at hs
      cases hs
      refine ⟨_, hr.tail (a := .read k) trivial (Race.step_read (f := fun k => (requests k).writes) hturn), ?_⟩
      refine h.turned (notMem_applied hr hne) ?_ (by simp [Task.onRead]) ?_
      · rw [hc]
        refine .writing rfl fun hu => hv ?_
        rw [h.url k] at hu
        exact hu
      · rintro c hcell hsto
        cases hcell
        refine ⟨rfl, fun j c' hj => ?_⟩
        -- Nobody else is at its write while the storage reads.
        have hplace := h.place j
        rw [hj] at hplace
        generalize s.call j = call at hplace
        cases hplace with
        | writing hst' =>
          have := (hok _ hcall).2 hsto rfl j
          rw [hst'] at this
          cases this

theorem write {fault : Option Exception} {store : Store} {n : Nat} {m : Metainfo} {version : Int}
    (hok : s.Orderly (.serve k fault))
    (hcall : s.call k = some (.writeMetainfo (s.task k).url (s.task k).identity version
      (alter (requests k).op m (requests k).data)))
    (hst : (s.task k).stage = .writing (alter (requests k).op m (requests k).data))
    (hv : (s.task k).url.scheme = .unicorn → version = n)
    (hturn : race.turn k = .holds (some (n, some m)))
    (hserve : s.store.serve fault (.writeMetainfo (s.task k).url (s.task k).identity version
      (alter (requests k).op m (requests k).data)) = some (store, reply))
    (hs : s.answer requests k store reply = some s') :
    s'.Simulated serviceName entity requests c₀ := by
  have hscheme : (s.task k).url.scheme = s.store.scheme := by rw [h.url k]
  have hentity : (s.task k).url.entity = entity := by rw [h.url k]
  have hne : race.turn k ≠ .done := by simp [hturn]
  have hwrites : (requests k).writes (some (some m)) =
      some (some (alter (requests k).op m (requests k).data)) := rfl
  rcases Store.serve_write hserve (c := race.cell) (by rw [hentity]; exact h.cell)
    (hok _ hcall).1 with ⟨hst', hshows, hreply⟩ | ⟨rfl, hu, hreply⟩
  · rw [hentity] at hshows
    have hage : Cell.age (some (n, some m)) = race.cell.age := by
      rcases hreply with ⟨-, hu, n', v, hcell, hn'⟩ | ⟨-, hsto⟩
      · have hn := hv (hscheme.trans hu)
        obtain rfl : n = n' := by omega
        rw [hcell]
        rfl
      · rw [(h.alone hsto k _ hturn).1]
    have hstep := Race.step_write (f := fun k => (requests k).writes) hturn hage hwrites
    obtain ⟨e, he, hcomp, hfin, hput⟩ : ∃ e, (s.task k).reply (requests k).op (requests k).data reply =
        some e ∧ e.completion = some (s.task k).succeed ∧ e.stage = .finished ∧
        reply ≠ .put (.ok false) := by
      rcases hreply with ⟨rfl, hu, -⟩ | ⟨rfl, hsto⟩
      · refine ⟨_, by simp only [Task.reply, hscheme, hu, hst]; rfl, rfl, rfl, by simp⟩
      · refine ⟨_, by simp only [Task.reply, hscheme, hsto, hst]; rfl, rfl, rfl, by simp⟩
    rw [Contest.answer_eq he] at hs
    cases hs
    exact ⟨_, hr.tail (a := .write k) trivial hstep, h.written hturn hst' hshows hcomp hfin hput⟩
  · obtain ⟨updated, rfl⟩ : ∃ updated, reply = .put updated := by
      rcases hreply with ⟨x, rfl⟩ | rfl
      · exact ⟨_, rfl⟩
      · exact ⟨_, rfl⟩
    have he : (s.task k).reply (requests k).op (requests k).data (.put updated) =
        some { completion := some ((s.task k).onDone updated)
               written := if updated = .ok true then
                 some (alter (requests k).op m (requests k).data) else none } := by
      simp only [Task.reply, hscheme, hu, hst]
    refine h.quit hr hne he rfl ?_ hs
    rintro c hc hnone
    cases hc
    rcases hreply with ⟨x, hx⟩ | hx
    · cases hx
      exact absurd hnone ((s.task k).report_fail x)
    · exact hx

theorem step {a : Contest.Label ι} (hok : s.Orderly a) (hs : s.step requests a = some s') :
    s'.Simulated serviceName entity requests c₀ := by
  cases a with
  | verified k ec => exact h.verified hr hs
  | serve k fault =>
    obtain ⟨call, hcall, hbind⟩ := Option.bind_eq_some_iff.mp hs
    obtain ⟨⟨store, reply⟩, hserve, hs'⟩ := Option.bind_eq_some_iff.mp hbind
    have hplace := h.place k
    rw [hcall] at hplace
    generalize hturn : race.turn k = u at hplace
    cases hplace with
    | verifying hst => cases s.store <;> cases hserve
    | reading hst => exact h.read hr hok hcall hst hturn hserve hs'
    | writing hst hv => exact h.write hr hok hcall hst hv hturn hserve hs'
    | finished hst =>
      obtain ⟨e, he, -⟩ := Option.map_eq_some_iff.mp hs'
      exact absurd hst (Task.replied he).unfinished
  | fail k x =>
    obtain ⟨call, hcall, hbind⟩ := Option.bind_eq_some_iff.mp hs
    obtain ⟨reply, hfail, hs'⟩ := Option.bind_eq_some_iff.mp hbind
    have hscheme : (s.task k).url.scheme = s.store.scheme := by rw [h.url k]
    have hplace := h.place k
    rw [hcall] at hplace
    generalize hturn : race.turn k = u at hplace
    generalize s.store.scheme = scheme at hscheme hfail
    cases hplace with
    | verifying hst => cases scheme <;> cases hfail
    | reading hst | writing hst hv =>
      have he : (s.task k).reply (requests k).op (requests k).data reply =
          some { completion := some ((s.task k).fail x) } := by
        cases scheme with
        | unicorn | storage =>
          cases hfail
          simp only [Task.reply, hscheme, hst]
          rfl
      exact h.failed hr (by simp [hturn]) he hs'
    | finished hst =>
      obtain ⟨e, he, -⟩ := Option.map_eq_some_iff.mp hs'
      exact absurd hst (Task.replied he).unfinished
  | lose k x => exact hok.elim

end Played

/-- The alterations one after the other, the last one first. -/
def applyAll (requests : ι → Alteration) (l : List ι) (m : Option Metainfo) : Option Metainfo :=
  l.foldr (fun k m => m.map fun m => alter (requests k).op m (requests k).data) m

omit [DecidableEq ι] in
theorem after_applyAll {l : List ι} {c : Cell (Option Metainfo)}
    (h : Race.After (fun k => (requests k).writes) c₀ l c) :
    c.value.join = applyAll requests l c₀.value.join := by
  induction h with
  | nil => rfl
  | @cons k l c v _ hv ih =>
    obtain ⟨m, hm, rfl⟩ := Option.map_eq_some_iff.mp hv
    rw [hm] at ih
    rw [applyAll, List.foldr_cons, ← applyAll, ← ih]
    rfl

/-- What the list is at first, as a cell. -/
def Store.cell (entity : Str) : Store → Cell (Option Metainfo)
  | .unicorn tree => (tree.node (makeAclPath entity)).map fun n => (n.version, decode n.data)
  | .storage blob => some (0, blob.toOption)

theorem Store.shows_cell (entity : Str) (store : Store) : store.Shows entity (store.cell entity) := by
  cases store <;> rfl

/-- The list is the first one with the alterations that count applied in some order, each once. -/
theorem alterations_in_order (serviceName entity : Str) (requests : ι → Alteration) (store₀ : Store)
    (hr : (contestSystem serviceName entity requests store₀).Reachable Contest.Orderly s) :
    ∃ l : List ι, l.Nodup ∧ (∀ k, k ∈ l ↔ s.Counts k) ∧
      s.store.list entity = applyAll requests l (store₀.list entity) := by
  obtain ⟨race, hrace, h⟩ : s.Simulated serviceName entity requests (store₀.cell entity) := by
    refine hr.induct (P := Contest.Simulated serviceName entity requests (store₀.cell entity)) ?_ ?_
    · rintro _ rfl
      refine ⟨_, ⟨_, rfl, .refl⟩, fun k => rfl, store₀.shows_cell entity, fun k => .verifying rfl, ?_, ?_⟩
      · simp [Contest.Counts]
      · simp
    · rintro s a t ⟨race, hrace, h⟩ hok hs
      exact h.step hrace hok hs
  have hserial := Race.serial hrace
  refine ⟨race.applied, hserial.nodup, h.counts, ?_⟩
  rw [h.cell.list, after_applyAll hserial.after, (store₀.shows_cell entity).list]

end

/-! ## Two grants -/

/-- Each of two clients is granted the right to read. -/
def twoGrants (k : Bool) : Alteration where
  op := .grant
  data := { cids := [if k then 3 else 2], uids := [], flags := Flags.read }
  identity := { cids := [1] }

/-- Both have read before either writes. -/
def overlap : List (Contest.Label Bool) :=
  [.verified false .success, .verified false .success, .verified true .success,
    .verified true .success, .serve false none, .serve true none, .serve false none,
    .serve true none]

/-- On the unicorn the second write does not take place. -/
theorem alterations_in_order_overlap : ∃ s,
    (contestSystem defaultServiceName "/p".toList twoGrants (.unicorn ownedTree)).Reachable
      Contest.Orderly s ∧
    s.store.list "/p".toList = applyAll twoGrants [false] (some ownersList) ∧
    ∃ l : List Bool, l.Nodup ∧ (∀ k, k ∈ l ↔ s.Counts k) ∧
      s.store.list "/p".toList =
        applyAll twoGrants l ((Store.unicorn ownedTree).list "/p".toList) := by
  obtain ⟨s, hr, hs⟩ := (contestSystem defaultServiceName "/p".toList twoGrants
    (.unicorn ownedTree)).exists_reachable Contest.Orderly
    (P := fun s => s.store.list "/p".toList = applyAll twoGrants [false] (some ownersList))
    overlap rfl (by decide +kernel)
  exact ⟨s, hr, hs, alterations_in_order defaultServiceName "/p".toList twoGrants _ hr⟩

/-- On the storage both complete with success, and one of the grants is gone. -/
theorem alteration_lost : ∃ s,
    (contestSystem defaultServiceName "p".toList twoGrants (.storage (.ok ownersList))).Reachable
      System.Any s ∧
    (∀ k, s.ended k = some (.stored (.ok ()), (s.task k).succeed)) ∧
    ∀ l ∈ [[false, true], [true, false]],
      s.store.list "p".toList ≠ applyAll twoGrants l (some ownersList) :=
  (contestSystem defaultServiceName "p".toList twoGrants
    (.storage (.ok ownersList))).exists_reachable System.Any
    overlap rfl (by decide +kernel)

end Cocaine.Unicat
