import Mathlib.Data.List.Nodup
import CocainePlugins.Framework.Transition
import CocainePlugins.Unicorn.Machine

/-!
# The connection and its watchers

`connection_t` has a handle of the ZooKeeper library and a table of watchers, by the number that
the library gives back with an event. A watcher leaves the table before it is invoked, and all
of them do when the handle is replaced, which the executor then tells them.

A watcher is in the table before its command is issued, and nobody takes it out again when the
command is refused. And when no new handle can be made, the old one is given up all the same, but
its watchers are not told.
-/

namespace Cocaine.Unicorn

open Framework

/-- What `cancel_watches` tells a watcher. -/
def WatchReply.expired : WatchReply := ⟨.session, .expired, []⟩

/-- The handle that `init` makes. -/
inductive Opened where
  | null | unrecoverable | ready
deriving DecidableEq, Repr

structure Connection where
  pathPrefix : Str := []
  /-- The handle, if it is not null, and the number of the next one. -/
  handle : Option Nat := none
  handles : Nat := 0
  /-- `session.valid()`. -/
  session : Bool := false
  idCounter : Nat := 1
  /-- The table, in the order of the numbers. -/
  watchers : List Nat := []
  /-- The cancellations that the executor has yet to run. -/
  spawned : List (List Nat) := []
  /-- The invocations, newest first. -/
  invoked : List (Nat × WatchReply) := []
  /-- The watchers whose command was refused. -/
  refused : List Nat := []
deriving DecidableEq, Repr

namespace Connection

variable (s : Connection)

def cancelWatches : Connection :=
  { s with watchers := [], spawned := s.spawned ++ [s.watchers] }

def swap (opened : Opened) : Connection :=
  { s with handle := if opened = .null then none else some s.handles, handles := s.handles + 1 }

/-- `reconnect`, and whether it throws; it makes a second handle if the first one is not ready
and the session could be the reason. -/
def reconnect (first second : Opened) : Connection × Bool :=
  if first = .ready then ({ s with session := true }.swap first |>.cancelWatches, false)
  else
    let opened := if s.session then second else first
    let s := { s with session := false }
    if opened = .ready then (s.swap opened |>.cancelWatches, false) else (s.swap opened, true)

/-- Whether `check_connectivity` reconnects. -/
def disconnected (unrecoverable : Bool) : Bool := s.handle.isNone || unrecoverable

def checkConnectivity (unrecoverable : Bool) (first second : Opened) : Connection × Bool :=
  if s.disconnected unrecoverable then s.reconnect first second else (s, false)

/-- A watched command, and what happens to it. -/
structure Issue where
  path : Str
  watched : Bool
  /-- The handle is unrecoverable by now, and these are the new ones. -/
  unrecoverable : Bool := false
  first : Opened := .ready
  second : Opened := .ready
  /-- The library refuses it. -/
  rejected : Bool := false
deriving DecidableEq, Repr

/-- `zoo_command`, and why it throws. -/
def zooCommand (c : Issue) : Connection × Option Refusal :=
  let p := s.checkConnectivity c.unrecoverable c.first c.second
  if p.2 then (p.1, some .connection)
  else
    match formatPath s.pathPrefix c.path with
    | .error refusal => (p.1, some refusal)
    | .ok _ => (p.1, if c.rejected then some .library else none)

def register : Connection :=
  { s with idCounter := s.idCounter + 1, watchers := s.watchers ++ [s.idCounter] }

/-- `zoo_watched_command`; the watchers of commands that throw are written down. -/
def zooWatchedCommand (c : Issue) : Connection :=
  if c.watched then
    let p := s.register.zooCommand c
    if p.2.isSome then { p.1 with refused := s.idCounter :: p.1.refused } else p.1
  else (s.zooCommand c).1

def watchCb (id : Nat) (type : EventType) (state : SessionState) (path : Option Str) : Connection :=
  if id ∈ s.watchers then
    let watched := if type = .session then [] else (path.getD []).drop s.pathPrefix.length
    { s with watchers := s.watchers.erase id, invoked := (id, ⟨type, state, watched⟩) :: s.invoked }
  else s

def tell (ids : List Nat) : Connection :=
  { s with invoked := (ids.map fun id => (id, WatchReply.expired)).reverse ++ s.invoked }

inductive Label where
  | command (c : Issue)
  | event (id : Nat) (type : EventType) (state : SessionState) (path : Option Str)
  /-- `reconnect` is called by a user. -/
  | reconnect (first second : Opened)
  | execute
deriving DecidableEq, Repr

def step : Label → Option Connection
  | .command c => some (s.zooWatchedCommand c)
  | .event id type state path => some (s.watchCb id type state path)
  | .reconnect first second => some (s.reconnect first second).1
  | .execute =>
    match s.spawned with
    | [] => none
    | ids :: tasks => some ({ s with spawned := tasks }.tell ids)

end Connection

/-- A connection whose constructor has made the first handle. -/
def connectionSystem (pathPrefix : Str) : System Connection Connection.Label where
  init s := ∃ session, s = { pathPrefix, handle := some 0, handles := 1, session }
  step := Connection.step

namespace Connection

variable {s t : Connection}

/-! ## What the operations do -/

/-- The watchers and what becomes of them are left alone. -/
structure Same (s t : Connection) : Prop where
  idCounter : t.idCounter = s.idCounter
  watchers : t.watchers = s.watchers
  spawned : t.spawned = s.spawned
  invoked : t.invoked = s.invoked
  refused : t.refused = s.refused

/-- All watchers are cancelled. -/
structure Cancelled (s t : Connection) : Prop where
  idCounter : t.idCounter = s.idCounter
  watchers : t.watchers = []
  spawned : t.spawned = s.spawned ++ [s.watchers]
  invoked : t.invoked = s.invoked
  refused : t.refused = s.refused

/-- `reconnect` cancels the watchers, unless it throws. -/
theorem reconnect_cases (first second : Opened) :
    ((s.reconnect first second).2 = false ∧ Cancelled s (s.reconnect first second).1) ∨
      ((s.reconnect first second).2 = true ∧ Same s (s.reconnect first second).1) := by
  simp only [reconnect]
  split
  · exact .inl ⟨rfl, rfl, rfl, rfl, rfl, rfl⟩
  · generalize (if s.session then second else first) = opened
    split
    · exact .inl ⟨rfl, rfl, rfl, rfl, rfl, rfl⟩
    · exact .inr ⟨rfl, rfl, rfl, rfl, rfl, rfl⟩

/-- What a command does to the watchers that are there: nothing, unless it reconnects. -/
inductive Commanded (s : Connection) (c : Issue) : Connection × Option Refusal → Prop where
  | connected {p : Connection × Option Refusal} (connected : s.disconnected c.unrecoverable = false)
      (same : p.1 = s) : Commanded s c p
  | reconnected {p : Connection × Option Refusal} (disconnected : s.disconnected c.unrecoverable = true)
      (cancelled : Cancelled s p.1) : Commanded s c p
  | lost {p : Connection × Option Refusal} (disconnected : s.disconnected c.unrecoverable = true)
      (same : Same s p.1) (thrown : (s.reconnect c.first c.second).2 = true)
      (refused : p.2 = some .connection) : Commanded s c p

theorem zooCommand_fst (c : Issue) :
    (s.zooCommand c).1 = (s.checkConnectivity c.unrecoverable c.first c.second).1 := by
  simp only [zooCommand]
  split
  · rfl
  · split <;> rfl

theorem commanded (c : Issue) : Commanded s c (s.zooCommand c) := by
  cases hd : s.disconnected c.unrecoverable with
  | false =>
    refine .connected hd ?_
    simp [zooCommand_fst, checkConnectivity, hd]
  | true =>
    have hcheck : s.checkConnectivity c.unrecoverable c.first c.second =
        s.reconnect c.first c.second := by
      simp [checkConnectivity, hd]
    obtain ⟨hok, hc⟩ | ⟨hthrown, hsame⟩ := reconnect_cases (s := s) c.first c.second
    · refine .reconnected hd ?_
      rw [zooCommand_fst, hcheck]
      exact hc
    · simp only [zooCommand, hcheck]
      rw [if_pos hthrown]
      exact .lost hd hsame hthrown rfl

theorem Commanded.idCounter {c : Issue} {p : Connection × Option Refusal}
    (h : Commanded s c p) : p.1.idCounter = s.idCounter := by
  cases h with
  | connected _ hsame => rw [hsame]
  | reconnected _ hcancelled => exact hcancelled.idCounter
  | lost _ hsame _ _ => exact hsame.idCounter

/-! ## Each watcher in one place -/

/-- The watchers that have been invoked, those that the executor will invoke, and those in the
table. -/
def known (s : Connection) : List Nat := s.invoked.map Prod.fst ++ (s.spawned.flatten ++ s.watchers)

structure Single (s : Connection) : Prop where
  nodup : s.known.Nodup
  below : ∀ id ∈ s.known, id < s.idCounter
  refused : ∀ id ∈ s.refused, id < s.idCounter

namespace Single

theorem perm (h : Single s) (hp : s.known.Perm t.known) (hc : t.idCounter = s.idCounter)
    (hr : t.refused = s.refused) : Single t :=
  ⟨hp.nodup_iff.mp h.nodup, fun id hid => hc ▸ h.below id (hp.mem_iff.mpr hid),
    fun id hid => hc ▸ h.refused id (hr ▸ hid)⟩

theorem same (h : Single s) (hs : Same s t) : Single t := by
  refine h.perm ?_ hs.idCounter hs.refused
  rw [known, known, hs.invoked, hs.spawned, hs.watchers]

theorem cancelled (h : Single s) (hc : Cancelled s t) : Single t := by
  refine h.perm ?_ hc.idCounter hc.refused
  simp [known, hc.invoked, hc.spawned, hc.watchers]

theorem register (h : Single s) : Single s.register := by
  have hnew : s.idCounter ∉ s.known := fun hmem => Nat.lt_irrefl _ (h.below _ hmem)
  have hknown : s.register.known = s.known ++ [s.idCounter] := by
    simp [known, Connection.register]
  refine ⟨?_, fun id hid => ?_, fun id hid => Nat.lt_succ_of_lt (h.refused id hid)⟩
  · rw [hknown]
    exact (List.perm_append_singleton s.idCounter s.known).nodup_iff.mpr
      (List.nodup_cons.mpr ⟨hnew, h.nodup⟩)
  · rw [hknown, List.mem_append, List.mem_singleton] at hid
    show id < s.idCounter + 1
    obtain hid | rfl := hid
    · exact Nat.lt_succ_of_lt (h.below id hid)
    · exact Nat.lt_succ_self _

theorem commanded (h : Single s) {c : Issue} {p : Connection × Option Refusal}
    (hc : Commanded s c p) : Single p.1 := by
  cases hc with
  | connected _ hsame => rw [hsame]; exact h
  | reconnected _ hcancelled => exact h.cancelled hcancelled
  | lost _ hsame _ _ => exact h.same hsame

theorem zooWatchedCommand (h : Single s) (c : Issue) : Single (s.zooWatchedCommand c) := by
  simp only [Connection.zooWatchedCommand]
  split
  · have hp := h.register.commanded (Connection.commanded c)
    have hnew : s.idCounter < (s.register.zooCommand c).1.idCounter := by
      rw [(Connection.commanded c).idCounter]
      exact Nat.lt_succ_self _
    split
    · refine ⟨hp.nodup, hp.below, fun id hid => ?_⟩
      cases hid with
      | head => exact hnew
      | tail _ hid => exact hp.refused id hid
    · exact hp
  · exact h.commanded (Connection.commanded c)

theorem watchCb (h : Single s) (id : Nat) (type : EventType) (state : SessionState)
    (path : Option Str) : Single (s.watchCb id type state path) := by
  simp only [Connection.watchCb]
  split
  · rename_i hid
    refine h.perm ?_ rfl rfl
    -- The watcher moves from the table to the front.
    have htaken := (List.perm_cons_erase hid).append_left (s.invoked.map Prod.fst ++ s.spawned.flatten)
    have hfront : (s.invoked.map Prod.fst ++ s.spawned.flatten ++ id :: s.watchers.erase id).Perm
        (id :: (s.invoked.map Prod.fst ++ s.spawned.flatten ++ s.watchers.erase id)) :=
      List.perm_middle
    simpa [known] using htaken.trans hfront
  · exact h

theorem tell (h : Single s) {ids : List Nat} {tasks : List (List Nat)}
    (hs : s.spawned = ids :: tasks) : Single (Connection.tell { s with spawned := tasks } ids) := by
  refine h.perm ?_ rfl rfl
  have htold : (ids.reverse ++ s.invoked.map Prod.fst).Perm (s.invoked.map Prod.fst ++ ids) :=
    List.perm_append_comm.trans ((List.reverse_perm ids).append_left _)
  have hrest := htold.symm.append_right (tasks.flatten ++ s.watchers)
  simpa [known, Connection.tell, hs, Function.comp_def] using hrest

theorem step (h : Single s) {a : Label} (hs : s.step a = some t) : Single t := by
  cases a with
  | command c =>
    cases hs
    exact h.zooWatchedCommand c
  | event id type state path =>
    cases hs
    exact h.watchCb id type state path
  | reconnect first second =>
    cases hs
    obtain ⟨-, hc⟩ | ⟨-, hsame⟩ := reconnect_cases (s := s) first second
    · exact h.cancelled hc
    · exact h.same hsame
  | execute =>
    simp only [Connection.step] at hs
    split at hs
    · cases hs
    · rename_i ids tasks hspawned
      cases hs
      exact h.tell hspawned

theorem of_reachable {pathPrefix : Str}
    (hr : (connectionSystem pathPrefix).Reachable System.Any s) : Single s := by
  refine hr.induct (P := Single) ?_ ?_
  · rintro s ⟨session, rfl⟩
    exact ⟨List.nodup_nil, by simp [known], by simp⟩
  · rintro s a t h - hs
    exact h.step hs

end Single

/-! ## Runs without refusals -/

theorem reconnect_thrown (first second : Opened) : (s.reconnect first second).2 =
    decide (first ≠ .ready ∧ (if s.session then second else first) ≠ .ready) := by
  by_cases hfirst : first = .ready
  · simp [reconnect, hfirst]
  · by_cases hopened : (if s.session then second else first) = .ready
    · simp [reconnect, hfirst, hopened]
    · simp [reconnect, hfirst, hopened]

/-- Whenever a handle is to be replaced a new one is made, and a watched command on a good handle
is accepted. -/
def Accepted (s : Connection) : Label → Prop
  | .command c =>
    (s.disconnected c.unrecoverable = true → (s.reconnect c.first c.second).2 = false) ∧
      (c.watched = true → s.disconnected c.unrecoverable = false →
        (formatPath s.pathPrefix c.path).isOk = true ∧ c.rejected = false)
  | .reconnect first second => (s.reconnect first second).2 = false
  | .event _ _ _ _ | .execute => True

instance (s : Connection) (a : Label) : Decidable (s.Accepted a) := by
  unfold Accepted
  split <;> infer_instance

theorem zooCommand_accepted {c : Issue} (hc : s.disconnected c.unrecoverable = false)
    (hp : (formatPath s.pathPrefix c.path).isOk = true) (hr : c.rejected = false) :
    s.zooCommand c = (s, none) := by
  cases hpath : formatPath s.pathPrefix c.path with
  | error refusal => simp [hpath, Except.isOk, Except.toBool] at hp
  | ok path => simp [zooCommand, checkConnectivity, hc, hpath, hr]

/-- What an accepted command does: nothing, or it puts its watcher into the table, or it
reconnects and all watchers are cancelled, its own with the others. -/
inductive Issued (s : Connection) : Connection → Prop where
  | unwatched : Issued s s
  | watched : Issued s s.register
  | reconnected {r t : Connection} (refused : List Nat)
      (start : r.watchers = s.watchers ∨ r.watchers = s.watchers ++ [s.idCounter])
      (cancelled : Cancelled r t) : Issued s { t with refused }

theorem issued {c : Issue} (hok : s.Accepted (.command c)) : Issued s (s.zooWatchedCommand c) := by
  obtain ⟨hready, haccept⟩ := hok
  simp only [zooWatchedCommand]
  split
  · rename_i hw
    cases commanded (s := s.register) c with
    | connected hc hsame =>
      obtain ⟨hp, hr⟩ := haccept hw hc
      rw [zooCommand_accepted (s := s.register) hc hp hr]
      exact .watched
    | reconnected _ hcancelled =>
      split
      · exact .reconnected _ (.inr rfl) hcancelled
      · exact .reconnected _ (.inr rfl) hcancelled
    | lost hd _ hthrown _ =>
      have hready := hready hd
      rw [reconnect_thrown] at hthrown hready
      exact absurd (hready.symm.trans hthrown) Bool.false_ne_true
  · cases commanded (s := s) c with
    | connected _ hsame =>
      rw [hsame]
      exact .unwatched
    | reconnected _ hcancelled => exact .reconnected _ (.inl rfl) hcancelled
    | lost hd _ hthrown _ =>
      rw [hready hd] at hthrown
      cases hthrown

/-- No watcher of a refused command is in the table. -/
def Clean (s : Connection) : Prop := ∀ id ∈ s.refused, id ∉ s.watchers

theorem Issued.clean (hi : Issued s t) (h : Clean s) (hs : Single s) : Clean t := by
  cases hi with
  | unwatched => exact h
  | watched =>
    intro id hid hmem
    obtain hmem | hmem := List.mem_append.mp hmem
    · exact h id hid hmem
    · exact absurd (List.mem_singleton.mp hmem) (Nat.ne_of_lt (hs.refused id hid))
  | reconnected refused _ hc =>
    intro id _ hmem
    simp [hc.watchers] at hmem

theorem Clean.step (h : Clean s) (hsingle : Single s) {a : Label} (hok : s.Accepted a)
    (hs : s.step a = some t) : Clean t := by
  cases a with
  | command c =>
    cases hs
    exact (issued hok).clean h hsingle
  | event id type state path =>
    cases hs
    simp only [watchCb]
    split
    · exact fun i hi hw => h i hi (List.mem_of_mem_erase hw)
    · exact h
  | reconnect first second =>
    cases hs
    obtain ⟨-, hc⟩ | ⟨hthrown, -⟩ := reconnect_cases (s := s) first second
    · intro id _ hmem
      rw [hc.watchers] at hmem
      cases hmem
    · exact absurd (hok.symm.trans hthrown) Bool.false_ne_true
  | execute =>
    simp only [Connection.step] at hs
    split at hs
    · cases hs
    · cases hs
      exact h

theorem Clean.of_reachable {pathPrefix : Str}
    (hr : (connectionSystem pathPrefix).Reachable Accepted s) : Clean s := by
  refine (hr.induct (P := fun s => Clean s ∧ Single s) ?_ ?_).1
  · rintro s ⟨session, rfl⟩
    exact ⟨by simp [Clean], List.nodup_nil, by simp [known], by simp⟩
  · rintro s a t ⟨h, hsingle⟩ hok hs
    exact ⟨h.step hsingle hok hs, hsingle.step hs⟩

/-! ## Every run -/

/-- The watcher has been told that the session is lost, or the executor will do so. -/
def Notified (s : Connection) (id : Nat) : Prop :=
  id ∈ s.spawned.flatten ∨ (id, WatchReply.expired) ∈ s.invoked

theorem Cancelled.notified (hc : Cancelled s t) {id : Nat} (hid : id ∈ s.watchers) :
    id ∉ t.watchers ∧ t.Notified id := by
  refine ⟨by simp [hc.watchers], .inl ?_⟩
  rw [hc.spawned]
  simp [hid]

/-- A step that changes the handle cancels the watchers. -/
theorem notified_step {a : Label} (hok : s.Accepted a) (hs : s.step a = some t)
    (hne : t.handle ≠ s.handle) {id : Nat} (hid : id ∈ s.watchers) :
    id ∉ t.watchers ∧ t.Notified id := by
  cases a with
  | command c =>
    cases hs
    have hi := issued hok
    generalize s.zooWatchedCommand c = t at hi hne ⊢
    cases hi with
    | unwatched | watched => exact absurd rfl hne
    | @reconnected r t refused hstart hc =>
      have hr : id ∈ r.watchers := by
        obtain heq | heq := hstart
        · rw [heq]
          exact hid
        · rw [heq]
          exact List.mem_append_left _ hid
      exact hc.notified hr
  | event i type state path =>
    cases hs
    refine absurd ?_ hne
    simp only [watchCb]
    split <;> rfl
  | reconnect first second =>
    cases hs
    obtain ⟨-, hc⟩ | ⟨hthrown, -⟩ := reconnect_cases (s := s) first second
    · exact hc.notified hid
    · exact absurd (hok.symm.trans hthrown) Bool.false_ne_true
  | execute =>
    simp only [Connection.step] at hs
    split at hs
    · cases hs
    · cases hs
      exact absurd rfl hne

/-- A watcher is invoked once at most. As long as commands are accepted and handles are made, no
watcher of a refused command is in the table, and when the handle is replaced every watcher of
the old one is told. -/
theorem watchers_told {pathPrefix : Str}
    (hr : (connectionSystem pathPrefix).Reachable System.Any s) :
    (s.invoked.map Prod.fst).Nodup ∧
      ((connectionSystem pathPrefix).Reachable Accepted s →
        (∀ id ∈ s.refused, id ∉ s.watchers) ∧
        ∀ a t, s.Accepted a → s.step a = some t → t.handle ≠ s.handle →
          ∀ id ∈ s.watchers, id ∉ t.watchers ∧ t.Notified id) := by
  refine ⟨(Single.of_reachable hr).nodup.sublist (List.sublist_append_left _ _), fun ha => ?_⟩
  exact ⟨Clean.of_reachable ha, fun a t hok hs hne id hid => notified_step hok hs hne hid⟩

/-- Two watchers, an event for one of them, and a reconnection. -/
theorem watchers_told_two :
    ∃ s t, (connectionSystem []).Reachable Accepted s ∧ s.watchers = [2] ∧
      s.invoked.map Prod.fst = [1] ∧ (s.invoked.map Prod.fst).Nodup ∧
      s.step (.reconnect .unrecoverable .ready) = some t ∧ 2 ∉ t.watchers ∧ t.Notified 2 := by
  obtain ⟨s, hr, hw, hi, hok, hstep⟩ := (connectionSystem []).exists_reachable Accepted
    (P := fun s => s.watchers = [2] ∧ s.invoked.map Prod.fst = [1] ∧
      s.Accepted (.reconnect .unrecoverable .ready) ∧
      ∃ t ∈ s.step (.reconnect .unrecoverable .ready), t.handle ≠ s.handle)
    [.command { path := "/a".toList, watched := true },
      .command { path := "/b".toList, watched := true },
      .event 1 .changed .connected (some "/a".toList)] ⟨true, rfl⟩ (by decide +kernel)
  obtain ⟨t, ht, hne⟩ := hstep
  obtain ⟨hnodup, haccepted⟩ := watchers_told hr.any
  obtain ⟨hgone, htold⟩ := (haccepted hr).2 _ t hok ht hne 2 (by simp [hw])
  exact ⟨s, t, hr, hw, hi, hnodup, ht, hgone, htold⟩

/-- The watcher of a command with a bad path stays in the table; and the handle is lost when no
new one can be made, with a watcher that nobody tells. -/
theorem watchers_untold :
    (∃ s, (connectionSystem []).Reachable System.Any s ∧ s.refused = [1] ∧ s.watchers = [1]) ∧
      ∃ s, (connectionSystem []).Reachable System.Any s ∧ s.watchers = [1] ∧ s.refused = [] ∧
        ∃ t, s.step (.reconnect .null .null) = some t ∧ t.handle = none ∧
          t.watchers = [1] ∧ t.spawned = [] ∧ t.invoked = [] := by
  constructor
  · exact (connectionSystem []).exists_reachable System.Any
      [.command { path := "a".toList, watched := true }] ⟨true, rfl⟩ (by decide +kernel)
  · obtain ⟨s, hr, hw, hrefused, ht⟩ := (connectionSystem []).exists_reachable System.Any
      (P := fun s => s.watchers = [1] ∧ s.refused = [] ∧ ∃ t ∈ s.step (.reconnect .null .null),
        t.handle = none ∧ t.watchers = [1] ∧ t.spawned = [] ∧ t.invoked = [])
      [.command { path := "/a".toList, watched := true }] ⟨true, rfl⟩ (by decide +kernel)
    exact ⟨s, hr, hw, hrefused, ht⟩

end Connection

end Cocaine.Unicorn
