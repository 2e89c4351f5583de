import CocainePlugins.Unicorn.Machine

/-!
# The requests of an operation

Whatever is replied to it, an operation makes only the requests of its class on its
own path, on the ancestors of that path and, for a lock, in its folder and on the
node that was reported to it (`Command.Asks`).
-/

namespace Cocaine.Unicorn

open Framework

/-- The requests that the command makes, if the nodes `reported` were created for it. -/
inductive Command.Asks (reported : Str → Prop) : Command → Query → Prop where
  | put {path : Str} {value : Value} {version : Int} (h : 0 ≤ version) :
    Asks reported (.put path value version) (.put path (serialize value) version)
  | reread {path : Str} {value : Value} {version : Int} :
    Asks reported (.put path value version) (.get path)
  | get {path : Str} : Asks reported (.get path) (.get path)
  | create {path : Str} {value : Value} {ephemeral sequence : Bool} :
    Asks reported (.create path value ephemeral sequence)
      (CreateT.own path value ephemeral sequence)
  | above {path p : Str} {value : Value} {ephemeral sequence : Bool} {depth : Nat}
    (h : pathParent path (depth + 1) = .ok p) :
    Asks reported (.create path value ephemeral sequence) (.create p .raw false false)
  | del {path : Str} {version : Int} : Asks reported (.del path version) (.del path version)
  | exists' {path : Str} : Asks reported (.subscribe path) (.exists' path)
  | read {path : Str} : Asks reported (.subscribe path) (.get path)
  | childs {path : Str} : Asks reported (.childrenSubscribe path) (.childs path)
  | current {path : Str} {value : Value} : Asks reported (.increment path value) (.get path)
  | first {path : Str} {value sum : Value} :
    Asks reported (.increment path value) (.create path (serialize sum) false false)
  | next {path : Str} {value sum : Value} {version : Int} :
    Asks reported (.increment path value) (.put path (serialize sum) version)
  | sequence {cmd : Command} {folder : Str} {value : Value} (h : cmd.locks = some (folder, value)) :
    Asks reported cmd (LockT.own folder value)
  | folder {cmd : Command} {folder p : Str} {value : Value} {depth : Nat}
    (h : cmd.locks = some (folder, value)) (hp : pathParent (LockT.path folder) (depth + 1) = .ok p) :
    Asks reported cmd (.create p .raw false false)
  | rivals {cmd : Command} {folder : Str} {value : Value} (h : cmd.locks = some (folder, value)) :
    Asks reported cmd (.childs folder)
  | previous {cmd : Command} {folder : Str} {value : Value} (h : cmd.locks = some (folder, value))
    (name : Str) : Asks reported cmd (.exists' (folder ++ '/' :: name))
  | node {cmd : Command} {p : Str} (h : cmd.locks.isSome = true) (hp : reported p) :
    Asks reported cmd (.get p)
  | release {cmd : Command} {p : Str} (h : cmd.locks.isSome = true) (hp : reported p) :
    Asks reported cmd (.del p (-1))

/-- A reply to the operation reported the node. -/
def Machine.reported (m : Machine) (p : Str) : Prop := ∃ q, .replied q (.create .ok p) ∈ m.log

theorem Command.Asks.mono {r r' : Str → Prop} (hr : ∀ p, r p → r' p) {cmd : Command} {q : Query}
    (h : cmd.Asks r q) : cmd.Asks r' q := by
  cases h with
  | put h => exact .put h
  | reread => exact .reread
  | get => exact .get
  | create => exact .create
  | above h => exact .above h
  | del => exact .del
  | exists' => exact .exists'
  | read => exact .read
  | childs => exact .childs
  | current => exact .current
  | first => exact .first
  | next => exact .next
  | sequence h => exact .sequence h
  | folder h hp => exact .folder h hp
  | rivals h => exact .rivals h
  | previous h name => exact .previous h name
  | node h hp => exact .node h (hr _ hp)
  | release h hp => exact .release h (hr _ hp)

/-- A call that is a request is one of the command. -/
def Call.Fits (r : Str → Prop) (cmd : Command) (c : Call) : Prop :=
  ∀ q w, c = .request q w → cmd.Asks r q

/-- Every request among the calls is one of the command. -/
def Asked (r : Str → Prop) (cmd : Command) (calls : List Call) : Prop :=
  ∀ c ∈ calls, c.Fits r cmd

namespace Asked

variable {r : Str → Prop} {cmd : Command}

theorem nil : Asked r cmd [] := by simp [Asked]

theorem throw (e : Error) : Asked r cmd [.throw e] := by simp [Asked, Call.Fits]

theorem satisfy (s : Response) : Asked r cmd [.satisfy s] := by simp [Asked, Call.Fits]

theorem reconnect : Asked r cmd [.reconnect] := by simp [Asked, Call.Fits]

theorem request {q : Query} (h : cmd.Asks r q) (w : Bool) : Asked r cmd [.request q w] := by
  intro c hc q' w' heq
  cases List.mem_singleton.mp hc
  cases heq
  exact h

theorem append {l l' : List Call} (h : Asked r cmd l) (h' : Asked r cmd l') :
    Asked r cmd (l ++ l') := by
  intro c hc
  rcases List.mem_append.mp hc with hc | hc
  · exact h c hc
  · exact h' c hc

end Asked

section Classes

variable {r : Str → Prop} {cmd : Command}

theorem ancestor_asked {path : Str} {depth : Nat}
    (h : ∀ p, pathParent path (depth + 1) = .ok p → cmd.Asks r (.create p .raw false false)) :
    Asked r cmd (ancestor path (depth + 1)) := by
  unfold ancestor
  split
  · exact .throw _
  · rename_i p hp
    exact .request (h p hp) false

theorem onCreated_asked {path : Str} {own : Query} {arrived : List Call} {depth : Nat} {rc : Rc}
    (h : ∀ d p, pathParent path (d + 1) = .ok p → cmd.Asks r (.create p .raw false false))
    (ho : cmd.Asks r own) (ha : rc = .ok → Asked r cmd arrived) :
    Asked r cmd (onCreated path own arrived depth rc).2 := by
  unfold onCreated
  split
  · exact ha rfl
  · exact .request ho false
  · exact ancestor_asked (h _)
  · exact ancestor_asked (h _)
  · exact .throw _

variable (rc : Rc) (data : Data) (stat : Stat) (path : Str) (value : Value) (w : WatchReply)

theorem PutT.onPut_asked (version : Int) :
    Asked r (.put path value version) (PutT.onPut path value rc stat) := by
  unfold PutT.onPut
  split
  · exact .request .reread false
  · split
    · exact .throw _
    · exact .satisfy _

theorem PutT.onGet_asked : Asked r cmd (PutT.onGet rc data stat) := by
  unfold PutT.onGet
  split
  · exact .throw _
  · split
    · exact .throw _
    · exact .satisfy _

theorem GetT.onGet_asked : Asked r cmd (GetT.onGet rc data stat) := by
  unfold GetT.onGet
  split
  · exact .satisfy _
  · split
    · exact .throw _
    · split
      · exact .throw _
      · split
        · exact .throw _
        · exact .satisfy _

theorem SubscribeT.onGet_asked : Asked r cmd (SubscribeT.onGet rc data stat) := by
  unfold SubscribeT.onGet
  split
  · exact .throw _
  · split
    · exact .throw _
    · split
      · exact .throw _
      · exact .satisfy _

theorem SubscribeT.onExists_asked : Asked r (.subscribe path) (SubscribeT.onExists path rc) := by
  unfold SubscribeT.onExists
  split
  · exact .request .read false
  · exact .satisfy _

theorem SubscribeT.onWatch_asked (closed : Bool) :
    Asked r (.subscribe path) (SubscribeT.onWatch path closed w) := by
  unfold SubscribeT.onWatch
  split
  · exact .nil
  · split
    · exact .request .read true
    · split
      · exact .throw _
      · split
        · exact .throw _
        · exact .throw _

theorem ChildrenSubscribeT.onChilds_asked (children : List Str) :
    Asked r cmd (ChildrenSubscribeT.onChilds rc children stat) := by
  unfold ChildrenSubscribeT.onChilds
  split
  · exact .throw _
  · exact .satisfy _

theorem ChildrenSubscribeT.onWatch_asked (closed : Bool) :
    Asked r (.childrenSubscribe path) (ChildrenSubscribeT.onWatch path closed w) := by
  unfold ChildrenSubscribeT.onWatch
  split
  · exact .nil
  · split
    · exact .throw _
    · split
      · exact .request .childs true
      · split
        · exact .throw _
        · exact .throw _

theorem IncrementT.onGet_asked (v : Value) :
    Asked r (.increment path value) (IncrementT.onGet path v rc data stat).2 := by
  unfold IncrementT.onGet
  split
  · exact .request .first false
  · split
    · exact .throw _
    · split
      · exact .throw _
      · split
        · exact .throw _
        · split
          · exact .throw _
          · exact .request .next false

theorem IncrementT.onPut_asked : Asked r cmd (IncrementT.onPut value rc stat) := by
  unfold IncrementT.onPut
  split
  · exact .throw _
  · exact .satisfy _

theorem IncrementT.onCreate_asked : Asked r cmd (IncrementT.onCreate value rc) := by
  unfold IncrementT.onCreate
  split
  · exact .throw _
  · exact .satisfy _

theorem DelT.onDel_asked : Asked r cmd (DelT.onDel rc) := by
  unfold DelT.onDel
  split
  · exact .throw _
  · exact .satisfy _

theorem LockT.Reaction.asked {folder created : Str} {value : Value} {calls : List Call}
    (hr : Reaction folder created calls) (h : cmd.locks = some (folder, value))
    (hc : created ≠ [] → r created) : Asked r cmd calls := by
  have hl : cmd.locks.isSome = true := by simp [h]
  cases hr with
  | nothing => exact .nil
  | throw e => exact .throw e
  | reconnect => exact .reconnect
  | again => exact .request (.rivals h) false
  | grant hne => exact (Asked.satisfy _).append (.request (.node hl (hc hne)) true)
  | wait hne => exact (Asked.request (.previous h _) true).append (.request (.node hl (hc hne)) true)

end Classes

variable {r : Str → Prop}

theorem Action.run_asked (cmd : Command) : Asked r cmd (Action.init cmd).run := by
  cases cmd with
  | put path value version =>
    simp only [run, init, PutT.run]
    split
    · exact .throw _
    · rename_i h
      exact .request (.put (Int.not_lt.mp h)) false
  | increment path value =>
    simp only [run, init, IncrementT.run]
    split
    · exact .request .current false
    · exact .throw _
  | get => exact .request .get false
  | create => exact .request .create false
  | del => exact .request .del false
  | subscribe => exact .request .exists' true
  | childrenSubscribe => exact .request .childs true
  | lock | namedLock => exact .request (.sequence rfl) false

theorem Action.onLockCreated_asked {a : Action} {folder : Str} {value : Value}
    (h : a.cmd.locks = some (folder, value)) (closed : Bool) (rc : Rc) (path : Str)
    (hp : rc = .ok → r path) : Asked r a.cmd (a.onLockCreated folder value closed rc path).2 := by
  refine onCreated_asked (fun d p hd => .folder h hd) (.sequence h) fun hok => ?_
  split
  · exact .request (.release (by simp [h]) (hp hok)) false
  · exact .request (.rivals h) false

theorem Action.onReply_asked {a : Action} (hc : a.created ≠ [] → r a.created)
    (closed : Bool) (reply : Reply) (hp : ∀ p, reply = .create .ok p → r p) :
    Asked r a.cmd (a.onReply closed reply).2 := by
  obtain ⟨cmd, depth, v, created⟩ := a
  cases reply with
  | put rc stat =>
    cases cmd with
    | put => exact PutT.onPut_asked rc stat _ _ _
    | increment => exact IncrementT.onPut_asked rc stat v
    | _ => exact .nil
  | get rc data stat =>
    cases cmd with
    | put => exact PutT.onGet_asked rc data stat
    | get => exact GetT.onGet_asked rc data stat
    | subscribe => exact SubscribeT.onGet_asked rc data stat
    | increment => exact IncrementT.onGet_asked rc data stat _ _ v
    | lock | namedLock => exact (LockT.onGet_reaction rc).asked rfl hc
    | _ => exact .nil
  | create rc p =>
    cases cmd with
    | create => exact onCreated_asked (fun d p hd => .above hd) .create fun _ => .satisfy _
    | increment => exact IncrementT.onCreate_asked rc v
    | lock | namedLock => exact onLockCreated_asked rfl closed rc p fun h => hp p (by rw [h])
    | _ => exact .nil
  | del rc =>
    cases cmd with
    | del => exact DelT.onDel_asked rc
    | lock | namedLock => exact (LockT.onDel_reaction rc).asked rfl hc
    | _ => exact .nil
  | exists' rc stat =>
    cases cmd with
    | subscribe => exact SubscribeT.onExists_asked rc _
    | lock | namedLock => exact (LockT.onExists_reaction rc).asked rfl hc
    | _ => exact .nil
  | childs rc children stat =>
    cases cmd with
    | childrenSubscribe => exact ChildrenSubscribeT.onChilds_asked rc stat children
    | lock | namedLock => exact (LockT.onChilds_reaction rc children).asked rfl hc
    | _ => exact .nil

theorem Action.onWatch_asked (a : Action) (closed : Bool) (w : WatchReply) :
    Asked r a.cmd (a.onWatch closed w) := by
  obtain ⟨cmd, depth, v, created⟩ := a
  cases cmd with
  | subscribe path => exact SubscribeT.onWatch_asked path w closed
  | childrenSubscribe path => exact ChildrenSubscribeT.onWatch_asked path w closed
  | lock folder | namedLock folder =>
    have h : LockT.Reaction folder [] (LockT.onWatch folder w) := LockT.onWatch_reaction w
    exact h.asked rfl (absurd rfl)
  | _ => exact .nil

/-- A path is recorded from a reply. -/
theorem Action.created_onReply (a : Action) (closed : Bool) (r : Reply) :
    (a.onReply closed r).1.created = a.created ∨
      r = .create .ok (a.onReply closed r).1.created := by
  obtain ⟨cmd, depth, v, created⟩ := a
  have hlock : ∀ folder value rc path, (Action.onLockCreated ⟨cmd, depth, v, created⟩ folder value
      closed rc path).1.created = created ∨ Reply.create rc path = .create .ok (Action.onLockCreated
      ⟨cmd, depth, v, created⟩ folder value closed rc path).1.created := by
    intro folder value rc path
    by_cases h : rc = .ok ∧ depth = 0
    · simp [onLockCreated, h]
    · simp [onLockCreated, h]
  cases r with
  | create rc path =>
    cases cmd with
    | lock | namedLock => exact hlock _ _ rc path
    | _ => exact .inl rfl
  | _ => cases cmd <;> exact .inl rfl

/-! ## Along a run -/

/-- Everything the operation has asked for and will ask for, with what was reported
to it so far. -/
structure Asking (cmd : Command) (r : Str → Prop) (m : Machine) : Prop where
  runs : m.act.cmd = cmd
  attached : m.attached = true → cmd.locks.isSome = true
  created : m.act.created ≠ [] → r m.act.created
  heard : ∀ p, r p → m.reported p
  sent : ∀ q, .sent q ∈ m.log → cmd.Asks r q
  outbox : ∀ s ∈ m.outbox, cmd.Asks r s.query
  running : ∀ calls ∈ m.running, Asked r cmd calls

namespace Asking

variable {cmd : Command} {r : Str → Prop} {m m' : Machine}

theorem note (h : Asking cmd r m) {o : Obs} (ho : ∀ q, o = .sent q → cmd.Asks r q) :
    Asking cmd r (m.note o) where
  runs := h.runs
  attached := h.attached
  created := h.created
  heard p hp := by
    obtain ⟨q, hq⟩ := h.heard p hp
    exact ⟨q, List.mem_cons_of_mem _ hq⟩
  sent q hq := by
    rcases List.mem_cons.mp hq with hq | hq
    · exact ho q hq.symm
    · exact h.sent q hq
  outbox := h.outbox
  running := h.running

theorem send (h : Asking cmd r m) {q : Query} (hq : cmd.Asks r q) (w : Option Nat) :
    Asking cmd r (m.send q w) := by
  have hn := h.note (o := .sent q) (by rintro _ ⟨⟩; exact hq)
  refine ⟨hn.runs, hn.attached, hn.created, hn.heard, hn.sent, fun s hs => ?_, hn.running⟩
  rcases List.mem_append.mp hs with hs | hs
  · exact h.outbox s hs
  · cases List.mem_singleton.mp hs
    exact hq

theorem kept : Kept (Call.Fits r cmd) (Asking cmd r) where
  watch _ h := ⟨h.runs, h.attached, h.created, h.heard, h.sent, h.outbox, h.running⟩
  send w h hq := h.send (hq _ _ rfl) w
  satisfy h _ _ := h.note nofun
  fail {_ e} h _ _ := by
    have hn := h.note (o := .invoked (.error e)) nofun
    exact ⟨hn.runs, hn.attached, hn.created, hn.heard, hn.sent, hn.outbox, hn.running⟩
  reconnect c h := h.note nofun
  release h ha hc := h.send (.release (h.attached ha) (h.created hc)) none
  detach h := ⟨h.runs, nofun, h.created, h.heard, h.sent, h.outbox, h.running⟩
  wait h hr := ⟨h.runs, h.attached, h.created, h.heard, h.sent, h.outbox,
    List.forall_mem_cons.mpr ⟨hr, h.running⟩⟩

theorem start (cmd : Command) (l : Luck) : Asking cmd (fun _ => False) (.start cmd l) := by
  have h : Asking cmd (fun _ => False) { act := .init cmd, attached := cmd.locks.isSome } := by
    refine ⟨by cases cmd <;> rfl, id, fun hc => hc ?_, nofun, by simp, by simp, by simp⟩
    cases cmd <;> rfl
  have hrun := Action.run_asked (r := fun _ => False) cmd
  unfold Machine.start
  dsimp only
  split
  · exact h
  · rename_i c _ heq
    rw [heq] at hrun
    have he := kept.exec h (hrun c List.mem_cons_self) l
    exact ⟨he.runs, he.attached, he.created, he.heard, he.sent, he.outbox, he.running⟩

/-- With all that was reported. -/
theorem all (h : Asking cmd r m) : Asking cmd m.reported m where
  runs := h.runs
  attached := h.attached
  created hc := h.heard _ (h.created hc)
  heard _ := id
  sent q hq := (h.sent q hq).mono h.heard
  outbox s hs := (h.outbox s hs).mono h.heard
  running calls hc c hm q w heq := (h.running calls hc c hm q w heq).mono h.heard

theorem close (h : Asking cmd r m) (l : Luck) : Asking cmd r (m.close l) := by
  have ha := kept.onAbort h l
  unfold Machine.close
  split
  · exact h.note nofun
  · dsimp only
    split
    · exact ha
    · have hn := ha.note (o := .closed) nofun
      exact ⟨hn.runs, hn.attached, hn.created, hn.heard, hn.sent, hn.outbox, hn.running⟩

theorem deliver (h : Asking cmd r m) (q : Query) (reply : Reply) (l : Luck) :
    Asking cmd (m.note (.replied q reply)).reported (m.deliver q reply l) := by
  have hn := (h.note (o := .replied q reply) nofun).all
  have hcr : (m.act.onReply m.closed reply).1.created ≠ [] →
      (m.note (.replied q reply)).reported (m.act.onReply m.closed reply).1.created := by
    intro hc
    rcases m.act.created_onReply m.closed reply with heq | heq
    · rw [heq] at hc ⊢
      exact hn.created hc
    · exact ⟨q, List.mem_cons.mpr (.inl (congrArg _ heq.symm))⟩
  refine kept.handle ?_ ?_ l
  · exact ⟨(m.act.cmd_onReply m.closed reply).trans h.runs, h.attached, hcr, hn.heard, hn.sent,
      hn.outbox, hn.running⟩
  · rw [← h.runs]
    refine Action.onReply_asked hn.created m.closed reply ?_
    rintro p rfl
    exact ⟨q, List.mem_cons_self⟩

theorem step {a : Label} (h : Asking cmd r m) (hs : m.step a = some m') :
    ∃ r', Asking cmd r' m' := by
  cases Machine.stepped hs with
  | reply hk hr =>
    refine ⟨_, deliver (r := r) ?_ _ _ _⟩
    exact ⟨h.runs, h.attached, h.created, h.heard, h.sent,
      fun s hs => h.outbox s (List.mem_of_mem_eraseIdx hs), h.running⟩
  | event =>
    refine ⟨r, kept.handle ?_ ?_ _⟩
    · exact ⟨h.runs, h.attached, h.created, h.heard, h.sent, h.outbox, h.running⟩
    · exact h.runs ▸ m.act.onWatch_asked m.closed _
  | resume hk =>
    refine ⟨r, kept.handle ?_ (h.running _ (List.mem_of_getElem? hk)) _⟩
    exact ⟨h.runs, h.attached, h.created, h.heard, h.sent, h.outbox,
      fun calls hc => h.running calls (List.mem_of_mem_eraseIdx hc)⟩
  | abort =>
    refine ⟨r, kept.abort ?_ (.inl nofun) _⟩
    exact ⟨h.runs, h.attached, h.created, h.heard, h.sent, h.outbox, h.running⟩
  | close => exact ⟨r, h.close _⟩

end Asking

theorem Machine.asking {cmd : Command} {m : Machine}
    (hr : (operationSystem cmd).Reachable System.Any m) : Asking cmd m.reported m := by
  have h : ∃ r, Asking cmd r m := by
    refine hr.induct (P := fun m => ∃ r, Asking cmd r m) ?_ ?_
    · rintro m ⟨l, rfl⟩
      exact ⟨_, Asking.start cmd l⟩
    · rintro m a m' ⟨r, h⟩ _ hs
      exact h.step hs
  obtain ⟨r, h⟩ := h
  exact h.all

end Cocaine.Unicorn
