import CocainePlugins.Unicorn.Value

/-!
# The operations of `zookeeper_t`

Each operation is a class derived from `safe`: `run` makes the first request and
each reply is handled by an `on_reply`. A handler is the list of what it does, in
order (`Call`): requests, invocations of the user's callback, an exception. Every
call may throw, which is up to the environment, so a handler does not see it.
The members that the handlers change are those of `Action`; a class that lacks
one leaves it at its default.
-/

namespace Cocaine.Unicorn

open Framework

/-! ## Requests and replies -/

/-- The requests of `connection_t`. -/
inductive Query where
  | put (path : Str) (data : Data) (version : Int)
  | get (path : Str)
  | create (path : Str) (data : Data) (ephemeral sequence : Bool)
  | del (path : Str) (version : Int)
  | exists' (path : Str)
  | childs (path : Str)
deriving DecidableEq

/-- What the completions pass on. With an error code the rest is empty. -/
inductive Reply where
  | put (rc : Rc) (stat : Stat)
  | get (rc : Rc) (data : Data) (stat : Stat)
  | create (rc : Rc) (path : Str)
  | del (rc : Rc)
  | exists' (rc : Rc) (stat : Stat)
  | childs (rc : Rc) (children : List Str) (stat : Stat)
deriving DecidableEq

inductive EventType where
  | created | deleted | changed | child | session | notWatching | other
deriving DecidableEq, Repr

inductive SessionState where
  | expired | authFailed | connecting | associating | connected | other
deriving DecidableEq, Repr

structure WatchReply where
  type : EventType
  state : SessionState := .connected
  path : Str := []
deriving DecidableEq, Repr

def eventToString : EventType → String
  | .created => "created"
  | .deleted => "deleted"
  | .changed => "changed"
  | .child => "child"
  | .session => "session"
  | .notWatching => "not watching"
  | .other => "unknown"

def stateToString : SessionState → String
  | .expired => "expired session"
  | .authFailed => "auth failed"
  | .connecting => "connecting"
  | .associating => "associating"
  | .connected => "connected"
  | .other => "unknown"

/-- What the user's callback gets. -/
inductive Response where
  | put (updated : Bool) (current : Versioned)
  | value (v : Versioned)
  | done (b : Bool)
  | children (cversion : Int) (children : List Str)
deriving DecidableEq

inductive Call where
  | request (q : Query) (watch : Bool)
  | satisfy (r : Response)
  | throw (e : Error)
  | reconnect
deriving DecidableEq

/-- A request without a watch, and nothing else. -/
def ask (q : Query) : List Call := [.request q false]

def fail (rc : Rc) (what : String) : List Call := [.throw ⟨mapZooError rc, what⟩]

def throwWatchEvent (w : WatchReply) : List Call :=
  [.throw ⟨.connectionLoss, "watch occured with \"" ++ eventToString w.type ++ "\" type, \"" ++
    stateToString w.state ++ "\" state event on \"" ++ String.ofList w.path ++ "\" path"⟩]

/-! ## `put_t` -/

namespace PutT

def run (path : Str) (value : Value) (version : Int) : List Call :=
  if version < 0 then [.throw ⟨.versionNotAllowed, "negative version is not allowed for put"⟩]
  else ask (.put path (serialize value) version)

def onPut (path : Str) (value : Value) (rc : Rc) (stat : Stat) : List Call :=
  if rc = .badVersion then ask (.get path)
  else if rc ≠ .ok then fail rc "failure during writing node value"
  else [.satisfy (.put true ⟨value, stat.version⟩)]

def onGet (rc : Rc) (data : Data) (stat : Stat) : List Call :=
  if rc ≠ .ok then fail rc "failure during getting new node value"
  else
    match unserialize data with
    | .error e => [.throw e]
    | .ok v => [.satisfy (.put false ⟨v, stat.version⟩)]

end PutT

/-! ## `get_t` -/

namespace GetT

def onGet (rc : Rc) (data : Data) (stat : Stat) : List Call :=
  if rc = .noNode then [.satisfy (.value ⟨.null, notExistingVersion⟩)]
  else if rc ≠ .ok then fail rc "failure during getting node value"
  else if stat.numChildren ≠ 0 then
    [.throw ⟨.childNotAllowed, "trying to read value of the node with childs"⟩]
  else
    match unserialize data with
    | .error e => [.throw e]
    | .ok v => [.satisfy (.value ⟨v, stat.version⟩)]

end GetT

/-! ## Creating the ancestors of a path

`create_t` and `lock_t` go up and down the ancestors in the same way; they differ
in how the node itself is created and in what follows. -/

def ancestor (path : Str) (depth : Nat) : List Call :=
  match pathParent path depth with
  | .error e => [.throw e]
  | .ok p => ask (.create p .raw false false)

/-- The reply to the creation of the ancestor at `depth`, of the node itself at 0:
the new depth, and what is done. -/
def onCreated (path : Str) (own : Query) (arrived : List Call) (depth : Nat) (rc : Rc) :
    Nat × List Call :=
  match rc, depth with
  | .ok, 0 => (0, arrived)
  | .ok, 1 => (0, ask own)
  | .ok, d + 2 => (d + 1, ancestor path (d + 1))
  | .noNode, d => (d + 1, ancestor path (d + 1))
  | rc, d => (d, fail rc "failure during creating node")

namespace CreateT

def own (path : Str) (value : Value) (ephemeral sequence : Bool) : Query :=
  .create path (serialize value) ephemeral sequence

def onCreate (path : Str) (value : Value) (ephemeral sequence : Bool) (depth : Nat) (rc : Rc) :
    Nat × List Call :=
  onCreated path (own path value ephemeral sequence) [.satisfy (.done true)] depth rc

end CreateT

/-! ## `del_t` -/

namespace DelT

def onDel (rc : Rc) : List Call :=
  if rc ≠ .ok then fail rc "failure during deleting node" else [.satisfy (.done true)]

end DelT

/-! ## `subscribe_t` -/

namespace SubscribeT

def run (path : Str) : List Call := [.request (.exists' path) true]

def onGet (rc : Rc) (data : Data) (stat : Stat) : List Call :=
  if rc ≠ .ok then fail rc "node was removed"
  else if stat.numChildren ≠ 0 then
    [.throw ⟨.childNotAllowed, "trying to subscribe on node with childs"⟩]
  else
    match unserialize data with
    | .error e => [.throw e]
    | .ok v => [.satisfy (.value ⟨v, stat.version⟩)]

def onExists (path : Str) (rc : Rc) : List Call :=
  if rc = .ok then ask (.get path) else [.satisfy (.value ⟨.null, notExistingVersion⟩)]

def onWatch (path : Str) (closed : Bool) (w : WatchReply) : List Call :=
  if closed then []
  else if w.type = .created ∨ w.type = .changed ∨ w.type = .session ∧ w.state = .connected then
    [.request (.get path) true]
  else if w.type = .deleted then [.throw ⟨mapZooError .noNode, "node was removed"⟩]
  else if w.type = .child then [.throw ⟨.childNotAllowed, "child created on watched node"⟩]
  else throwWatchEvent w

end SubscribeT

/-! ## `children_subscribe_t` -/

namespace ChildrenSubscribeT

def run (path : Str) : List Call := [.request (.childs path) true]

def onChilds (rc : Rc) (children : List Str) (stat : Stat) : List Call :=
  if rc ≠ .ok then fail rc "can not fetch children"
  else [.satisfy (.children stat.cversion children)]

def onWatch (path : Str) (closed : Bool) (w : WatchReply) : List Call :=
  if closed then []
  else if w.type = .deleted then [.throw ⟨.noNode, "watched node was deleted"⟩]
  else if w.type = .child ∨ w.type = .session ∧ w.state = .connected then
    [.request (.childs path) true]
  else if w.type = .session then
    [.throw ⟨.connectionLoss, "session event, possible disconnection"⟩]
  else throwWatchEvent w

end ChildrenSubscribeT

/-! ## `increment_t` -/

namespace IncrementT

def run (path : Str) (value : Value) : List Call :=
  if isNumeric value then ask (.get path)
  else [.throw ⟨.invalidType, "invalid value type for increment"⟩]

/-- The sum that is stored. A sum of integers outside of 64 bits is undefined in
the source; it wraps here. -/
def sum (parsed value : Value) : Value :=
  if isDouble parsed || isDouble value then
    .scalar (.double (toDouble parsed + toDouble value).toBits)
  else .int (i64 (toInt64 parsed + toInt64 value))

/-- The new value of the operation, and what is done. -/
def onGet (path : Str) (value : Value) (rc : Rc) (data : Data) (stat : Stat) : Value × List Call :=
  if rc = .noNode then (value, ask (.create path (serialize value) false false))
  else if rc ≠ .ok then (value, fail rc "failed to get node value")
  else
    match unserialize data with
    | .error e => (value, [.throw e])
    | .ok parsed =>
      if stat.numChildren ≠ 0 then
        (value, [.throw ⟨.childNotAllowed, "can not increment node with children"⟩])
      else if !isNumeric parsed then
        (value, [.throw ⟨.invalidType, "can not increment non-numeric value"⟩])
      else (sum parsed value, ask (.put path (serialize (sum parsed value)) stat.version))

def onPut (value : Value) (rc : Rc) (stat : Stat) : List Call :=
  if rc ≠ .ok then fail rc "failed to put new node value"
  else [.satisfy (.value ⟨value, stat.version⟩)]

def onCreate (value : Value) (rc : Rc) : List Call :=
  if rc ≠ .ok then fail rc "could not create value" else [.satisfy (.value ⟨value, 0⟩)]

end IncrementT

/-! ## `lock_t` -/

namespace LockT

def path (folder : Str) : Str := folder ++ "/lock".toList

def own (folder : Str) (value : Value) : Query := .create (path folder) (serialize value) true true

/-- `closed` is the scope's flag, read under its mutex together with the request. -/
def onCreate (folder : Str) (value : Value) (closed : Bool) (depth : Nat) (rc : Rc)
    (createdPath : Str) : Nat × List Call :=
  onCreated (path folder) (own folder value)
    (if closed then ask (.del createdPath (-1)) else ask (.childs folder)) depth rc

/-- The children up to `lower_bound` of the node, and whether the node is there. -/
def predecessors (children : List Str) (node : Str) : List Str × Bool :=
  let sorted := children.insertionSort (· ≤ ·)
  (sorted.takeWhile (· < node), ((sorted.dropWhile (· < node)).takeWhile (· = node)) ≠ [])

def onChilds (folder created : Str) (rc : Rc) (children : List Str) : List Call :=
  if rc ≠ .ok then fail rc "failed to get lock folder children"
  else
    match getNodeName created with
    | .error e => [.throw e]
    | .ok node =>
      let p := predecessors children node
      if !p.2 then [.throw ⟨.uncaught, "created path is not found in children"⟩]
      else
        match p.1.getLast? with
        | none => [.satisfy (.done true), .request (.get created) true]
        | some previous =>
          if isValidSequenceNode previous then
            [.request (.exists' (folder ++ '/' :: previous)) true, .request (.get created) true]
          else [.throw ⟨.uncaught, "trash data in lock folder"⟩]

def onGet (rc : Rc) : List Call := if rc ≠ .ok then fail rc "failed to get created node" else []

def onExists (folder : Str) (rc : Rc) : List Call :=
  if rc = .noNode then ask (.childs folder)
  else if rc ≠ .ok then fail rc "error during fetching previous lock"
  else []

def onWatch (folder : Str) (w : WatchReply) : List Call :=
  if w.type = .deleted then ask (.childs folder) else throwWatchEvent w

def onDel (rc : Rc) : List Call := if rc ≠ .ok then [.reconnect] else []

end LockT

/-! ## All operations -/

/-- The methods of `zookeeper_t`; `lock` passes the current time as the value. -/
inductive Command where
  | put (path : Str) (value : Value) (version : Int)
  | get (path : Str)
  | create (path : Str) (value : Value) (ephemeral sequence : Bool)
  | del (path : Str) (version : Int)
  | subscribe (path : Str)
  | childrenSubscribe (path : Str)
  | increment (path : Str) (value : Value)
  | lock (path : Str) (time : Int)
  | namedLock (path : Str) (value : Value)
deriving DecidableEq

/-- The folder and the value of a `lock_t`. -/
def Command.locks : Command → Option (Str × Value)
  | .lock path time => some (path, .int time)
  | .namedLock path value => some (path, value)
  | _ => none

/-- The members of an operation: its arguments, and those that change. -/
structure Action where
  cmd : Command
  depth : Nat := 0
  /-- The value of an `increment_t`, which becomes the sum. -/
  value : Value := .null
  /-- `created_sequence_path`. -/
  created : Str := []
deriving DecidableEq

namespace Action

def init (cmd : Command) : Action :=
  match cmd with
  | .increment _ value => { cmd, value }
  | _ => { cmd }

@[simp] theorem cmd_init (cmd : Command) : (init cmd).cmd = cmd := by cases cmd <;> rfl

@[simp] theorem created_init (cmd : Command) : (init cmd).created = [] := by cases cmd <;> rfl

@[simp] theorem depth_init (cmd : Command) : (init cmd).depth = 0 := by cases cmd <;> rfl

variable (a : Action)

def run : List Call :=
  match a.cmd with
  | .put path value version => PutT.run path value version
  | .get path => ask (.get path)
  | .create path value ephemeral sequence => ask (CreateT.own path value ephemeral sequence)
  | .del path version => ask (.del path version)
  | .subscribe path => SubscribeT.run path
  | .childrenSubscribe path => ChildrenSubscribeT.run path
  | .increment path value => IncrementT.run path value
  | .lock path time => ask (LockT.own path (.int time))
  | .namedLock path value => ask (LockT.own path value)

/-- `lock_t::on_reply(create_reply_t)`: the path is recorded at depth 0 only. -/
def onLockCreated (folder : Str) (value : Value) (closed : Bool) (rc : Rc) (path : Str) :
    Action × List Call :=
  let created := if rc = .ok ∧ a.depth = 0 then path else a.created
  let p := LockT.onCreate folder value closed a.depth rc path
  ({ a with depth := p.1, created }, p.2)

/-- The `on_reply` of the class for the reply; a class that lacks it is never
passed one. -/
def onReply (closed : Bool) : Reply → Action × List Call
  | .put rc stat =>
    match a.cmd with
    | .put path value _ => (a, PutT.onPut path value rc stat)
    | .increment _ _ => (a, IncrementT.onPut a.value rc stat)
    | _ => (a, [])
  | .get rc data stat =>
    match a.cmd with
    | .put _ _ _ => (a, PutT.onGet rc data stat)
    | .get _ => (a, GetT.onGet rc data stat)
    | .subscribe _ => (a, SubscribeT.onGet rc data stat)
    | .increment path _ =>
      let p := IncrementT.onGet path a.value rc data stat
      ({ a with value := p.1 }, p.2)
    | .lock _ _ | .namedLock _ _ => (a, LockT.onGet rc)
    | _ => (a, [])
  | .create rc path =>
    match a.cmd with
    | .create p value ephemeral sequence =>
      let r := CreateT.onCreate p value ephemeral sequence a.depth rc
      ({ a with depth := r.1 }, r.2)
    | .increment _ _ => (a, IncrementT.onCreate a.value rc)
    | .lock folder time => a.onLockCreated folder (.int time) closed rc path
    | .namedLock folder value => a.onLockCreated folder value closed rc path
    | _ => (a, [])
  | .del rc =>
    match a.cmd with
    | .del _ _ => (a, DelT.onDel rc)
    | .lock _ _ | .namedLock _ _ => (a, LockT.onDel rc)
    | _ => (a, [])
  | .exists' rc _ =>
    match a.cmd with
    | .subscribe path => (a, SubscribeT.onExists path rc)
    | .lock folder _ | .namedLock folder _ => (a, LockT.onExists folder rc)
    | _ => (a, [])
  | .childs rc children stat =>
    match a.cmd with
    | .childrenSubscribe _ => (a, ChildrenSubscribeT.onChilds rc children stat)
    | .lock folder _ | .namedLock folder _ => (a, LockT.onChilds folder a.created rc children)
    | _ => (a, [])

theorem cmd_onReply (closed : Bool) (r : Reply) : (a.onReply closed r).1.cmd = a.cmd := by
  cases r <;> simp only [onReply] <;> split <;> rfl

def onWatch (closed : Bool) (w : WatchReply) : List Call :=
  match a.cmd with
  | .subscribe path => SubscribeT.onWatch path closed w
  | .childrenSubscribe path => ChildrenSubscribeT.onWatch path closed w
  | .lock folder _ | .namedLock folder _ => LockT.onWatch folder w
  | _ => []

end Action

/-! ## What a lock does -/

namespace LockT

/-- What a lock does, other than about creates. -/
inductive Reaction (folder created : Str) : List Call → Prop where
  | nothing : Reaction folder created []
  | throw (e : Error) : Reaction folder created [.throw e]
  | reconnect : Reaction folder created [.reconnect]
  | again : Reaction folder created (ask (.childs folder))
  | grant (h : created ≠ []) :
    Reaction folder created [.satisfy (.done true), .request (.get created) true]
  | wait (h : created ≠ []) (previous : Str) :
    Reaction folder created
      [.request (.exists' (folder ++ '/' :: previous)) true, .request (.get created) true]

variable {folder created : Str}

theorem onGet_reaction (rc : Rc) : Reaction folder created (onGet rc) := by
  unfold onGet
  split
  · exact .throw _
  · exact .nothing

theorem onDel_reaction (rc : Rc) : Reaction folder created (onDel rc) := by
  unfold onDel
  split
  · exact .reconnect
  · exact .nothing

theorem onExists_reaction (rc : Rc) : Reaction folder created (onExists folder rc) := by
  unfold onExists
  split
  · exact .again
  · split
    · exact .throw _
    · exact .nothing

theorem onChilds_reaction (rc : Rc) (children : List Str) :
    Reaction folder created (onChilds folder created rc children) := by
  unfold onChilds
  split
  · exact .throw _
  · split
    · exact .throw _
    · rename_i node hn
      have hc : created ≠ [] := by
        rintro rfl
        cases hn
      dsimp only
      split
      · exact .throw _
      · split
        · exact .grant hc
        · split
          · exact .wait hc _
          · exact .throw _

theorem onWatch_reaction (w : WatchReply) : Reaction folder created (onWatch folder w) := by
  unfold onWatch
  split
  · exact .again
  · exact .throw _

end LockT

namespace Action

variable {a : Action}

/-- Every other handler changes no member, and does one of six things. -/
theorem onReply_reaction {folder : Str} {value : Value} (h : a.cmd.locks = some (folder, value))
    (closed : Bool) {r : Reply} (hr : ∀ rc p, r ≠ .create rc p) :
    (a.onReply closed r).1 = a ∧ LockT.Reaction folder a.created (a.onReply closed r).2 := by
  obtain ⟨cmd, depth, v, created⟩ := a
  cases cmd with
  | lock folder | namedLock folder =>
    cases h
    cases r with
    | put => exact ⟨rfl, .nothing⟩
    | get rc => exact ⟨rfl, LockT.onGet_reaction rc⟩
    | create rc p => exact absurd rfl (hr rc p)
    | del rc => exact ⟨rfl, LockT.onDel_reaction rc⟩
    | exists' rc => exact ⟨rfl, LockT.onExists_reaction rc⟩
    | childs rc children => exact ⟨rfl, LockT.onChilds_reaction rc children⟩
  | _ => cases h

theorem onWatch_reaction {folder : Str} {value : Value} (h : a.cmd.locks = some (folder, value))
    (closed : Bool) (w : WatchReply) : LockT.Reaction folder a.created (a.onWatch closed w) := by
  obtain ⟨cmd, depth, v, created⟩ := a
  cases cmd with
  | lock | namedLock =>
    cases h
    exact LockT.onWatch_reaction w
  | _ => cases h

end Action

end Cocaine.Unicorn
