import CocainePlugins.Unicat.Metainfo

/-!
# One entity of a request

The handlers that a grant or a revocation gives to a backend for one entity: two
verifications, the read of the list, the write of the altered list. Each handler is
invoked with an answer of the backend and makes the next call, or it ends the chain
with a completion. The handler of the write access is given to `async_verify_read`, so
the backend is asked twice for the right to read.
-/

namespace Cocaine.Unicat

open Framework Unicorn

/-! ## Errors -/

/-- `std::error_code`. The codes are the core's; one text stands for the code as it is
printed and for its message. -/
inductive ErrorCode where
  | success
  | uncaughtError
  | invalidAclFraming
  | other (message : Str)
deriving DecidableEq

namespace ErrorCode

def failed (ec : ErrorCode) : Bool := ec != .success

def message : ErrorCode → Str
  | .success => "Success".toList
  | .uncaughtError => "uncaught error".toList
  | .invalidAclFraming => "invalid ACL framing".toList
  | .other message => message

end ErrorCode

/-- A `std::system_error`, or another `std::exception`. -/
inductive Exception where
  | system (code : ErrorCode) (what : Str)
  | other (what : Str)
deriving DecidableEq

/-! ## Completions -/

inductive Scheme where
  | storage | unicorn
deriving DecidableEq, Repr

/-- `scheme_names_mapping.at`. -/
def schemeFromString (s : Str) : Except Exception Scheme :=
  if s = "storage".toList then .ok .storage
  else if s = "unicorn".toList then .ok .unicorn
  else .error (.other "unordered_map::at".toList)

def schemeToString : Scheme → Str
  | .storage => "storage".toList
  | .unicorn => "unicorn".toList

structure Url where
  scheme : Scheme
  serviceName : Str
  entity : Str
deriving DecidableEq

inductive Opcode where
  | nop | readOp | writeOp
deriving DecidableEq, Repr

structure Completion where
  url : Url
  identity : Identity
  done : Bool
  errCode : ErrorCode := .success
  opcode : Opcode := .nop
  eptr : Option Exception := none
deriving DecidableEq

namespace Completion

variable (c : Completion)

def hasException : Bool := !c.done && c.eptr.isSome

def hasErrorCode : Bool := c.errCode.failed

/-- The url, as the messages show it. -/
def subject : Str :=
  schemeToString c.url.scheme ++ ':' :: c.url.serviceName ++ ':' :: c.url.entity

def makeAccessError : Str :=
  match c.opcode with
  | .readOp =>
    "read permission denied for ".toList ++ c.subject ++ " with error ".toList ++ c.errCode.message
  | .writeOp =>
    "write permission denied for ".toList ++ c.subject ++ " with error ".toList ++ c.errCode.message
  | .nop => "unknown access error".toList

def makeExceptionError : Str :=
  match c.eptr with
  | some (.system code what) => code.message ++ ": ".toList ++ what
  | some (.other what) => "unknown error, msg ".toList ++ what
  | none => []

/-- What `finalize` reports of a completion. -/
def report : Option Str :=
  if c.hasException then some c.makeExceptionError
  else if c.hasErrorCode then some c.makeAccessError
  else none

end Completion

/-! ## The chain of handlers -/

inductive Access where
  | read | write
deriving DecidableEq, Repr

/-- The calls of a backend. -/
inductive BackendCall where
  /-- `async_verify_read`, `async_verify_write`. -/
  | verify (a : Access) (url : Url) (identity : Identity)
  | readMetainfo (url : Url) (identity : Identity)
  | writeMetainfo (url : Url) (identity : Identity) (version : Int) (m : Metainfo)
deriving DecidableEq

inductive VerifyHandler where
  | onVerifyRead | onVerifyWrite
deriving DecidableEq, Repr

inductive Stage where
  /-- The handler waits for the answer to a verification of `asked`. -/
  | verifying (handler : VerifyHandler) (asked : Access)
  | reading
  | writing (m : Metainfo)
  /-- The handlers are gone. -/
  | finished
deriving DecidableEq

structure Task where
  url : Url
  identity : Identity
  stage : Stage
deriving DecidableEq

/-- The answers of a backend. A read also says what the call of the write threw, which is
made by the handler of the read. -/
inductive Reply where
  | verified (ec : ErrorCode)
  | value (v : Except Exception Versioned) (fault : Option Exception)
  | metainfo (m : Except Exception Metainfo) (fault : Option Exception)
  | put (updated : Except Exception Bool)
  | stored (r : Except Exception Unit)
deriving DecidableEq

structure Effect where
  stage : Stage := .finished
  calls : List BackendCall := []
  completion : Option Completion := none
  /-- The list that the backend has stored. -/
  written : Option Metainfo := none
deriving DecidableEq

/-- `detail::unpack`. -/
def unpack (v : Versioned) : Except Exception (Metainfo × Int) :=
  if v.isThere && convertible v.value then
    match Metainfo.ofDyn v.value with
    | some m => .ok (m, v.version)
    | none => .error (.other "bad cast".toList)
  else .error (.system .invalidAclFraming ErrorCode.invalidAclFraming.message)

namespace Task

variable (op : Operation) (d : AlterData) (t : Task)

def succeed : Completion := { url := t.url, identity := t.identity, done := true }

/-- `abort_deferred`. -/
def refuse (ec : ErrorCode) (opcode : Opcode) : Completion :=
  { url := t.url, identity := t.identity, done := false, errCode := ec, opcode }

/-- `on_exception`, and the handler of `on_done`. -/
def fail (x : Exception) : Completion :=
  { url := t.url, identity := t.identity, done := false, eptr := some x }

def onVerified (ec : ErrorCode) : VerifyHandler → Effect
  | .onVerifyRead =>
    if ec.failed then { completion := some (t.refuse ec .readOp) }
    else
      -- The handler of the write access is passed to `async_verify_read`.
      { stage := .verifying .onVerifyWrite .read
        calls := [.verify .read t.url t.identity] }
  | .onVerifyWrite =>
    if ec.failed then { completion := some (t.refuse ec .writeOp) }
    else { stage := .reading, calls := [.readMetainfo t.url t.identity] }

/-- `on_read_t::on_read`. -/
def onRead (r : Except Exception (Metainfo × Int)) (fault : Option Exception) : Effect :=
  match r with
  | .error x => { completion := some (t.fail x) }
  | .ok (m, version) =>
    let call := .writeMetainfo t.url t.identity version (alter op m d)
    match fault with
    | some x => { calls := [call], completion := some (t.fail x) }
    | none => { stage := .writing (alter op m d), calls := [call] }

/-- `on_write_t::on_done`; whether a put took place is not looked at. -/
def onDone {α : Type} (r : Except Exception α) : Completion :=
  match r with
  | .ok _ => t.succeed
  | .error x => t.fail x

/-- What the handler that waits does with an answer. -/
def reply : Reply → Option Effect
  | .verified ec =>
    match t.stage with
    | .verifying handler _ => some (t.onVerified ec handler)
    | _ => none
  | .value v fault =>
    match t.url.scheme, t.stage with
    | .unicorn, .reading => some (t.onRead op d (v.bind unpack) fault)
    | _, _ => none
  | .metainfo m fault =>
    match t.url.scheme, t.stage with
    | .storage, .reading => some (t.onRead op d (m.map (·, notExistingVersion)) fault)
    | _, _ => none
  | .put updated =>
    match t.url.scheme, t.stage with
    | .unicorn, .writing m =>
      some { completion := some (t.onDone updated)
             written := if updated = .ok true then some m else none }
    | _, _ => none
  | .stored r =>
    match t.url.scheme, t.stage with
    | .storage, .writing m =>
      some { completion := some (t.onDone r)
             written := if r = .ok () then some m else none }
    | _, _ => none

end Task

/-- What an answer can do to a task. -/
inductive Replied (op : Operation) (d : AlterData) (t : Task) : Reply → Effect → Prop where
  | refused {ec : ErrorCode} {h : VerifyHandler} {a : Access} (hs : t.stage = .verifying h a)
    (he : ec.failed = true) (opcode : Opcode) :
    Replied op d t (.verified ec) { completion := some (t.refuse ec opcode) }
  | verified {ec : ErrorCode} {a : Access} (hs : t.stage = .verifying .onVerifyRead a)
    (he : ec.failed = false) :
    Replied op d t (.verified ec)
      { stage := .verifying .onVerifyWrite .read, calls := [.verify .read t.url t.identity] }
  | permitted {ec : ErrorCode} {a : Access} (hs : t.stage = .verifying .onVerifyWrite a)
    (he : ec.failed = false) :
    Replied op d t (.verified ec) { stage := .reading, calls := [.readMetainfo t.url t.identity] }
  | unread {r : Reply} {x : Exception} (hs : t.stage = .reading) :
    Replied op d t r { completion := some (t.fail x) }
  | faulted {r : Reply} {m : Metainfo} {version : Int} {x : Exception} (hs : t.stage = .reading) :
    Replied op d t r
      { calls := [.writeMetainfo t.url t.identity version (alter op m d)]
        completion := some (t.fail x) }
  | altered {r : Reply} {m : Metainfo} {version : Int} (hs : t.stage = .reading) :
    Replied op d t r
      { stage := .writing (alter op m d)
        calls := [.writeMetainfo t.url t.identity version (alter op m d)] }
  | unwritten {r : Reply} {m : Metainfo} {x : Exception} (hs : t.stage = .writing m) :
    Replied op d t r { completion := some (t.fail x) }
  | written {r : Reply} {m : Metainfo} (hs : t.stage = .writing m) (hr : r ≠ .put (.ok false)) :
    Replied op d t r { completion := some t.succeed, written := some m }
  /-- The version was another one, and nothing was stored. -/
  | lost {m : Metainfo} (hs : t.stage = .writing m) :
    Replied op d t (.put (.ok false)) { completion := some t.succeed }

theorem Task.replied {op : Operation} {d : AlterData} {t : Task} {r : Reply} {e : Effect}
    (h : t.reply op d r = some e) : Replied op d t r e := by
  have hread : ∀ (r : Reply) (v : Except Exception (Metainfo × Int)) (fault : Option Exception),
      t.stage = .reading → Replied op d t r (t.onRead op d v fault) := by
    intro r v fault hs
    rcases v with x | ⟨m, version⟩
    · exact .unread hs
    · cases fault with
      | some x => exact .faulted hs
      | none => exact .altered hs
  cases r with
  | verified ec =>
    simp only [reply] at h
    split at h
    · rename_i handler a hs
      cases h
      cases handler with
      | onVerifyRead =>
        simp only [onVerified]
        split
        · rename_i he
          exact .refused hs he .readOp
        · rename_i he
          exact .verified hs (by simpa using he)
      | onVerifyWrite =>
        simp only [onVerified]
        split
        · rename_i he
          exact .refused hs he .writeOp
        · rename_i he
          exact .permitted hs (by simpa using he)
    · cases h
  | value v fault =>
    simp only [reply] at h
    split at h
    · rename_i hs
      cases h
      exact hread _ _ _ hs
    · cases h
  | metainfo m fault =>
    simp only [reply] at h
    split at h
    · rename_i hs
      cases h
      exact hread _ _ _ hs
    · cases h
  | put updated =>
    simp only [reply] at h
    split at h
    · rename_i m _ hs
      cases h
      rcases updated with x | _ | _
      · exact .unwritten hs
      · exact .lost hs
      · exact .written hs (by simp)
    · cases h
  | stored r =>
    simp only [reply] at h
    split at h
    · rename_i m _ hs
      cases h
      rcases r with x | _
      · exact .unwritten hs
      · exact .written hs (by simp)
    · cases h

end Cocaine.Unicat
