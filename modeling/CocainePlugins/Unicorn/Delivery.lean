import CocainePlugins.Unicorn.Requests
import CocainePlugins.Unicorn.World

/-!
# What reaches an operation

An operation among the others is one of the runs of `operationSystem`: a request
that was served and whose reply is on its way is still outstanding for it
(`Run.reachable`), so what holds of an operation among arbitrary replies holds here.
The replies that it got or will get are those of its own requests that were served,
in that order (`Run.replies`).
-/

namespace Cocaine.Unicorn

open Framework

/-! ## Requests that are ahead -/

namespace Machine

variable (pre : List Sent) (m : Machine)

/-- The operation with earlier requests outstanding. -/
def after : Machine := { m with outbox := pre ++ m.outbox }

theorem after_onAbort (l : Luck) :
    (m.after pre).onAbort l = ((m.onAbort l).1.after pre, (m.onAbort l).2) := by
  by_cases ha : m.attached = true ∧ m.act.created ≠ []
  · rcases hd : l.del with _ | _
    · simp [onAbort, after, ha, hd]
    · rcases hr : l.reconnect with _ | _ <;> simp [onAbort, after, ha, hd, hr]
  · simp only [onAbort, after, ha, if_false]

theorem after_abort (e : Error) (l : Luck) : (m.after pre).abort e l = (m.abort e l).after pre := by
  have hc : ((m.onAbort l).1.after pre).closed = (m.onAbort l).1.closed := rfl
  simp only [abort, after_onAbort, hc]
  split
  · rfl
  · split <;> rfl

theorem after_exec (c : Call) (l : Luck) :
    (m.after pre).exec c l = ((m.exec c l).1.after pre, (m.exec c l).2) := by
  cases c with
  | satisfy r =>
    by_cases hc : m.closed = true <;> simp [exec, satisfy, after, hc]
  | throw e => rfl
  | reconnect => rfl
  | request q watch =>
    rcases hl : l.call with _ | e <;> cases watch <;> simp [exec, after, hl]

theorem after_handle (calls : List Call) (l : Luck) :
    (m.after pre).handle calls l = (m.handle calls l).after pre := by
  cases calls with
  | nil => rfl
  | cons c rest =>
    simp only [handle, after_exec]
    split
    · exact after_abort pre _ _ l
    · split <;> rfl

theorem after_close (l : Luck) : (m.after pre).close l = (m.close l).after pre := by
  have hc : (m.after pre).closed = m.closed := rfl
  simp only [close, after_onAbort, hc]
  split
  · rfl
  · split <;> rfl

theorem after_reply {s : Sent} {r : Reply} (h : s.query.answers r = true) (l : Luck) :
    (m.after (s :: pre)).step (.reply 0 r l) = some ((m.deliver s.query r l).after pre) := by
  simp only [step, after, List.cons_append, List.getElem?_cons_zero, h, if_true,
    List.eraseIdx_cons_zero]
  exact congrArg some (after_handle pre
    { m with act := (m.act.onReply m.closed r).1, log := .replied s.query r :: m.log } _ l)

theorem after_event {id : Nat} (h : m.watchers.any (·.1 == id) = true) (w : WatchReply) (l : Luck) :
    (m.after pre).step (.event id w l) = some ((m.notify id w l).after pre) := by
  simp only [step, after, h, if_true]
  exact congrArg some (after_handle pre
    { m with watchers := m.watchers.filter (·.1 ≠ id) } _ l)

theorem after_resume {m : Machine} {k : Nat} {calls : List Call} (hk : m.running[k]? = some calls)
    (l : Luck) : (m.after pre).step (.resume k l) =
      some (({ m with running := m.running.eraseIdx k }.handle calls l).after pre) := by
  simp only [step, after, hk]
  exact congrArg some (after_handle pre { m with running := m.running.eraseIdx k } _ l)

theorem after_deferred {m : Machine} {e : Error} (he : m.deferred = some e) (l : Luck) :
    (m.after pre).step (.abort l) = some (({ m with deferred := none }.abort e l).after pre) := by
  simp only [step, after, he]
  exact congrArg some (after_abort pre { m with deferred := none } _ l)

end Machine

/-! ## The runs of an operation among the others -/

def Msg.sent : Msg → Option Sent
  | .reply s _ => some s
  | .event _ _ => none

/-- The operation as it sees itself: what is not delivered is outstanding. -/
def Client.machine (c : Client) : Machine := c.op.after (c.inbox.filterMap Msg.sent)

theorem Query.answers_error (q : Query) {rc : Rc} (h : rc.isFault = true) :
    q.answers (q.error rc) = true := by
  cases q with
  | create => cases rc <;> first | rfl | cases h
  | _ => rfl

theorem answers_serve (t : Ztree Data) (q : Query) : q.answers (serve t q).2 = true := by
  cases q with
  | create p data ephemeral sequence =>
    have h := t.created (createdPath t p sequence) data ephemeral
    simp only [serve, Query.answers, Bool.or_eq_true, bne_iff_ne]
    generalize (t.create (createdPath t p sequence) data ephemeral).1 = rc at h
    generalize (t.create (createdPath t p sequence) data ephemeral).2 = t' at h
    cases h with
    | done hp =>
      right
      intro hn
      simp only [if_true] at hn
      rw [hn] at hp
      cases hp
    | _ => exact .inl (by simp)
  | put | del => rfl
  | get p | exists' p | childs p =>
    simp only [serve]
    split <;> rfl

theorem answers_answer (t : Ztree Data) (q : Query) {f : Option Fault}
    (hf : f.all (·.rc.isFault) = true) : q.answers (answer t q f).2 = true := by
  cases f with
  | none => exact answers_serve t q
  | some f => exact q.answers_error hf

namespace Client

variable {c : Client}

/-- A change of the tree sends events only. -/
theorem inbox_observe (t t' : Ztree Data) : ∃ events : List Msg,
    (c.observe t t').inbox = c.inbox ++ events ∧ ∀ msg ∈ events, ∃ id w, msg = .event id w := by
  refine ⟨_, rfl, fun msg hm => ?_⟩
  obtain ⟨w, -, hw⟩ := List.mem_filterMap.mp hm
  obtain ⟨e, -, rfl⟩ := Option.map_eq_some_iff.mp hw
  exact ⟨_, _, rfl⟩

theorem reply_mem_observe {t t' : Ztree Data} {s : Sent} {r : Reply}
    (h : .reply s r ∈ (c.observe t t').inbox) : .reply s r ∈ c.inbox := by
  obtain ⟨events, heq, he⟩ := c.inbox_observe t t'
  rw [heq] at h
  rcases List.mem_append.mp h with h | h
  · exact h
  · obtain ⟨id, w, hw⟩ := he _ h
    cases hw

theorem filterMap_observe {α : Type} {f : Msg → Option α} (hf : ∀ id w, f (.event id w) = none)
    (t t' : Ztree Data) : (c.observe t t').inbox.filterMap f = c.inbox.filterMap f := by
  obtain ⟨events, heq, he⟩ := c.inbox_observe t t'
  have hn : events.filterMap f = [] := by
    rw [List.filterMap_eq_nil_iff]
    intro msg hm
    obtain ⟨id, w, rfl⟩ := he msg hm
    exact hf id w
  rw [heq, List.filterMap_append, hn, List.append_nil]

theorem machine_observe (t t' : Ztree Data) : (c.observe t t').machine = c.machine := by
  rw [machine, filterMap_observe fun _ _ => rfl]
  rfl

theorem machine_served {s : Sent} {rest : List Sent} (r : Reply) (ho : c.op.outbox = s :: rest) :
    (c.served s r).machine = c.machine := by
  simp [machine, served, Machine.after, Msg.sent, ho]

/-- A move is a step of the operation, or nothing that it notices. -/
theorem machine_move {c' : Client} {a : Move} (hin : ∀ s r, .reply s r ∈ c.inbox →
    s.query.answers r = true) (ha : c.move a = some c') :
    c'.machine = c.machine ∨ ∃ a', c.machine.step a' = some c'.machine := by
  cases moved ha with
  | session id state =>
    left
    simp [machine, Msg.sent, List.filterMap_cons]
  | @reply s r rest l hbox =>
    have hr := hin s r (by rw [hbox]; exact List.mem_cons_self)
    simp only [machine, hbox]
    exact .inr ⟨.reply 0 r l, Machine.after_reply _ _ hr l⟩
  | @event id w rest l hbox hid =>
    simp only [machine, hbox]
    exact .inr ⟨.event id w l, Machine.after_event _ _ hid w l⟩
  | dropped hbox =>
    simp only [machine, hbox]
    exact .inl rfl
  | @resume k calls l hk => exact .inr ⟨.resume k l, Machine.after_resume _ hk l⟩
  | @abort e l he => exact .inr ⟨.abort l, Machine.after_deferred _ he l⟩
  | @close l => exact .inr ⟨.close l, congrArg some (Machine.after_close _ _ l)⟩

/-- Only the ensemble sends replies. -/
theorem reply_mem_move {c' : Client} {a : Move} (ha : c.move a = some c') {s : Sent} {r : Reply}
    (h : .reply s r ∈ c'.inbox) : .reply s r ∈ c.inbox := by
  cases moved ha with
  | session id state =>
    rcases List.mem_append.mp h with h | h
    · exact h
    · cases List.mem_singleton.mp h
  | reply hbox | event hbox | dropped hbox =>
    rw [hbox]
    exact List.mem_cons_of_mem _ h
  | resume | abort | close => exact h

end Client

variable {h : List Served} {i : Nat}

theorem Run.reachable {cmd : Command} {t : Ztree Data} {c : Client}
    (hr : Run i cmd t h c) : (operationSystem cmd).Reachable System.Any c.machine ∧
      ∀ s r, .reply s r ∈ c.inbox → s.query.answers r = true := by
  induction hr with
  | start l hh => exact ⟨⟨_, ⟨l, rfl⟩, .refl⟩, by simp⟩
  | other hr hc hi ih =>
    rw [Client.machine_observe]
    exact ⟨ih.1, fun s r hm => ih.2 s r (Client.reply_mem_observe hm)⟩
  | @serve t h c calls s rest f hr hi ho hf ih =>
    rw [Client.machine_served (c := c.observe t (answer t s.query f).1) _ ho, Client.machine_observe]
    refine ⟨ih.1, fun s' r hm => ?_⟩
    rcases List.mem_append.mp hm with hm | hm
    · exact ih.2 s' r (Client.reply_mem_observe hm)
    · cases List.mem_singleton.mp hm
      exact answers_answer t s.query hf
  | move hr ha ih =>
    refine ⟨?_, fun s r hm => ih.2 s r (Client.reply_mem_move ha hm)⟩
    rcases Client.machine_move ih.2 ha with heq | ⟨a', hs⟩
    · rw [heq]
      exact ih.1
    · obtain ⟨m₀, hi, hp⟩ := ih.1
      exact ⟨m₀, hi, hp.tail trivial hs⟩

theorem answer_change (t : Ztree Data) (q : Query) (f : Option Fault) (p : Str) :
    Ztree.Change (t.node p) ((answer t q f).1.node p) := by
  cases f with
  | none => exact serve_change t q p
  | some f =>
    simp only [answer]
    split
    · exact serve_change t q p
    · exact .same _

/-! ## Replies and records -/

def Obs.answer : Obs → Option (Query × Reply)
  | .replied q r => some (q, r)
  | _ => none

def Msg.answer : Msg → Option (Query × Reply)
  | .reply s r => some (s.query, r)
  | .event _ _ => none

/-- The replies that the operation got so far, newest first. -/
def Machine.replies (m : Machine) : List (Query × Reply) := m.log.filterMap Obs.answer

/-- Those and the replies on their way. -/
def Client.replies (c : Client) : List (Query × Reply) :=
  (c.inbox.filterMap Msg.answer).reverse ++ c.op.replies

/-- The records of one call. -/
def ownRecords (i : Nat) (h : List Served) : List Served := h.filter fun e => e.client = some i

variable {e : Served}

theorem ownRecords_cons_self (he : e.client = some i) :
    ownRecords i (e :: h) = e :: ownRecords i h := by
  simp [ownRecords, he]

theorem ownRecords_cons_of_ne (he : e.client ≠ some i) :
    ownRecords i (e :: h) = ownRecords i h := by
  simp [ownRecords, he]

theorem ownRecords_eq_nil (hh : ∀ e ∈ h, e.client ≠ some i) :
    ownRecords i h = [] := by
  simpa [ownRecords] using hh

theorem mem_ownRecords :
    e ∈ ownRecords i h ↔ e ∈ h ∧ e.client = some i := by
  simp [ownRecords]

namespace Machine

variable {m : Machine}

/-- Only the arrival of a reply records one. -/
theorem kept_replies (l : List (Query × Reply)) :
    Kept (fun _ => True) (fun m => m.replies = l) where
  watch _ := id
  send _ h _ := h
  satisfy h _ _ := h
  fail h _ _ := h
  reconnect _ := id
  release h _ _ := h
  detach := id
  wait h _ := h

theorem replies_handle (calls : List Call) (l : Luck) :
    (m.handle calls l).replies = m.replies :=
  (kept_replies m.replies).handle rfl (fun _ _ => trivial) l

theorem replies_abort (e : Error) (l : Luck) : (m.abort e l).replies = m.replies :=
  (kept_replies m.replies).abort rfl (.inl trivial) l

theorem replies_close (l : Luck) : (m.close l).replies = m.replies := by
  have h := (kept_replies m.replies).onAbort rfl l
  unfold close
  split
  · rfl
  · dsimp only
    split
    · exact h
    · exact h

theorem replies_start (cmd : Command) (l : Luck) : (start cmd l).replies = [] := by
  unfold start
  dsimp only
  split
  · rfl
  · exact (kept_replies []).exec rfl trivial l

end Machine

theorem Client.replies_observe (c : Client) (t t' : Ztree Data) :
    (c.observe t t').replies = c.replies := by
  rw [replies, filterMap_observe fun _ _ => rfl]
  rfl

theorem Client.replies_move {c c' : Client} {a : Move} (ha : c.move a = some c') :
    c'.replies = c.replies := by
  cases moved ha with
  | session id state => simp [replies, Msg.answer, List.filterMap_cons]
  | @reply s r rest l hbox =>
    have hr : (c.op.deliver s.query r l).replies = (s.query, r) :: c.op.replies :=
      Machine.replies_handle _ l
    simp [replies, hbox, hr, Msg.answer]
  | @event id w rest l hbox =>
    have hr : (c.op.notify id w l).replies = c.op.replies := Machine.replies_handle _ l
    simp [replies, hbox, hr, Msg.answer, List.filterMap_cons]
  | dropped hbox => simp [replies, hbox, Msg.answer, List.filterMap_cons]
  | resume => exact congrArg (_ ++ ·) (Machine.replies_handle _ _)
  | abort => exact congrArg (_ ++ ·) (Machine.replies_abort _ _)
  | close => exact congrArg (_ ++ ·) (Machine.replies_close _)

namespace Run

variable {i : Nat} {cmd : Command} {t : Ztree Data} {h : List Served} {c : Client}

theorem replies (hr : Run i cmd t h c) :
    (ownRecords i h).map (fun e => (e.query, e.reply)) = c.replies := by
  induction hr with
  | start l hh =>
    rw [ownRecords_eq_nil fun e he => (hh e he).1, Client.replies, Machine.replies_start]
    rfl
  | other hr hc hi ih => rw [ownRecords_cons_of_ne hc, Client.replies_observe, ih]
  | @serve t h c calls s rest f hr hi ho hf ih =>
    rw [ownRecords_cons_self rfl, List.map_cons, ih, ← c.replies_observe t (answer t s.query f).1]
    simp [Client.replies, Client.served, Machine.replies, Served.of, Msg.answer]
  | move hr ha ih => rw [ih, Client.replies_move ha]

/-- A record of this call was served, or failed on its way. -/
theorem answered (hr : Run i cmd t h c) (he : e ∈ ownRecords i h) :
    ∃ f : Option Fault, f.all (·.rc.isFault) = true ∧
      answer e.before e.query f = (e.after, e.reply) := by
  induction hr with
  | start l hh =>
    rw [ownRecords_eq_nil fun e he => (hh e he).1] at he
    cases he
  | other hr hc hi ih =>
    rw [ownRecords_cons_of_ne hc] at he
    exact ih he
  | @serve t h c calls s rest f hr hi ho hf ih =>
    rw [ownRecords_cons_self rfl, List.mem_cons] at he
    rcases he with rfl | he
    · exact ⟨f, hf, rfl⟩
    · exact ih he
  | move hr ha ih => exact ih he

theorem cmd_eq (hr : Run i cmd t h c) : c.op.act.cmd = cmd :=
  (Machine.asking hr.reachable.1).runs

/-- What is about to be served is a request of the command. -/
theorem asked_next (hr : Run i cmd t h c) {s : Sent} (hs : s ∈ c.op.outbox) :
    cmd.Asks (fun p => ∃ e ∈ ownRecords i h, e.reply = .create .ok p) s.query := by
  refine ((Machine.asking hr.reachable.1).outbox s (List.mem_append_right _ hs)).mono ?_
  rintro p ⟨q, hq⟩
  have hmem : (q, Reply.create .ok p) ∈ c.replies :=
    List.mem_append_right _ (List.mem_filterMap.mpr ⟨_, hq, rfl⟩)
  rw [← hr.replies] at hmem
  obtain ⟨e, he, heq⟩ := List.mem_map.mp hmem
  exact ⟨e, he, congrArg Prod.snd heq⟩

/-- The records of this call are requests of its command. -/
theorem asked (hr : Run i cmd t h c) (he : e ∈ ownRecords i h) :
    cmd.Asks (fun p => ∃ e ∈ ownRecords i h, e.reply = .create .ok p) e.query := by
  induction hr with
  | start l hh =>
    rw [ownRecords_eq_nil fun e he => (hh e he).1] at he
    cases he
  | other hr hc hi ih =>
    rw [ownRecords_cons_of_ne hc] at he ⊢
    exact ih he
  | @serve t h c calls s rest f hr hi ho hf ih =>
    rw [ownRecords_cons_self rfl] at he ⊢
    have hmono : ∀ {q}, cmd.Asks (fun p => ∃ e ∈ ownRecords i h, e.reply = .create .ok p) q →
        cmd.Asks (fun p => ∃ e ∈ Served.of (some i) calls t s.query f :: ownRecords i h,
          e.reply = .create .ok p) q := by
      intro q hq
      refine hq.mono ?_
      rintro p ⟨e', he', hp⟩
      exact ⟨e', List.mem_cons_of_mem _ he', hp⟩
    rcases List.mem_cons.mp he with rfl | he
    · exact hmono (hr.asked_next (by rw [ho]; exact List.mem_cons_self))
    · exact hmono (ih he)
  | move hr ha ih => exact ih he

end Run

/-- No request of the call failed on its way. -/
def Connected (i : Nat) (h : List Served) : Prop :=
  ∀ e ∈ ownRecords i h, e.reply.rc.isFault = false

theorem Query.rc_error (q : Query) (rc : Rc) : (q.error rc).rc = rc := by
  cases q <;> rfl

theorem Connected.of_serve {i calls : Nat} {t : Ztree Data} {q : Query} {f : Option Fault}
    (hc : Connected i (.of (some i) calls t q f :: h))
    (hf : f.all (·.rc.isFault) = true) : f = none ∧ Connected i h := by
  rw [Connected, ownRecords_cons_self rfl, List.forall_mem_cons] at hc
  refine ⟨?_, hc.2⟩
  cases f with
  | none => rfl
  | some f =>
    have hrc : (q.error f.rc).rc.isFault = false := hc.1
    have hf : f.rc.isFault = true := hf
    rw [Query.rc_error, hf] at hrc
    cases hrc

/-- Then its records are what the ensemble does. -/
theorem Connected.serve_eq {cmd : Command} {t : Ztree Data} {c : Client}
    (hc : Connected i h) (hr : Run i cmd t h c) (he : e ∈ ownRecords i h) :
    serve e.before e.query = (e.after, e.reply) := by
  obtain ⟨f, hf, ha⟩ := hr.answered he
  cases f with
  | none => exact ha
  | some f =>
    have hn := hc e he
    have heq : e.reply = e.query.error f.rc := (congrArg Prod.snd ha).symm
    rw [heq, Query.rc_error] at hn
    rw [Option.all_some, hn] at hf
    cases hf

end Cocaine.Unicorn
