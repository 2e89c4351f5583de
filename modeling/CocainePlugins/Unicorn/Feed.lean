import CocainePlugins.Unicorn.Delivery

/-!
# Operations that follow a node

A subscription reads its node, leaves a watch on it and reads again at each event.
What the argument needs of the class is a `Feed`: its requests, what it does with a
reply, and what there is to tell of a node. While the scope is open, some watcher
of the operation is armed, or its request or its event is on the way (`Covered`);
so whatever was read last is current, or something is on the way that makes the
operation read again or stop (`Behind`). `Run.following` keeps both.
-/

namespace Cocaine.Unicorn

open Framework

/-! ## The class of a subscription -/

/-- What a subscription does with a reply. -/
inductive Turn where
  | tell (r : Response)
  | again (q : Query)
  | stop (e : Error)

def Turn.call : Turn → Call
  | .tell r => .satisfy r
  | .again q => .request q false
  | .stop e => .throw e

structure Feed where
  cmd : Command
  path : Str
  kind : WatchKind
  /-- The request of `run`. -/
  first : Query
  /-- The request of every later read. -/
  next : Query
  turn : Reply → Turn
  /-- What there is to tell of the node. -/
  view : Option (Znode Data) → Option Response
  /-- The number that is told, and the one of the node that it is read from. -/
  rank : Response → Int
  level : Znode Data → Nat
  locks : cmd.locks = none
  run : (Action.init cmd).run = [.request first true]
  onReply {a : Action} {q : Query} {r : Reply} (closed : Bool) : a.cmd = cmd → q = first ∨ q = next →
    q.answers r = true → a.onReply closed r = (a, [(turn r).call])
  onWatch {a : Action} (w : WatchReply) : a.cmd = cmd →
    a.onWatch false w = [.request next true] ∨ ∃ e, a.onWatch false w = [.throw e]
  again {r : Reply} {q : Query} : turn r = .again q → q = next
  reads {q : Query} (t : Ztree Data) : q = first ∨ q = next → (serve t q).1 = t
  /-- Only the first read may tell that there is no node. -/
  told_first {t : Ztree Data} {r : Response} : turn (serve t first).2 = .tell r →
    view (t.node path) = some r ∧ (t.node path = none → rank r < 0)
  told_next {t : Ztree Data} {r : Response} : turn (serve t next).2 = .tell r →
    view (t.node path) = some r ∧ t.node path ≠ none
  rank_eq {n : Znode Data} {r : Response} : view (some n) = some r → rank r = level n
  arms {t : Ztree Data} {q : Query} (id : Nat) : q = first ∨ q = next →
    (∃ e, turn (serve t q).2 = .stop e) ∨
      Sent.watch ⟨q, some id⟩ (serve t q).2 = [⟨id, kind, path⟩]
  /-- A change of what is told fires the watch. -/
  quiet {t t' : Ztree Data} {id : Nat} {r : Response} :
    Ztree.Change (t.node path) (t'.node path) → view (t.node path) = some r →
    Watch.fires ⟨id, kind, path⟩ t t' = none → view (t'.node path) = some r
  climbs {n n' : Znode Data} : Ztree.Change (some n) (some n') → level n ≤ level n'

/-- What a reply makes the operation tell. -/
def Feed.news (F : Feed) (x : Query × Reply) : Option Response :=
  match F.turn x.2 with
  | .tell r => some r
  | _ => none

def Obs.told : Obs → Option Response
  | .invoked (.value r) => some r
  | _ => none

/-- What the callback was given, newest first. -/
def Machine.delivered (m : Machine) : List Response := m.log.filterMap Obs.told

/-! ## The moves of an open subscription -/

namespace Machine

variable {m : Machine}

theorem kept_closed : Kept (fun _ => True) (fun m => m.closed = true) where
  watch _ := id
  send _ h _ := h
  satisfy h _ _ := h
  fail _ _ _ := rfl
  reconnect _ := id
  release h _ _ := h
  detach := id
  wait h _ := h

theorem closed_handle (h : m.closed = true) (calls : List Call) (l : Luck) :
    (m.handle calls l).closed = true :=
  kept_closed.handle h (fun _ _ => trivial) l

/-- A scope that is open after a handler was open before. -/
theorem open_of_handle {calls : List Call} {l : Luck} (h : (m.handle calls l).closed = false) :
    m.closed = false := by
  by_contra hc
  rw [closed_handle (Bool.of_not_eq_false hc)] at h
  cases h

theorem closed_abort (ha : m.attached = false) (e : Error) (l : Luck) :
    (m.abort e l).closed = true := by
  rw [abort_of_detached ha]
  split
  · assumption
  · rfl

/-- Nothing was thrown when the scope is still open. -/
theorem handle_request (ha : m.attached = false) {q : Query} {watch : Bool} {l : Luck}
    (ho : (m.handle [.request q watch] l).closed = false) : m.handle [.request q watch] l =
      if watch then (m.watch q).send q (some m.idCounter) else m.send q none := by
  rcases hl : l.call with _ | e
  · cases watch <;> simp [handle, exec, hl]
  · have hh : m.handle [.request q watch] l =
        (if watch then m.watch q else m).abort e.error l := by simp [handle, exec, hl]
    have ha' : (if watch then m.watch q else m).attached = false := by
      split <;> exact ha
    rw [hh, closed_abort ha'] at ho
    cases ho

end Machine

def Client.Live (c : Client) (id : Nat) : Prop := c.op.watchers.any (·.1 == id) = true

/-- The moves after which the scope is open. -/
inductive Feed.Moved (F : Feed) (c : Client) : Client → Prop where
  | session (id : Nat) (state : SessionState) :
    Moved F c { c with inbox := c.inbox ++ [.event id { type := .session, state }] }
  | told {s : Sent} {r : Reply} {rest : List Msg} {v : Response}
    (hbox : c.inbox = .reply s r :: rest) (hv : F.turn r = .tell v) : Moved F c { c with
      inbox := rest
      op := { c.op with log := .invoked (.value v) :: .replied s.query r :: c.op.log } }
  | again {s : Sent} {r : Reply} {rest : List Msg}
    (hbox : c.inbox = .reply s r :: rest) (hv : F.turn r = .again F.next) : Moved F c { c with
      inbox := rest
      op := { c.op with log := .replied s.query r :: c.op.log }.send F.next none }
  | renewed {id : Nat} {w : WatchReply} {rest : List Msg} (hbox : c.inbox = .event id w :: rest) :
    Moved F c { c with
      inbox := rest
      op := ({ c.op with watchers := c.op.watchers.filter (·.1 ≠ id) }.watch F.next).send F.next
        (some c.op.idCounter) }
  | dropped {id : Nat} {w : WatchReply} {rest : List Msg} (hbox : c.inbox = .event id w :: rest)
    (hid : ¬c.Live id) : Moved F c { c with inbox := rest }

/-- What the moves need to know of an open subscription. -/
structure Feed.Ready (F : Feed) (c : Client) : Prop where
  runs : c.op.act.cmd = F.cmd
  attached : c.op.attached = false
  running : c.op.running = []
  inbox : ∀ s r, .reply s r ∈ c.inbox → s.query = F.first ∨ s.query = F.next

namespace Feed

variable {F : Feed} {c c' : Client}

theorem Ready.reply (hc : F.Ready c) {s : Sent} {r : Reply} {rest : List Msg}
    (hbox : c.inbox = .reply s r :: rest) (hr : s.query.answers r = true) {l : Luck}
    (ho : (c.op.deliver s.query r l).closed = false) :
    F.Moved c { c with op := c.op.deliver s.query r l, inbox := rest } := by
  have hq := hc.inbox s r (by rw [hbox]; exact List.mem_cons_self)
  have hd : c.op.deliver s.query r l =
      { c.op with log := .replied s.query r :: c.op.log }.handle [(F.turn r).call] l := by
    simp only [Machine.deliver, F.onReply c.op.closed hc.runs hq hr]
  rw [hd] at ho ⊢
  rcases hv : F.turn r with v | q | e
  · have hcl : c.op.closed = false := (Machine.open_of_handle ho :)
    have hh : { c.op with log := .replied s.query r :: c.op.log }.handle [.satisfy v] l =
        { c.op with log := .invoked (.value v) :: .replied s.query r :: c.op.log } := by
      simp [Machine.handle, Machine.exec, Machine.satisfy, hcl]
    rw [Turn.call, hh]
    exact .told hbox hv
  · obtain rfl := F.again hv
    rw [hv] at ho
    rw [Turn.call, Machine.handle_request (by exact hc.attached) ho]
    exact .again hbox hv
  · rw [hv] at ho
    have hcl : ({ c.op with log := .replied s.query r :: c.op.log }.abort e l).closed = true :=
      Machine.closed_abort (by exact hc.attached) e l
    exact absurd ho (by rw [Turn.call]; simp [Machine.handle, Machine.exec, hcl])

theorem Ready.event (hc : F.Ready c) {id : Nat} {w : WatchReply} {rest : List Msg}
    (hbox : c.inbox = .event id w :: rest) {l : Luck} (ho : (c.op.notify id w l).closed = false) :
    F.Moved c { c with op := c.op.notify id w l, inbox := rest } := by
  have hcl : c.op.closed = false := (Machine.open_of_handle (l := l) (by exact ho) :)
  have hn : ∀ calls, c.op.act.onWatch false w = calls → c.op.notify id w l =
      { c.op with watchers := c.op.watchers.filter (·.1 ≠ id) }.handle calls l := by
    rintro _ rfl
    rw [← hcl]
    rfl
  rcases F.onWatch w hc.runs with hw | ⟨e, hw⟩
  · rw [hn _ hw] at ho ⊢
    rw [Machine.handle_request (by exact hc.attached) ho]
    exact .renewed hbox
  · rw [hn _ hw] at ho
    have hab : ({ c.op with watchers := c.op.watchers.filter (·.1 ≠ id) }.abort e l).closed = true :=
      Machine.closed_abort (by exact hc.attached) e l
    exact absurd (hab.symm.trans ho) nofun

theorem Ready.moved (hc : F.Ready c) (hin : ∀ s r, .reply s r ∈ c.inbox → s.query.answers r = true)
    {a : Move} (ha : c.move a = some c') (ho : c'.op.closed = false) : F.Moved c c' := by
  cases Client.moved ha with
  | session id state => exact .session id state
  | @reply s r rest l hbox =>
    exact hc.reply hbox (hin s r (by rw [hbox]; exact List.mem_cons_self)) ho
  | event hbox => exact hc.event hbox ho
  | dropped hbox hid => exact .dropped hbox hid
  | resume hk => simp [hc.running] at hk
  | @abort e l he =>
    have hcl : ({ c.op with deferred := none }.abort e l).closed = true :=
      Machine.closed_abort (by exact hc.attached) e l
    rw [hcl] at ho
    cases ho
  | @close l =>
    have hab : c.op.onAbort l = (c.op, false) := by simp [Machine.onAbort, hc.attached]
    simp only [Machine.close, hab] at ho
    split at ho
    · rename_i hcl
      exact absurd hcl (by simpa using ho)
    · cases ho

end Feed

/-- Before a move that leaves the scope open it was open. -/
theorem Client.open_of_move {c c' : Client} {a : Move} (ha : c.move a = some c')
    (ho : c'.op.closed = false) : c.op.closed = false := by
  by_contra hc
  have hc := Bool.of_not_eq_false hc
  have hcl : c'.op.closed = true := by
    cases moved ha with
    | session | dropped => exact hc
    | reply | event | resume => exact Machine.closed_handle (by exact hc) _ _
    | abort => exact Machine.kept_closed.abort (by exact hc) (.inl trivial) _
    | close => simp [Machine.close, hc]
  rw [hcl] at ho
  cases ho

/-! ## Nothing is missed -/

namespace Feed

variable (F : Feed) (c : Client)

def Doomed : Prop :=
  c.op.deferred.isSome = true ∨ ∃ s r e, .reply s r ∈ c.inbox ∧ F.turn r = .stop e

/-- A registered watcher is armed, or its request or its event is on the way. -/
def Covered : Prop :=
  F.Doomed c ∨ ∃ id, c.Live id ∧ (⟨id, F.kind, F.path⟩ ∈ c.armed ∨
    (∃ s ∈ c.op.outbox, s.watcher = some id) ∨ ∃ w, .event id w ∈ c.inbox)

/-- Something is on the way that makes the operation read again or stop. -/
def Behind : Prop :=
  F.Doomed c ∨ c.op.outbox ≠ [] ∨ (∃ s r q, .reply s r ∈ c.inbox ∧ F.turn r = .again q) ∨
    ∃ id w, c.Live id ∧ .event id w ∈ c.inbox

/-- What was told last, or is on its way, is what there is to tell. -/
def Current (t : Ztree Data) : Prop :=
  ∃ v, (c.replies.filterMap F.news).head? = some v ∧ F.view (t.node F.path) = some v

/-- An open subscription. -/
structure Following (i : Nat) (t : Ztree Data) (h : List Served) : Prop extends F.Ready c where
  asks : (∀ s ∈ c.op.outbox, s.query = F.next) ∨ ownRecords i h = [] ∧
    ∃ s rest, c.op.outbox = s :: rest ∧ s.query = F.first ∧ ∀ s ∈ rest, s.query = F.next
  delivered : c.op.delivered = c.op.replies.filterMap F.news
  covered : F.Covered c
  fresh : F.Behind c ∨ F.Current c t

/-- A failed request ends the subscription. -/
def Sound (i : Nat) (h : List Served) : Prop :=
  ∀ e ∈ ownRecords i h, e.reply.rc.isFault = true → ∃ err, F.turn e.reply = .stop err

variable {F c} {i : Nat} {t t' : Ztree Data} {h : List Served} {c' : Client}

theorem Doomed.mono (hd : F.Doomed c) (hop : c'.op.deferred = c.op.deferred)
    (hin : ∀ msg ∈ c.inbox, msg ∈ c'.inbox) : F.Doomed c' := by
  rcases hd with hd | ⟨s, r, e, hm, ht⟩
  · exact .inl (hop ▸ hd)
  · exact .inr ⟨s, r, e, hin _ hm, ht⟩

/-- The head of the queue is handled, and it does not stop the operation. -/
theorem Doomed.tail {msg : Msg} {rest : List Msg} (hd : F.Doomed c)
    (hop : c'.op.deferred = c.op.deferred) (hbox : c.inbox = msg :: rest) (hin : c'.inbox = rest)
    (hmsg : ∀ s r e, msg = .reply s r → F.turn r ≠ .stop e) : F.Doomed c' := by
  rcases hd with hd | ⟨s, r, e, hm, ht⟩
  · exact .inl (hop ▸ hd)
  · rw [hbox, List.mem_cons] at hm
    rcases hm with rfl | hm
    · exact absurd ht (hmsg s r e rfl)
    · exact .inr ⟨s, r, e, hin ▸ hm, ht⟩

theorem Behind.mono (hb : F.Behind c) (hop : c'.op = c.op)
    (hin : ∀ msg ∈ c.inbox, msg ∈ c'.inbox) : F.Behind c' := by
  rcases hb with hd | ho | ⟨s, r, q, hm, ht⟩ | ⟨id, w, hl, hm⟩
  · exact .inl (hd.mono (by rw [hop]) hin)
  · exact .inr (.inl (hop ▸ ho))
  · exact .inr (.inr (.inl ⟨s, r, q, hin _ hm, ht⟩))
  · exact .inr (.inr (.inr ⟨id, w, by rw [Client.Live, hop]; exact hl, hin _ hm⟩))

/-! ### A change of the tree -/

theorem inbox_subset_observe (t t' : Ztree Data) : ∀ msg ∈ c.inbox, msg ∈ (c.observe t t').inbox :=
  fun _ => List.mem_append_left _

theorem armed_observe (t t' : Ztree Data) {w : Watch} (hw : w ∈ c.armed) :
    w.fires t t' = none ∧ w ∈ (c.observe t t').armed ∨
      ∃ e, .event w.id e ∈ (c.observe t t').inbox := by
  rcases hf : w.fires t t' with _ | e
  · exact .inl ⟨rfl, List.mem_filter.mpr ⟨hw, by rw [hf]; rfl⟩⟩
  · exact .inr ⟨_, List.mem_append_right _ (List.mem_filterMap.mpr ⟨w, hw, by rw [hf]; rfl⟩)⟩

theorem Covered.observe (hc : F.Covered c) (t t' : Ztree Data) : F.Covered (c.observe t t') := by
  rcases hc with hd | ⟨id, hl, ha | ho | ⟨w, he⟩⟩
  · exact .inl (hd.mono rfl (inbox_subset_observe t t'))
  · rcases armed_observe t t' ha with ⟨-, ha⟩ | he
    · exact .inr ⟨id, hl, .inl ha⟩
    · exact .inr ⟨id, hl, .inr (.inr he)⟩
  · exact .inr ⟨id, hl, .inr (.inl ho)⟩
  · exact .inr ⟨id, hl, .inr (.inr ⟨w, inbox_subset_observe t t' _ he⟩)⟩

/-- What was current is, or the watch has fired. -/
theorem Current.observe (hcur : F.Current c t) (hc : F.Covered c)
    (hch : Ztree.Change (t.node F.path) (t'.node F.path)) :
    F.Behind (c.observe t t') ∨ F.Current (c.observe t t') t' := by
  rcases hc with hd | ⟨id, hl, ha | ⟨s, hs, -⟩ | ⟨w, he⟩⟩
  · exact .inl (.inl (hd.mono rfl (inbox_subset_observe t t')))
  · rcases armed_observe t t' ha with ⟨hf, -⟩ | ⟨e, he⟩
    · obtain ⟨v, hv, hview⟩ := hcur
      exact .inr ⟨v, by rw [Client.replies_observe, hv], F.quiet hch hview hf⟩
    · exact .inl (.inr (.inr (.inr ⟨id, e, hl, he⟩)))
  · exact .inl (.inr (.inl (List.ne_nil_of_mem hs)))
  · exact .inl (.inr (.inr (.inr ⟨id, w, hl, inbox_subset_observe t t' _ he⟩)))

theorem Following.observe {e : Served} (hf : F.Following c i t h) (he : e.client ≠ some i)
    (hch : Ztree.Change (t.node F.path) (t'.node F.path)) :
    F.Following (c.observe t t') i t' (e :: h) where
  runs := hf.runs
  attached := hf.attached
  running := hf.running
  inbox s r hm := hf.inbox s r (Client.reply_mem_observe hm)
  asks := by
    rw [ownRecords_cons_of_ne he]
    exact hf.asks
  delivered := hf.delivered
  covered := hf.covered.observe t t'
  fresh := by
    rcases hf.fresh with hb | hcur
    · exact .inl (hb.mono rfl (inbox_subset_observe t t'))
    · exact hcur.observe hf.covered hch

/-! ### A request is served -/

theorem fires_self (w : Watch) (t : Ztree Data) : w.fires t t = none := by
  unfold Watch.fires
  rcases w.kind with _ | _ <;> rcases t.node w.path with _ | n <;> simp

theorem observe_self (c : Client) (t : Ztree Data) : c.observe t t = c := by
  simp [Client.observe, fires_self]

theorem Following.asks_head (hf : F.Following c i t h) {s : Sent} {rest : List Sent}
    (ho : c.op.outbox = s :: rest) :
    (s.query = F.next ∨ s.query = F.first ∧ ownRecords i h = []) ∧ ∀ s ∈ rest, s.query = F.next := by
  rcases hf.asks with hn | ⟨hown, s', rest', ho', hs, hn⟩
  · rw [ho, List.forall_mem_cons] at hn
    exact ⟨.inl hn.1, hn.2⟩
  · rw [ho'] at ho
    cases ho
    exact ⟨.inr ⟨hs, hown⟩, hn⟩

theorem answer_reads {q : Query} (hq : q = F.first ∨ q = F.next) (t : Ztree Data)
    (f : Option Fault) : (answer t q f).1 = t := by
  cases f with
  | none => exact F.reads t hq
  | some f =>
    simp only [answer]
    split
    · exact F.reads t hq
    · rfl

/-- A reply that does not stop the operation is the one of the ensemble. -/
theorem Sound.answer {calls : Nat} {q : Query} {f : Option Fault}
    (hs : F.Sound i (.of (some i) calls t q f :: h)) (hf : f.all (·.rc.isFault) = true) :
    (∃ e, F.turn (answer t q f).2 = .stop e) ∨ (answer t q f).2 = (serve t q).2 := by
  rw [Sound, ownRecords_cons_self rfl, List.forall_mem_cons] at hs
  cases f with
  | none => exact .inr rfl
  | some f =>
    refine .inl (hs.1 ?_)
    have hrc : (q.error f.rc).rc.isFault = true := by
      rw [Query.rc_error]
      exact hf
    exact hrc

theorem Covered.served {s : Sent} {rest : List Sent} {r : Reply} (hc : F.Covered c)
    (ho : c.op.outbox = s :: rest) (hq : s.query = F.first ∨ s.query = F.next)
    (hr : (∃ e, F.turn r = .stop e) ∨ r = (serve t s.query).2) : F.Covered (c.served s r) := by
  have hin : ∀ msg ∈ c.inbox, msg ∈ (c.served s r).inbox := fun _ => List.mem_append_left _
  have hlast : .reply s r ∈ (c.served s r).inbox := List.mem_append_right _ (List.mem_singleton.mpr rfl)
  rcases hr with ⟨e, hstop⟩ | rfl
  · exact .inl (.inr ⟨s, r, e, hlast, hstop⟩)
  rcases hc with hd | ⟨id, hl, ha | ⟨s', hs', hw⟩ | ⟨w, he⟩⟩
  · exact .inl (hd.mono rfl hin)
  · exact .inr ⟨id, hl, .inl (List.mem_append_left _ ha)⟩
  · rw [ho, List.mem_cons] at hs'
    rcases hs' with rfl | hs'
    · obtain ⟨q, watcher⟩ := s'
      dsimp only at hw hq
      subst hw
      rcases F.arms id hq with ⟨e, hstop⟩ | harm
      · exact .inl (.inr ⟨_, _, e, hlast, hstop⟩)
      · refine .inr ⟨id, hl, .inl (List.mem_append_right _ ?_)⟩
        rw [harm]
        exact List.mem_singleton.mpr rfl
    · refine .inr ⟨id, hl, .inr (.inl ⟨s', ?_, hw⟩)⟩
      simpa [Client.served, ho] using hs'
  · exact .inr ⟨id, hl, .inr (.inr ⟨w, hin _ he⟩)⟩

/-- What the operation is told is what the node is at that moment. -/
theorem fresh_served {s : Sent} {r : Reply} (hq : s.query = F.first ∨ s.query = F.next)
    (hr : (∃ e, F.turn r = .stop e) ∨ r = (serve t s.query).2) :
    F.Behind (c.served s r) ∨ F.Current (c.served s r) t := by
  have hlast : .reply s r ∈ (c.served s r).inbox := List.mem_append_right _ (List.mem_singleton.mpr rfl)
  rcases hv : F.turn r with v | q | e
  · rcases hr with ⟨e, hstop⟩ | rfl
    · rw [hv] at hstop
      cases hstop
    · refine .inr ⟨v, ?_, ?_⟩
      · simp [Client.replies, Client.served, Msg.answer, news, hv]
      · rcases hq with hq | hq <;> rw [hq] at hv
        · exact (F.told_first hv).1
        · exact (F.told_next hv).1
  · exact .inl (.inr (.inr (.inl ⟨s, r, q, hlast, hv⟩)))
  · exact .inl (.inl (.inr ⟨s, r, e, hlast, hv⟩))

theorem Following.served (hf : F.Following c i t h) {s : Sent} {rest : List Sent} {r : Reply}
    {e : Served} (ho : c.op.outbox = s :: rest)
    (hr : (∃ e, F.turn r = .stop e) ∨ r = (serve t s.query).2) :
    F.Following (c.served s r) i t (e :: h) := by
  obtain ⟨hs, hrest⟩ := hf.asks_head ho
  have hq : s.query = F.first ∨ s.query = F.next := hs.symm.imp_left And.left
  refine ⟨⟨hf.runs, hf.attached, hf.running, fun s' r' hm => ?_⟩, .inl fun s' hs' => ?_, hf.delivered,
    hf.covered.served ho hq hr, fresh_served hq hr⟩
  · rcases List.mem_append.mp hm with hm | hm
    · exact hf.inbox s' r' hm
    · cases List.mem_singleton.mp hm
      exact hq
  · exact hrest s' (by simpa [Client.served, ho] using hs')

/-! ### A move -/

theorem Covered.moved (hc : F.Covered c) (hm : F.Moved c c') : F.Covered c' := by
  cases hm with
  | session id state =>
    have hin : ∀ msg ∈ c.inbox, msg ∈ c.inbox ++ [.event id { type := .session, state }] :=
      fun _ => List.mem_append_left _
    rcases hc with hd | ⟨id', hl, ha | ho | ⟨w, he⟩⟩
    · exact .inl (hd.mono rfl hin)
    · exact .inr ⟨id', hl, .inl ha⟩
    · exact .inr ⟨id', hl, .inr (.inl ho)⟩
    · exact .inr ⟨id', hl, .inr (.inr ⟨w, hin _ he⟩)⟩
  | told hbox hv =>
    rcases hc with hd | ⟨id, hl, ha | ho | ⟨w, he⟩⟩
    · refine .inl (hd.tail rfl hbox rfl ?_)
      rintro _ _ e ⟨⟩ hstop
      rw [hv] at hstop
      cases hstop
    · exact .inr ⟨id, hl, .inl ha⟩
    · exact .inr ⟨id, hl, .inr (.inl ho)⟩
    · exact .inr ⟨id, hl, .inr (.inr ⟨w, by simpa [hbox] using he⟩)⟩
  | again hbox hv =>
    rcases hc with hd | ⟨id, hl, ha | ⟨s, hs, hw⟩ | ⟨w, he⟩⟩
    · refine .inl (hd.tail rfl hbox rfl ?_)
      rintro _ _ e ⟨⟩ hstop
      rw [hv] at hstop
      cases hstop
    · exact .inr ⟨id, hl, .inl ha⟩
    · exact .inr ⟨id, hl, .inr (.inl ⟨s, List.mem_append_left _ hs, hw⟩)⟩
    · exact .inr ⟨id, hl, .inr (.inr ⟨w, by simpa [hbox] using he⟩)⟩
  | renewed hbox =>
    refine .inr ⟨c.op.idCounter, ?_, .inr (.inl ⟨_, List.mem_append_right _ (List.mem_singleton.mpr rfl), rfl⟩)⟩
    simp [Client.Live]
  | @dropped id w rest hbox hid =>
    rcases hc with hd | ⟨id', hl, ha | ho | ⟨w', he⟩⟩
    · exact .inl (hd.tail rfl hbox rfl fun _ _ _ heq => by cases heq)
    · exact .inr ⟨id', hl, .inl ha⟩
    · exact .inr ⟨id', hl, .inr (.inl ho)⟩
    · rw [hbox, List.mem_cons] at he
      rcases he with heq | he
      · cases heq
        exact absurd hl hid
      · exact .inr ⟨id', hl, .inr (.inr ⟨w', he⟩)⟩

theorem Behind.moved (hb : F.Behind c) (hm : F.Moved c c') : F.Behind c' := by
  cases hm with
  | session id state => exact hb.mono rfl fun _ => List.mem_append_left _
  | told hbox hv =>
    rcases hb with hd | ho | ⟨s, r, q, hm, ht⟩ | ⟨id, w, hl, hm⟩
    · refine .inl (hd.tail rfl hbox rfl ?_)
      rintro _ _ e ⟨⟩ hstop
      rw [hv] at hstop
      cases hstop
    · exact .inr (.inl ho)
    · rw [hbox, List.mem_cons] at hm
      rcases hm with heq | hm
      · cases heq
        rw [hv] at ht
        cases ht
      · exact .inr (.inr (.inl ⟨s, r, q, hm, ht⟩))
    · exact .inr (.inr (.inr ⟨id, w, hl, by simpa [hbox] using hm⟩))
  | again hbox hv => exact .inr (.inl (by simp))
  | renewed hbox => exact .inr (.inl (by simp))
  | @dropped id w rest hbox hid =>
    rcases hb with hd | ho | ⟨s, r, q, hm, ht⟩ | ⟨id', w', hl, hm⟩
    · exact .inl (hd.tail rfl hbox rfl fun _ _ _ heq => by cases heq)
    · exact .inr (.inl ho)
    · exact .inr (.inr (.inl ⟨s, r, q, by simpa [hbox] using hm, ht⟩))
    · rw [hbox, List.mem_cons] at hm
      rcases hm with heq | hm
      · cases heq
        exact absurd hl hid
      · exact .inr (.inr (.inr ⟨id', w', hl, hm⟩))

theorem Following.asks_append (hf : F.Following c i t h) (w : Option Nat) :
    (∀ s ∈ c.op.outbox ++ [⟨F.next, w⟩], s.query = F.next) ∨ ownRecords i h = [] ∧
      ∃ s rest, c.op.outbox ++ [⟨F.next, w⟩] = s :: rest ∧ s.query = F.first ∧
        ∀ s ∈ rest, s.query = F.next := by
  have happ : ∀ l : List Sent, (∀ s ∈ l, s.query = F.next) →
      ∀ s ∈ l ++ [⟨F.next, w⟩], s.query = F.next := by
    intro l hl s hs
    rcases List.mem_append.mp hs with hs | hs
    · exact hl s hs
    · rw [List.mem_singleton.mp hs]
  rcases hf.asks with hn | ⟨hown, s, rest, ho, hs, hn⟩
  · exact .inl (happ _ hn)
  · exact .inr ⟨hown, s, rest ++ [⟨F.next, w⟩], by rw [ho]; rfl, hs, happ _ hn⟩

theorem Following.moved (hf : F.Following c i t h) (hm : F.Moved c c')
    (hrep : c'.replies = c.replies) : F.Following c' i t h := by
  have hcov := hf.covered.moved hm
  have hfresh : F.Behind c' ∨ F.Current c' t := by
    rcases hf.fresh with hb | ⟨v, hv, hview⟩
    · exact .inl (hb.moved hm)
    · exact .inr ⟨v, by rw [hrep, hv], hview⟩
  have hdel := hf.delivered
  cases hm with
  | session id state =>
    refine ⟨⟨hf.runs, hf.attached, hf.running, fun s r hm => ?_⟩, hf.asks, hdel, hcov, hfresh⟩
    exact hf.inbox s r (by simpa using hm)
  | told hbox hv =>
    refine ⟨⟨hf.runs, hf.attached, hf.running, fun s r hm => ?_⟩, hf.asks, ?_, hcov, hfresh⟩
    · exact hf.inbox s r (by rw [hbox]; exact List.mem_cons_of_mem _ hm)
    · simpa [Machine.delivered, Machine.replies, List.filterMap_cons, Obs.told, Obs.answer, news, hv]
        using hdel
  | again hbox hv =>
    refine ⟨⟨hf.runs, hf.attached, hf.running, fun s r hm => ?_⟩, hf.asks_append none, ?_, hcov, hfresh⟩
    · exact hf.inbox s r (by rw [hbox]; exact List.mem_cons_of_mem _ hm)
    · simpa [Machine.delivered, Machine.replies, List.filterMap_cons, Obs.told, Obs.answer, news, hv]
        using hdel
  | renewed hbox =>
    refine ⟨⟨hf.runs, hf.attached, hf.running, fun s r hm => ?_⟩, hf.asks_append _, ?_, hcov, hfresh⟩
    · exact hf.inbox s r (by rw [hbox]; exact List.mem_cons_of_mem _ hm)
    · simpa [Machine.delivered, Machine.replies, List.filterMap_cons, Obs.told, Obs.answer] using hdel
  | dropped hbox hid =>
    refine ⟨⟨hf.runs, hf.attached, hf.running, fun s r hm => ?_⟩, hf.asks, hdel, hcov, hfresh⟩
    exact hf.inbox s r (by rw [hbox]; exact List.mem_cons_of_mem _ hm)

/-! ### Whole runs -/

theorem Following.start (l : Luck) (hh : ownRecords i h = []) :
    F.Following { op := .start F.cmd l } i t h := by
  have ha : F.cmd.locks.isSome = false := by rw [F.locks]; rfl
  rcases hl : l.call with _ | e
  · have hs : Machine.start F.cmd l =
        (Machine.watch { act := .init F.cmd } F.first).send F.first (some 1) := by
      simp [Machine.start, F.run, Machine.exec, hl, ha]
    rw [hs]
    refine ⟨⟨by simp, rfl, rfl, by simp⟩, .inr ⟨hh, ⟨F.first, some 1⟩, [], rfl, rfl, by simp⟩, rfl, ?_,
      .inl (.inr (.inl (by simp)))⟩
    exact .inr ⟨1, by simp [Client.Live], .inr (.inl ⟨⟨F.first, some 1⟩, by simp, rfl⟩)⟩
  · have hs : Machine.start F.cmd l =
        { Machine.watch { act := .init F.cmd } F.first with deferred := some e.error } := by
      simp [Machine.start, F.run, Machine.exec, hl, ha]
    rw [hs]
    exact ⟨⟨by simp, rfl, rfl, by simp⟩, .inl (by simp), rfl, .inl (.inl rfl), .inl (.inl (.inl rfl))⟩

theorem Sound.tail {e : Served} (hs : F.Sound i (e :: h)) : F.Sound i h := by
  intro e' he'
  obtain ⟨hm, hc⟩ := mem_ownRecords.mp he'
  exact hs e' (mem_ownRecords.mpr ⟨List.mem_cons_of_mem _ hm, hc⟩)

end Feed

variable {h : List Served} {c : Client} {t : Ztree Data}

theorem Run.following {F : Feed} {i : Nat}
    (hr : Run i F.cmd t h c) (hs : F.Sound i h) (ho : c.op.closed = false) :
    F.Following c i t h := by
  induction hr with
  | start l hh => exact .start l (ownRecords_eq_nil fun e he => (hh e he).1)
  | @other t h c client calls q f hr hc hi ih =>
    exact (ih hs.tail ho).observe hc (answer_change t q f F.path)
  | @serve t h c calls s rest f hr hi hbox hf ih =>
    have hfol := ih hs.tail ho
    have hq : s.query = F.first ∨ s.query = F.next :=
      (hfol.asks_head hbox).1.symm.imp_left And.left
    rw [Feed.answer_reads hq t f, Feed.observe_self]
    exact hfol.served hbox (hs.answer hf)
  | move hr ha ih =>
    have hfol := ih hs (Client.open_of_move ha ho)
    exact hfol.moved (hfol.toReady.moved hr.reachable.2 ha ho) (Client.replies_move ha)

/-- When nothing is on its way: what was told last is current, and a watch is armed. -/
theorem Run.current {F : Feed} {i : Nat}
    (hr : Run i F.cmd t h c) (hs : F.Sound i h) (ho : c.op.closed = false) (hidle : c.idle = true) :
    (∃ v, c.op.delivered.head? = some v ∧ F.view (t.node F.path) = some v) ∧
      ∃ id, c.Live id ∧ ⟨id, F.kind, F.path⟩ ∈ c.armed := by
  have hf := hr.following hs ho
  obtain ⟨hout, hin, -, hdef⟩ := Client.idle_iff.mp hidle
  have hnd : ¬F.Doomed c := by simp [Feed.Doomed, hdef, hin]
  have hnb : ¬F.Behind c := by simp [Feed.Behind, hnd, hout, hin]
  constructor
  · obtain ⟨v, hv, hview⟩ := hf.fresh.resolve_left hnb
    have hrep : c.replies = c.op.replies := by simp [Client.replies, hin]
    rw [hrep, ← hf.delivered] at hv
    exact ⟨v, hv, hview⟩
  · obtain ⟨id, hl, ha | ⟨s, hm, -⟩ | ⟨w, hm⟩⟩ := hf.covered.resolve_left hnd
    · exact ⟨id, hl, ha⟩
    · simp [hout] at hm
    · simp [hin] at hm

/-! ## What is told never goes back -/

/-- The record is the end of the node. -/
def Served.removes (e : Served) (path : Str) : Prop :=
  e.before.node path ≠ none ∧ e.after.node path = none

instance (e : Served) (path : Str) : Decidable (e.removes path) := inferInstanceAs (Decidable (_ ∧ _))

/-- Since the call was made the node is not created again after it was removed. -/
def Steady (i : Nat) (path : Str) (h : List Served) : Prop :=
  h.Pairwise fun later e => i < e.calls → e.removes path → later.before.node path = none →
    later.after.node path = none

instance (i : Nat) (path : Str) (h : List Served) : Decidable (Steady i path h) :=
  inferInstanceAs (Decidable (List.Pairwise _ h))

namespace Feed

variable (F : Feed) (i : Nat) (t : Ztree Data) (h : List Served)

/-- No number that was told is above the one of the node. -/
def Below (v : Response) : Prop :=
  match t.node F.path with
  | some n => F.rank v ≤ F.level n
  | none => F.rank v < 0 ∨ ∃ e ∈ h, i < e.calls ∧ e.removes F.path

structure Climbing (l : List Response) : Prop where
  sorted : l.Pairwise fun later v => F.rank v ≤ F.rank later
  below : ∀ v ∈ l, F.Below i t h v

variable {F i t h} {t' : Ztree Data}

theorem Below.change {v : Response} {e : Served} (hb : F.Below i t h v) (he : e.before = t)
    (he' : e.after = t') (hi : i < e.calls) (hch : Ztree.Change (t.node F.path) (t'.node F.path))
    (hs : Steady i F.path (e :: h)) : F.Below i t' (e :: h) v := by
  subst he he'
  simp only [Below] at hb ⊢
  rcases hn : e.before.node F.path with _ | n <;> rcases hn' : e.after.node F.path with _ | n' <;>
    rw [hn] at hb <;> dsimp only at hb ⊢
  · exact hb.imp_right fun ⟨x, hx, hr⟩ => ⟨x, List.mem_cons_of_mem _ hx, hr⟩
  · -- The node is new; it was not there before.
    rcases hb with hneg | ⟨x, hx, hxi, hxr⟩
    · omega
    · have := (List.pairwise_cons.mp hs).1 x hx hxi hxr hn
      rw [hn'] at this
      cases this
  · exact .inr ⟨e, List.mem_cons_self, hi, by simp [Served.removes, hn, hn']⟩
  · rw [hn, hn'] at hch
    have := F.climbs hch
    omega

theorem Climbing.change {l : List Response} {e : Served} (hcl : F.Climbing i t h l)
    (he : e.before = t) (he' : e.after = t') (hi : i < e.calls)
    (hch : Ztree.Change (t.node F.path) (t'.node F.path)) (hs : Steady i F.path (e :: h)) :
    F.Climbing i t' (e :: h) l :=
  ⟨hcl.sorted, fun v hv => (hcl.below v hv).change he he' hi hch hs⟩

/-- The number of a node that is there is above all. -/
theorem Climbing.tell_next {l : List Response} {v : Response} (hcl : F.Climbing i t h l)
    (hv : F.turn (serve t F.next).2 = .tell v) : F.Climbing i t h (v :: l) := by
  obtain ⟨hview, hne⟩ := F.told_next hv
  obtain ⟨n, hn⟩ := Option.ne_none_iff_exists'.mp hne
  rw [hn] at hview
  have hrank := F.rank_eq hview
  refine ⟨List.pairwise_cons.mpr ⟨fun v' hv' => ?_, hcl.sorted⟩,
    List.forall_mem_cons.mpr ⟨?_, hcl.below⟩⟩
  · have hb := hcl.below v' hv'
    simp only [Below, hn] at hb
    omega
  · simp only [Below, hn]
    omega

theorem climbing_first {v : Response} (hv : F.turn (serve t F.first).2 = .tell v) :
    F.Climbing i t h [v] := by
  obtain ⟨hview, hneg⟩ := F.told_first hv
  refine ⟨List.pairwise_singleton _ _, List.forall_mem_singleton.mpr ?_⟩
  simp only [Below]
  rcases hn : t.node F.path with _ | n <;> dsimp only
  · exact .inl (hneg hn)
  · rw [hn] at hview
    exact (F.rank_eq hview).le

theorem Climbing.served {s : Sent} {r : Reply} {rest : List Sent}
    (hcl : F.Climbing i t h (c.replies.filterMap F.news)) (hrun : Run i F.cmd t h c)
    (hf : F.Following c i t h) (ho : c.op.outbox = s :: rest)
    (hr : (∃ e, F.turn r = .stop e) ∨ r = (serve t s.query).2) :
    F.Climbing i t h ((c.served s r).replies.filterMap F.news) := by
  have hrep : (c.served s r).replies = (s.query, r) :: c.replies := by
    simp [Client.replies, Client.served, Machine.replies, Msg.answer]
  rw [hrep]
  rcases hv : F.turn r with v | q | e
  · rcases hr with ⟨e, hstop⟩ | rfl
    · rw [hv] at hstop
      cases hstop
    · rw [List.filterMap_cons_some (b := v) (by simp [news, hv])]
      rcases (hf.asks_head ho).1 with hq | ⟨hq, hown⟩ <;> rw [hq] at hv
      · exact hcl.tell_next hv
      · -- It is the first of its requests.
        have hnil : c.replies = [] := by
          rw [← hrun.replies, hown]
          rfl
        rw [hnil]
        exact climbing_first hv
  · rw [List.filterMap_cons_none (by simp [news, hv])]
    exact hcl
  · rw [List.filterMap_cons_none (by simp [news, hv])]
    exact hcl

end Feed

theorem Run.climbing {F : Feed} {i : Nat}
    (hr : Run i F.cmd t h c) (hs : F.Sound i h) (ho : c.op.closed = false)
    (hst : Steady i F.path h) : F.Climbing i t h (c.replies.filterMap F.news) := by
  induction hr with
  | @start t h l hh =>
    have hnil : Client.replies { op := .start F.cmd l } = [] := by
      simp [Client.replies, Machine.replies_start]
    rw [hnil]
    exact ⟨.nil, by simp⟩
  | @other t h c client calls q f hr hc hi ih =>
    rw [Client.replies_observe]
    exact (ih hs.tail ho hst.tail).change rfl rfl hi (answer_change t q f F.path) hst
  | @serve t h c calls s rest f hr hi hbox hf ih =>
    have hfol := hr.following hs.tail ho
    have hq : s.query = F.first ∨ s.query = F.next :=
      (hfol.asks_head hbox).1.symm.imp_left And.left
    have hcl := (ih hs.tail ho hst.tail).served hr hfol hbox (hs.answer hf)
    rw [Feed.answer_reads hq t f, Feed.observe_self]
    exact hcl.change (e := .of (some i) calls t s.query f) rfl (Feed.answer_reads hq t f) hi (.same _) hst
  | move hr ha ih =>
    rw [Client.replies_move ha]
    exact ih hs (Client.open_of_move ha ho) hst

theorem Run.delivered_sorted {F : Feed} {i : Nat}
    (hr : Run i F.cmd t h c) (hs : F.Sound i h) (ho : c.op.closed = false) (hidle : c.idle = true)
    (hst : Steady i F.path h) : c.op.delivered.Pairwise fun later r => F.rank r ≤ F.rank later := by
  have hrep : c.replies = c.op.replies := by simp [Client.replies, (Client.idle_iff.mp hidle).2.1]
  rw [(hr.following hs ho).delivered, ← hrep]
  exact (hr.climbing hs ho hst).sorted

end Cocaine.Unicorn
