import CocainePlugins.Unicorn.Release

/-!
# The grant of a lock

One `lock_t` among arbitrary replies. Three facts about it:

* It is granted by a list of children in which no name is below the one of its node
  (`LockT.first_of_satisfy`), and by nothing else (`Grounded`).
* What may still lead to a grant does not multiply (`Machine.weight_handle`): each reply
  or event is followed by one such request at most.
* It deletes its own node only, and never without the scope being closed (`Settled`).
-/

namespace Cocaine.Unicorn

open Framework

/-- The callback of a lock got `true`. -/
def granted : Obs := .invoked (.value (.done true))

def Call.isSatisfy : Call → Bool
  | .satisfy _ => true
  | _ => false

/-! ## The first of the children -/

theorem LockT.first_of_predecessors {children : List Str} {node : Str}
    (h : (predecessors children node).1 = []) : ∀ x ∈ children, ¬ x < node := by
  intro x hx hlt
  have hsorted : (children.insertionSort (· ≤ ·)).Pairwise (· ≤ ·) :=
    List.pairwise_insertionSort (· ≤ ·) children
  have hmem : x ∈ children.insertionSort (· ≤ ·) := (List.mem_insertionSort _).mpr hx
  simp only [predecessors] at h
  rcases hs : children.insertionSort (· ≤ ·) with _ | ⟨y, ys⟩
  · rw [hs] at hmem
    cases hmem
  · rw [hs] at hmem hsorted h
    have hy : ¬ y < node := by
      intro hy
      simp [hy] at h
    rcases List.mem_cons.mp hmem with rfl | hys
    · exact hy hlt
    · exact hy (lt_of_le_of_lt (List.rel_of_pairwise_cons hsorted hys) hlt)

variable {folder created : Str}

/-- A lock is granted when no name is below the one of its node. -/
theorem LockT.first_of_satisfy {rc : Rc} {children : List Str} {r : Response}
    (h : .satisfy r ∈ onChilds folder created rc children) :
    rc = .ok ∧ ∃ node, getNodeName created = .ok node ∧ ∀ x ∈ children, ¬ x < node := by
  unfold onChilds at h
  split at h
  · simp [fail] at h
  · rename_i hrc
    refine ⟨not_not.mp hrc, ?_⟩
    split at h
    · simp at h
    · rename_i node hn
      dsimp only at h
      split at h
      · simp at h
      · split at h
        · rename_i hlast
          exact ⟨node, hn, first_of_predecessors (List.getLast?_eq_none_iff.mp hlast)⟩
        · split at h <;> simp at h

namespace Action

variable {a : Action}

theorem onReply_satisfy (h : a.cmd.locks.isSome = true) {closed : Bool} {r : Reply} {v : Response}
    (hs : .satisfy v ∈ (a.onReply closed r).2) : ∃ children stat node, r = .childs .ok children stat ∧
      getNodeName a.created = .ok node ∧ ∀ x ∈ children, ¬ x < node := by
  have hcreate : ∀ folder value rc path,
      .satisfy v ∉ (a.onLockCreated folder value closed rc path).2 := by
    intro folder value rc path hm
    by_cases harr : rc = .ok ∧ a.depth = 0
    · obtain ⟨rfl, hd⟩ := harr
      rw [onLockCreated_of_arrived _ _ _ _ hd] at hm
      cases closed <;> simp [ask] at hm
    · obtain ⟨d, calls, heq, hc⟩ := onLockCreated_of_ne folder value closed path harr
      rw [heq] at hm
      rcases hc with ⟨e, rfl⟩ | ⟨q, rfl, -, -⟩ <;> simp [ask] at hm
  obtain ⟨cmd, depth, value, created⟩ := a
  cases cmd with
  | lock folder | namedLock folder =>
    cases r with
    | put => cases hs
    | get rc => simp only [onReply, LockT.onGet] at hs; split at hs <;> simp [fail] at hs
    | create rc path => exact absurd hs (hcreate _ _ rc path)
    | del rc => simp only [onReply, LockT.onDel] at hs; split at hs <;> simp at hs
    | exists' rc =>
      simp only [onReply, LockT.onExists] at hs
      split at hs
      · simp [ask] at hs
      · split at hs <;> simp [fail] at hs
    | childs rc children stat =>
      obtain ⟨rfl, node, hn, hfirst⟩ := LockT.first_of_satisfy hs
      exact ⟨children, stat, node, rfl, hn, hfirst⟩
  | _ => cases h

theorem onWatch_lock {folder : Str} {value : Value} (h : a.cmd.locks = some (folder, value))
    (closed : Bool) (w : WatchReply) : a.onWatch closed w = LockT.onWatch folder w := by
  obtain ⟨cmd, depth, v, created⟩ := a
  cases cmd with
  | lock | namedLock =>
    cases h
    rfl
  | _ => cases h

end Action

/-- Whatever grants, or still may from a handler that is running, has `G` for a reason. -/
structure Grounded (G : Prop) (m : Machine) : Prop where
  log : granted ∈ m.log → G
  running : ∀ calls ∈ m.running, ∀ c ∈ calls, c.isSatisfy = true → G

theorem Grounded.mono {G G' : Prop} {m : Machine} (h : Grounded G m) (hG : G → G') :
    Grounded G' m :=
  ⟨fun hg => hG (h.log hg), fun calls hc c hm hs => hG (h.running calls hc c hm hs)⟩

theorem Grounded.kept (G : Prop) : Kept (fun c => c.isSatisfy = true → G) (Grounded G) where
  watch _ h := ⟨h.log, h.running⟩
  send _ h _ := ⟨fun hg => h.log (by simpa [granted] using hg), h.running⟩
  satisfy h _ hc := ⟨fun _ => hc rfl, h.running⟩
  fail h _ _ := ⟨fun hg => h.log (by simpa [granted] using hg), h.running⟩
  reconnect _ h := ⟨fun hg => h.log (by simpa [granted] using hg), h.running⟩
  release h _ _ := ⟨fun hg => h.log (by simpa [granted] using hg), h.running⟩
  detach h := ⟨h.log, h.running⟩
  wait h hr := ⟨h.log, List.forall_mem_cons.mpr ⟨hr, h.running⟩⟩

/-! ## What may lead to a grant -/

/-- The requests whose replies have the next request or the grant in their wake. -/
def Query.leads : Query → Bool
  | .create _ _ _ _ | .childs _ | .exists' _ => true
  | _ => false

def Call.leads : Call → Bool
  | .request q _ => q.leads
  | .satisfy _ => true
  | _ => false

/-- A previous node that is there is waited for; its watch leads on then. -/
def Reply.leads : Reply → Bool
  | .create _ _ | .childs _ _ _ => true
  | .exists' rc _ => rc != .ok
  | _ => false

theorem Query.leads_of_answers {q : Query} {r : Reply} (ha : q.answers r = true)
    (h : r.leads = true) : q.leads = true := by
  cases q <;> cases r <;> simp [answers, leads, Reply.leads] at ha h ⊢

namespace Machine

variable (m : Machine)

def grants : Nat := m.log.count granted

def weight : Nat :=
  m.outbox.countP (·.query.leads) + m.running.flatten.countP Call.leads + m.grants

theorem weight_send (q : Query) (w : Option Nat) :
    (m.send q w).weight = m.weight + if q.leads then 1 else 0 := by
  have hlog : (m.send q w).grants = m.grants := by simp [grants, granted]
  have hout : (m.send q w).outbox.countP (·.query.leads) =
      m.outbox.countP (·.query.leads) + if q.leads then 1 else 0 := by
    simp
  have hrun : (m.send q w).running = m.running := rfl
  unfold weight
  rw [hlog, hout, hrun]
  omega

theorem weight_onAbort (l : Luck) : (m.onAbort l).1.weight = m.weight := by
  unfold onAbort
  split
  · split
    · dsimp only
      split <;> simp [weight, grants, granted]
    · exact m.weight_send (.del m.act.created (-1)) none
  · rfl

theorem weight_abort (e : Error) (l : Luck) : (m.abort e l).weight = m.weight := by
  have h := m.weight_onAbort l
  unfold abort
  dsimp only
  split
  · exact h
  · split
    · exact h
    · rw [← h]
      simp [weight, grants, granted]

theorem weight_exec (c : Call) (l : Luck) :
    (m.exec c l).1.weight ≤ m.weight + if c.leads then 1 else 0 := by
  cases c with
  | satisfy r =>
    simp only [exec, satisfy, Call.leads]
    split
    · omega
    · simp only [weight, grants, note, List.count_cons]
      split
      · exact Nat.le_refl _
      · exact Nat.le_add_right _ _
  | throw e => simp [exec]
  | reconnect => simp [exec, weight, grants, granted]
  | request q watch =>
    have hw : (if watch then m.watch q else m).weight = m.weight := by
      split <;> rfl
    simp only [exec, Call.leads]
    split
    · exact hw.le.trans (Nat.le_add_right _ _)
    · exact (weight_send _ q _).le.trans (Nat.add_le_add_right hw.le _)

/-- A handler adds what its calls may lead to. -/
theorem weight_handle (calls : List Call) (l : Luck) :
    (m.handle calls l).weight ≤ m.weight + calls.countP Call.leads := by
  unfold handle
  split
  · exact Nat.le_add_right _ _
  · rename_i c rest
    have he := m.weight_exec c l
    rw [List.countP_cons]
    dsimp only
    split
    · rw [weight_abort]
      omega
    · split
      · omega
      · simp only [weight, grants, List.flatten_cons, List.countP_append] at he ⊢
        omega

theorem grants_le_weight : m.grants ≤ m.weight := Nat.le_add_left _ _

/-- Nothing is granted to a closed scope. -/
theorem kept_grants (n : Nat) : Kept (fun _ => True) (fun m => m.closed = true ∧ m.grants = n) where
  watch _ := id
  send _ h _ := ⟨h.1, by simpa [grants, granted] using h.2⟩
  satisfy h hc _ := absurd (h.1.symm.trans hc) nofun
  fail h hc _ := absurd (h.1.symm.trans hc) nofun
  reconnect _ h := ⟨h.1, by simpa [grants, granted] using h.2⟩
  release h _ _ := ⟨h.1, by simpa [grants, granted] using h.2⟩
  detach := id
  wait h _ := h

end Machine

variable {calls : List Call}

theorem LockT.Reaction.leads (h : Reaction folder created calls) : calls.countP Call.leads ≤ 1 := by
  cases h with
  | nothing => exact Nat.zero_le 1
  | throw | reconnect | again => exact List.countP_le_length
  | grant | wait => exact Nat.le_refl 1

namespace Action

variable {a : Action}

theorem onReply_leads (h : a.cmd.locks.isSome = true) (closed : Bool) (r : Reply) :
    (a.onReply closed r).2.countP Call.leads ≤ if r.leads then 1 else 0 := by
  have hcreate : ∀ folder value rc path,
      (a.onLockCreated folder value closed rc path).2.countP Call.leads ≤ 1 := by
    intro folder value rc path
    by_cases harr : rc = .ok ∧ a.depth = 0
    · obtain ⟨rfl, hd⟩ := harr
      rw [onLockCreated_of_arrived _ _ _ _ hd]
      cases closed <;> exact List.countP_le_length
    · obtain ⟨d, calls, heq, hc⟩ := onLockCreated_of_ne folder value closed path harr
      rw [heq]
      rcases hc with ⟨e, rfl⟩ | ⟨q, rfl, -, -⟩ <;> exact List.countP_le_length
  obtain ⟨cmd, depth, value, created⟩ := a
  cases cmd with
  | lock folder | namedLock folder =>
    cases r with
    | put => exact Nat.zero_le _
    | get rc => simp only [onReply, LockT.onGet]; split <;> simp [fail, Call.leads]
    | create rc path => exact hcreate _ _ rc path
    | del rc => simp only [onReply, LockT.onDel]; split <;> simp [Call.leads]
    | exists' rc =>
      simp only [onReply, LockT.onExists]
      split
      · rename_i hrc
        subst hrc
        exact List.countP_le_length
      · split <;> simp [fail, Call.leads]
    | childs rc children => exact (LockT.onChilds_reaction rc children).leads
  | _ => cases h

end Action

theorem LockT.onWatch_leads (folder : Str) (w : WatchReply) :
    (onWatch folder w).countP Call.leads ≤ if w.type = .deleted then 1 else 0 := by
  unfold onWatch
  split
  · exact List.countP_le_length
  · simp [throwWatchEvent, Call.leads]

/-! ## The delete of a lock's node -/

def Call.deletes : Call → Bool
  | .request (.del _ _) _ => true
  | _ => false

theorem LockT.Reaction.deletes (h : Reaction folder created calls) :
    ∀ c ∈ calls, c.deletes = false := by
  cases h <;> simp [ask, Call.deletes]

/-- A lock deletes only its own node, and its scope is closed then. -/
structure Settled (m : Machine) : Prop where
  sent : ∀ p v, .sent (.del p v) ∈ m.log → p = m.act.created ∧ p ≠ [] ∧ m.closed = true
  running : ∀ calls ∈ m.running, ∀ c ∈ calls, c.deletes = false

namespace Settled

variable {m m' : Machine}

theorem note (h : Settled m) {o : Obs} (ho : ∀ p v, o ≠ .sent (.del p v)) : Settled (m.note o) where
  sent p v hs := by
    rcases List.mem_cons.mp hs with hs | hs
    · exact absurd hs.symm (ho p v)
    · exact h.sent p v hs
  running := h.running

theorem exec (h : Settled m) {c : Call} (hc : c.deletes = false) (l : Luck) :
    Settled (m.exec c l).1 := by
  cases c with
  | satisfy r =>
    simp only [Machine.exec, Machine.satisfy]
    split
    · exact h
    · exact h.note (by simp)
  | throw e => exact h
  | reconnect => exact h.note (by simp)
  | request q watch =>
    have hw : Settled (if watch then m.watch q else m) := by
      split
      · exact ⟨h.sent, h.running⟩
      · exact h
    simp only [Machine.exec]
    split
    · exact hw
    · have hn := hw.note (o := .sent q) (by rintro p v ⟨⟩; cases hc)
      exact ⟨hn.sent, hn.running⟩

/-- What `on_abort` sends is the delete of the own node. -/
theorem onAbort (h : Settled m) (l : Luck) :
    (∀ p v, .sent (.del p v) ∈ (m.onAbort l).1.log → p = m.act.created ∧ p ≠ []) ∧
    (m.onAbort l).1.act = m.act ∧ (m.onAbort l).1.running = m.running ∧
    ((m.onAbort l).2 = true → Settled (m.onAbort l).1) := by
  have hold : ∀ p v, .sent (.del p v) ∈ m.log → p = m.act.created ∧ p ≠ [] :=
    fun p v hs => ⟨(h.sent p v hs).1, (h.sent p v hs).2.1⟩
  unfold Machine.onAbort
  split
  · rename_i ha
    split
    · have hn := h.note (o := .reconnect (.refused m.act.created)) nofun
      have hlog : ∀ p v, .sent (.del p v) ∈ Obs.reconnect (.refused m.act.created) :: m.log →
          p = m.act.created ∧ p ≠ [] :=
        fun p v hs => hold p v (by simpa using hs)
      dsimp only
      split
      · exact ⟨hlog, rfl, rfl, fun _ => hn⟩
      · exact ⟨hlog, rfl, rfl, nofun⟩
    · refine ⟨fun p v hs => ?_, rfl, rfl, nofun⟩
      rcases List.mem_cons.mp hs with hs | hs
      · cases hs
        exact ⟨rfl, ha.2⟩
      · exact hold p v hs
  · exact ⟨hold, rfl, rfl, nofun⟩

theorem abort (h : Settled m) (e : Error) (l : Luck) : Settled (m.abort e l) := by
  obtain ⟨hsent, hact, hrun, hthrown⟩ := h.onAbort l
  rw [← hact] at hsent
  have hover : (m.onAbort l).1.closed = true → Settled (m.onAbort l).1 := fun hc =>
    ⟨fun p v hs => ⟨(hsent p v hs).1, (hsent p v hs).2, hc⟩, hrun ▸ h.running⟩
  unfold Machine.abort
  dsimp only
  split
  · rename_i ht
    exact hthrown ht
  · split
    · rename_i hc
      exact hover hc
    · refine ⟨fun p v hs => ?_, hrun ▸ h.running⟩
      obtain ⟨heq, hne⟩ := hsent p v (by simpa using hs)
      exact ⟨heq, hne, rfl⟩

theorem close (h : Settled m) (l : Luck) : Settled (m.close l) := by
  obtain ⟨hsent, hact, hrun, hthrown⟩ := h.onAbort l
  rw [← hact] at hsent
  unfold Machine.close
  split
  · exact h.note nofun
  · dsimp only
    split
    · rename_i ht
      exact hthrown ht
    · refine ⟨fun p v hs => ?_, hrun ▸ h.running⟩
      obtain ⟨heq, hne⟩ := hsent p v (by simpa using hs)
      exact ⟨heq, hne, rfl⟩

theorem handle (h : Settled m) (hc : ∀ c ∈ calls, c.deletes = false) (l : Luck) :
    Settled (m.handle calls l) := by
  unfold Machine.handle
  split
  · exact h
  · rename_i c rest
    rw [List.forall_mem_cons] at hc
    have he := h.exec hc.1 l
    dsimp only
    split
    · exact he.abort _ l
    · split
      · exact he
      · exact ⟨he.sent, List.forall_mem_cons.mpr ⟨hc.2, he.running⟩⟩

/-- The sequence node is created: a scope that is closed already deletes it at once. -/
theorem deliver_arrived (h : Settled m) (hc : m.act.created = []) {folder : Str} {value : Value}
    (hl : m.act.cmd.locks = some (folder, value)) (q : Query) (hd : m.act.depth = 0) {p : Str}
    (hp : p ≠ []) (l : Luck) : Settled (m.deliver q (.create .ok p) l) := by
  have hm : Settled { m with
      act := { m.act with created := p }, log := .replied q (.create .ok p) :: m.log } := by
    refine ⟨fun p' v hs => ?_, h.running⟩
    obtain ⟨heq, hne, -⟩ := h.sent p' v (by simpa using hs)
    exact absurd (heq.trans hc) hne
  simp only [Machine.deliver, Action.onReply_lock hl, Action.onLockCreated_of_arrived _ _ _ _ hd]
  split
  · rename_i hcl
    rcases hluck : l.call with _ | e
    · simp only [Machine.handle, Machine.exec, ask, hluck]
      refine ⟨fun p' v hs => ?_, h.running⟩
      rcases List.mem_cons.mp hs with hs | hs
      · cases hs
        exact ⟨rfl, hp, hcl⟩
      · exact hm.sent p' v hs
    · simpa [Machine.handle, Machine.exec, ask, hluck] using hm.abort e.error l
  · exact hm.handle (by simp [ask, Call.deletes]) l

theorem deliver (h : Settled m) {folder : Str} {value : Value}
    (hl : m.act.cmd.locks = some (folder, value)) {q : Query} {r : Reply}
    (hc : ∀ rc p, r = .create rc p → m.act.created = [] ∧ (rc = .ok → p ≠ [])) (l : Luck) :
    Settled (m.deliver q r l) := by
  have hm : Settled (m.note (.replied q r)) := h.note nofun
  by_cases hr : ∀ rc p, r ≠ .create rc p
  · obtain ⟨hact, hcalls⟩ := Action.onReply_reaction hl m.closed hr
    simp only [Machine.deliver, hact]
    exact hm.handle hcalls.deletes l
  · push Not at hr
    obtain ⟨rc, p, rfl⟩ := hr
    obtain ⟨hnil, hp⟩ := hc rc p rfl
    by_cases hok : rc = .ok ∧ m.act.depth = 0
    · obtain ⟨rfl, hd⟩ := hok
      exact h.deliver_arrived hnil hl q hd (hp rfl) l
    · obtain ⟨d, calls, hstep, hcalls⟩ := Action.onLockCreated_of_ne folder value m.closed p hok
      simp only [Machine.deliver, Action.onReply_lock hl, hstep]
      have hd : Settled { m with
          act := { m.act with depth := d }, log := .replied q (.create rc p) :: m.log } :=
        ⟨hm.sent, hm.running⟩
      refine hd.handle ?_ l
      rcases hcalls with ⟨e, rfl⟩ | ⟨q', rfl, hq', -⟩
      · simp [Call.deletes]
      · cases q' <;> simp [ask, Call.deletes, Query.isCreate] at hq' ⊢

theorem start {cmd : Command} (hl : cmd.locks.isSome = true) (l : Luck) : Settled (.start cmd l) := by
  rcases Machine.start_lock hl l with ⟨q, hq, heq⟩ | ⟨e, heq⟩
  · rw [heq]
    refine ⟨fun p v hs => ?_, by simp⟩
    cases List.mem_singleton.mp hs
    cases hq
  · rw [heq]
    exact ⟨by simp, by simp⟩

end Settled

/-! ## Along a step -/

/-- What the label brings that may lead to a grant. -/
def Label.gain : Label → Nat
  | .reply _ r _ => if r.leads then 1 else 0
  | .event _ w _ => if w.type = .deleted then 1 else 0
  | _ => 0

/-- What it takes. -/
def Label.cost (m : Machine) : Label → Nat
  | .reply k _ _ => if m.outbox[k]?.any (·.query.leads) then 1 else 0
  | _ => 0

namespace Machine

variable {m m' : Machine} {a : Label}

theorem cmd_step (hs : m.step a = some m') : m'.act.cmd = m.act.cmd := by
  cases stepped hs with
  | reply =>
    rw [deliver, act_handle]
    exact Action.cmd_onReply _ _ _
  | event => rw [notify, act_handle]
  | resume => rw [act_handle]
  | abort => rw [act_abort]
  | close => rw [act_close]

/-- A closed scope stays closed, and nothing is granted to it. -/
theorem closed_step (hc : m.closed = true) (hs : m.step a = some m') :
    m'.closed = true ∧ m'.grants = m.grants := by
  have hk := kept_grants m.grants
  cases stepped hs with
  | reply =>
    refine hk.handle ?_ (fun _ _ => trivial) _
    exact ⟨hc, by simp [grants, granted]⟩
  | event | resume =>
    refine hk.handle ?_ (fun _ _ => trivial) _
    exact ⟨hc, rfl⟩
  | abort =>
    refine hk.abort ?_ (.inl trivial) _
    exact ⟨hc, rfl⟩
  | close =>
    rw [close, if_pos hc]
    exact ⟨hc, by simp [grants, granted]⟩

theorem weight_reply {k : Nat} {s : Sent} (hk : m.outbox[k]? = some s) (act : Action) (r : Reply) :
    weight { m with
      act := act, outbox := m.outbox.eraseIdx k, log := .replied s.query r :: m.log } +
      (if s.query.leads then 1 else 0) = m.weight := by
  obtain ⟨hlt, hget⟩ := List.getElem?_eq_some_iff.mp hk
  have hperm : (s :: m.outbox.eraseIdx k).Perm m.outbox := hget ▸ List.getElem_cons_eraseIdx_perm hlt
  have hcount := hperm.countP_eq (·.query.leads)
  rw [List.countP_cons] at hcount
  simp only [weight, grants, List.count_cons, granted, ← hcount]
  simp
  omega

theorem weight_resume {k : Nat} (hk : m.running[k]? = some calls) :
    weight { m with running := m.running.eraseIdx k } + calls.countP Call.leads = m.weight := by
  obtain ⟨hlt, hget⟩ := List.getElem?_eq_some_iff.mp hk
  have hperm : (calls :: m.running.eraseIdx k).Perm m.running :=
    hget ▸ List.getElem_cons_eraseIdx_perm hlt
  have hcount := hperm.flatten.countP_eq Call.leads
  rw [List.flatten_cons, List.countP_append] at hcount
  simp only [weight, grants, ← hcount]
  omega

/-- What may lead to a grant takes the place of what did. -/
theorem weight_step {folder : Str} {value : Value} (hl : m.act.cmd.locks = some (folder, value))
    (hs : m.step a = some m') : m'.weight + a.cost m ≤ m.weight + a.gain := by
  cases stepped hs with
  | @reply k s r l hk ha =>
    have hc := Action.onReply_leads (a := m.act) (by rw [hl]; rfl) m.closed r
    have hw := weight_reply hk (m.act.onReply m.closed r).1 r
    have hh := weight_handle { m with
      act := (m.act.onReply m.closed r).1
      outbox := m.outbox.eraseIdx k
      log := .replied s.query r :: m.log } (m.act.onReply m.closed r).2 l
    simp only [Label.cost, Label.gain, hk, Option.any_some, deliver]
    omega
  | @event id w l hw =>
    have hc := LockT.onWatch_leads folder w
    rw [← Action.onWatch_lock hl m.closed] at hc
    exact (weight_handle _ _ l).trans (Nat.add_le_add_left hc _)
  | @resume k calls l hk =>
    have hh := weight_handle { m with running := m.running.eraseIdx k } calls l
    rw [weight_resume hk] at hh
    exact hh
  | abort => exact (weight_abort _ _ _).le
  | @close l =>
    have h := m.weight_onAbort l
    simp only [Label.cost, Label.gain, close]
    split
    · simp [weight, grants, granted]
    · split
      · exact h.le
      · refine le_trans (le_of_eq ?_) h.le
        simp [weight, grants, granted]

/-- The path of the node is recorded from the reply about the sequence node. -/
theorem created_step (hh : Held m) (hs : m.step a = some m') :
    m'.act.created = m.act.created ∨ ∃ k s l, m.outbox[k]? = some s ∧ s.query.isSequence = true ∧
      a = .reply k (.create .ok m'.act.created) l := by
  cases stepped hs with
  | @reply k s r l hk ha =>
    obtain ⟨⟨folder, value⟩, hl⟩ := Option.isSome_iff_exists.mp hh.locks
    rw [deliver, act_handle]
    by_cases hr : ∀ rc p, r ≠ .create rc p
    · exact .inl (congrArg Action.created (Action.onReply_reaction hl m.closed hr).1)
    · push Not at hr
      obtain ⟨rc, p, rfl⟩ := hr
      simp only [Action.onReply_lock hl]
      by_cases hok : rc = .ok ∧ m.act.depth = 0
      · obtain ⟨rfl, hd⟩ := hok
        have hseq := hh.depth s (List.mem_of_getElem? hk) (Query.isCreate_of_answers ha)
        rw [Action.onLockCreated_of_arrived _ _ _ _ hd]
        exact .inr ⟨k, s, l, hk, hseq.trans (decide_eq_true hd), rfl⟩
      · obtain ⟨d, calls, heq, -⟩ := Action.onLockCreated_of_ne folder value m.closed p hok
        rw [heq]
        exact .inl rfl
  | event => exact .inl (by rw [notify, act_handle])
  | resume => exact .inl (by rw [act_handle])
  | abort => exact .inl (by rw [act_abort])
  | close => exact .inl (by rw [act_close])

end Machine

/-- A step is grounded if the list of children is, in which the node came first. -/
theorem Grounded.step {G : Prop} {m m' : Machine} {a : Label} (h : Grounded G m)
    {folder : Str} {value : Value} (hl : m.act.cmd.locks = some (folder, value))
    (hs : m.step a = some m') (hG : ∀ k children stat l node,
      a = .reply k (.childs .ok children stat) l → getNodeName m.act.created = .ok node →
      (∀ x ∈ children, ¬ x < node) → G) : Grounded G m' := by
  cases Machine.stepped hs with
  | @reply k s r l hk ha =>
    refine (Grounded.kept G).handle ?_ ?_ l
    · exact ⟨fun hg => h.log (by simpa [granted] using hg), h.running⟩
    · intro c hc hsat
      cases c with
      | satisfy v =>
        obtain ⟨children, stat, node, rfl, hn, hfirst⟩ :=
          Action.onReply_satisfy (by exact (by rw [hl]; rfl)) hc
        exact hG k children stat l node rfl hn hfirst
      | _ => cases hsat
  | @event id w l hw =>
    refine (Grounded.kept G).handle ?_ ?_ l
    · exact ⟨h.log, h.running⟩
    · intro c hc hsat
      rw [Action.onWatch_lock hl, LockT.onWatch] at hc
      split at hc <;> cases List.mem_singleton.mp hc <;> cases hsat
  | @resume k calls l hk =>
    refine (Grounded.kept G).handle ?_ (h.running calls (List.mem_of_getElem? hk)) l
    exact ⟨h.log, fun calls' hc => h.running calls' (List.mem_of_mem_eraseIdx hc)⟩
  | abort =>
    refine (Grounded.kept G).abort ?_ (.inl nofun) _
    exact ⟨h.log, h.running⟩
  | @close l =>
    have ha := (Grounded.kept G).onAbort h l
    unfold Machine.close
    split
    · exact ⟨fun hg => h.log (by simpa [granted] using hg), h.running⟩
    · dsimp only
      split
      · exact ha
      · exact ⟨fun hg => ha.log (by simpa [granted] using hg), ha.running⟩

theorem Settled.step {m m' : Machine} {a : Label} (h : Settled m) (hh : Held m)
    (hs : m.step a = some m') : Settled m' := by
  obtain ⟨⟨folder, value⟩, hl⟩ := Option.isSome_iff_exists.mp hh.locks
  cases Machine.stepped hs with
  | @reply k s r l hk ha =>
    refine Settled.deliver ?_ (by exact hl) ?_ l
    · exact ⟨h.sent, h.running⟩
    · rintro rc p rfl
      refine ⟨?_, fun hok => ?_⟩
      · by_contra hc
        have hcr := List.countP_eq_zero.mp (hh.last hc) s (List.mem_of_getElem? hk)
        exact hcr (Query.isCreate_of_answers ha)
      · subst hok
        exact Query.path_of_answers ha
  | @event id w l hw =>
    refine Settled.handle ?_ (Action.onWatch_reaction hl _ _).deletes _
    exact ⟨h.sent, h.running⟩
  | @resume k calls l hk =>
    refine Settled.handle ?_ (h.running calls (List.mem_of_getElem? hk)) l
    exact ⟨h.sent, fun calls' hc => h.running calls' (List.mem_of_mem_eraseIdx hc)⟩
  | abort =>
    refine Settled.abort ?_ _ _
    exact ⟨h.sent, h.running⟩
  | close => exact h.close _

end Cocaine.Unicorn
