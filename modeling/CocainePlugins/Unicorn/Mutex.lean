import CocainePlugins.Unicorn.Grant
import CocainePlugins.Unicorn.World
import Mathlib.Data.List.Pairwise

/-!
# Mutual exclusion

Any number of locks in one folder, and as much of the ensemble as they rely on. The
numbers of the sequence nodes increase. A list of children may be an old one, but not
older than the node of the lock that asked for it, and may have other names in it as
well. A watch fires once, after the reply that armed it, and tells of a deletion only if
there was a node; of the lock's own node only if that was deleted while the session
lasted. Other than that, replies and events are arbitrary.

A lock that is granted has the smallest number of all nodes that are left
(`Contest.Sane.grounded`), so two of them cannot have their nodes at once. At most one
grant may come of a lock because at any time at most one thing may lead to it
(`Contest.Sane.single`).
-/

namespace Cocaine.Unicorn

open Framework

/-! ## The folder -/

/-- A sequence node in the folder. -/
structure SeqNode where
  /-- The call that it was created for. -/
  owner : Nat
  seq : Nat
  born : Nat
  died : Option Nat := none
  /-- It went with the session. -/
  lost : Bool := false
deriving DecidableEq

namespace SeqNode

variable (n : SeqNode)

def name : Str := "lock".toList ++ padded zooSequenceLength n.seq

def path (folder : Str) : Str := LockT.path folder ++ padded zooSequenceLength n.seq

/-- It was there at the moment `t`. -/
def there (t : Nat) : Bool := n.born ≤ t && n.died.all (t < ·)

/-- The node of the call `i` goes. -/
def die (i t : Nat) (lost : Bool) : SeqNode :=
  if n.owner = i ∧ n.died = none then { n with died := some t, lost } else n

end SeqNode

/-- A lock, and its watches that are armed, with the requests that armed them. -/
structure Contender where
  op : Machine
  armed : List (Nat × Query) := []
deriving DecidableEq

structure Contest where
  contenders : List Contender := []
  /-- Every node there ever was, newest first. -/
  nodes : List SeqNode := []
  now : Nat := 0
deriving DecidableEq

inductive Contender.Label where
  /-- A reply; a list of children is as of the moment. -/
  | reply (k : Nat) (r : Reply) (moment : Nat) (l : Luck)
  /-- The `k`-th of the armed watches fires. -/
  | fire (k : Nat) (w : WatchReply) (l : Luck)
  /-- Any other event. -/
  | upset (id : Nat) (w : WatchReply) (l : Luck)
  | resume (k : Nat) (l : Luck)
  | abort (l : Luck)
  | close (l : Luck)
deriving DecidableEq

inductive Contest.Label where
  | call (cmd : Command) (l : Luck)
  /-- The sequence node of a call is created. -/
  | create (i seq : Nat)
  /-- It is deleted, as one of the locks asked for. -/
  | remove (i : Nat)
  /-- It goes since the session is lost. -/
  | lose (i : Nat)
  | move (i : Nat) (a : Contender.Label)
deriving DecidableEq

/-- The watch that the reply armed. A lock asks for no watch of children. -/
def Sent.arms (s : Sent) (r : Reply) : List (Nat × Query) :=
  match s.watcher, s.query, r with
  | some id, .exists' p, .exists' .ok _ => [(id, .exists' p)]
  | some id, .get p, .get .ok _ _ => [(id, .get p)]
  | _, _, _ => []

namespace Contest

variable (folder : Str) (s : Contest)

/-- The reply is one that the ensemble may give to the call `i`. -/
def honest (i : Nat) (q : Query) (moment : Nat) : Reply → Bool
  | .create .ok path => !q.isSequence || s.nodes.any fun n => n.owner = i && n.path folder = path
  | .create rc _ => !q.isSequence || rc.isFault || s.nodes.all fun n => n.owner ≠ i
  | .childs .ok children _ =>
    moment ≤ s.now && (s.nodes.any fun n => n.owner = i && n.born ≤ moment) &&
      s.nodes.all fun n => !n.there moment || n.name ∈ children
  | _ => true

/-- A watch on the own node tells that it was deleted. -/
def removed (i : Nat) : Bool := s.nodes.any fun n => n.owner = i && n.died.isSome && !n.lost

def moveOf (i : Nat) (c : Contender) : Contender.Label → Option Contender
  | .reply k r moment l =>
    match c.op.outbox[k]? with
    | none => none
    | some q =>
      if s.honest folder i q.query moment r then
        (c.op.step (.reply k r l)).map fun op => { op, armed := q.arms r ++ c.armed }
      else none
  | .fire k w l =>
    match c.armed[k]? with
    | none => none
    | some (id, q) =>
      -- The event of a watcher that is not registered any more is dropped.
      if w.type ≠ .deleted || q.leads || s.removed i then
        some { op := (c.op.step (.event id w l)).getD c.op, armed := c.armed.eraseIdx k }
      else none
  | .upset id w l =>
    if w.type = .deleted then none else (c.op.step (.event id w l)).map fun op => { c with op }
  | .resume k l => (c.op.step (.resume k l)).map fun op => { c with op }
  | .abort l => (c.op.step (.abort l)).map fun op => { c with op }
  | .close l => (c.op.step (.close l)).map fun op => { c with op }

def kill (i : Nat) (lost : Bool) : Contest :=
  { s with nodes := s.nodes.map (·.die i (s.now + 1) lost), now := s.now + 1 }

/-- The lock has asked for its node. -/
def asked (c : Contender) : Bool :=
  c.op.log.any fun
    | .sent q => q.isSequence
    | _ => false

/-- One of the locks has asked for the delete of the node. -/
def deleted (n : SeqNode) : Bool :=
  s.contenders.any fun c => .sent (.del (n.path folder) (-1)) ∈ c.op.log

def step : Label → Option Contest
  | .call cmd l =>
    if cmd.locks.map Prod.fst = some folder then
      some { s with contenders := s.contenders ++ [{ op := .start cmd l }] }
    else none
  | .create i seq =>
    if s.contenders[i]?.any asked && (s.nodes.all fun n => n.owner ≠ i && n.seq < seq) &&
        seq < 10 ^ zooSequenceLength then
      some { s with
        nodes := { owner := i, seq, born := s.now + 1 } :: s.nodes
        now := s.now + 1 }
    else none
  | .remove i =>
    if s.nodes.any fun n => n.owner = i && s.deleted folder n then some (s.kill i false) else none
  | .lose i => some (s.kill i true)
  | .move i a =>
    match s.contenders[i]? with
    | none => none
    | some c => (s.moveOf folder i c a).map fun c' => { s with contenders := s.contenders.set i c' }

end Contest

/-- No calls, and no nodes of theirs. -/
def contestSystem (folder : Str) : System Contest Contest.Label where
  init s := s = {}
  step := Contest.step folder

/-! ## Numbers and names -/

namespace SeqNode

theorem name_lt {n n' : SeqNode} (h : n.seq < n'.seq) (hb : n'.seq < 10 ^ zooSequenceLength) :
    n.name < n'.name :=
  List.append_left_lt (padded_lt h hb)

theorem seq_of_path {folder : Str} {n n' : SeqNode} (hb : n.seq < 10 ^ zooSequenceLength)
    (hb' : n'.seq < 10 ^ zooSequenceLength) (h : n.path folder = n'.path folder) :
    n.seq = n'.seq := by
  have hp : padded zooSequenceLength n.seq = padded zooSequenceLength n'.seq :=
    List.append_cancel_left h
  rcases Nat.lt_trichotomy n.seq n'.seq with hlt | heq | hlt
  · exact absurd (padded_lt hlt hb') (by rw [hp]; exact List.lt_irrefl _)
  · exact heq
  · exact absurd (padded_lt hlt hb) (by rw [hp]; exact List.lt_irrefl _)

theorem getNodeName_path (n : SeqNode) (folder : Str) : getNodeName (n.path folder) = .ok n.name := by
  have hslash : '/' ∉ n.name := by
    intro hmem
    rcases List.mem_append.mp hmem with hlock | hnumber
    · revert hlock
      decide
    · exact slash_notMem_padded _ _ hnumber
  have hafter : afterLast '/' (n.path folder) = some n.name := by
    have hpath : n.path folder = folder ++ '/' :: n.name := List.append_assoc folder _ _
    rw [hpath, afterLast_append hslash]
  rw [getNodeName, hafter]
  rfl

variable (n : SeqNode) (i t : Nat) (lost : Bool)

@[simp] theorem owner_die : (n.die i t lost).owner = n.owner := by unfold die; split <;> rfl

@[simp] theorem seq_die : (n.die i t lost).seq = n.seq := by unfold die; split <;> rfl

@[simp] theorem born_die : (n.die i t lost).born = n.born := by unfold die; split <;> rfl

@[simp] theorem path_die (folder : Str) : (n.die i t lost).path folder = n.path folder := by
  simp [path]

/-- What is dead stays as it is. -/
theorem die_of_died {n : SeqNode} (h : n.died.isSome = true) : n.die i t lost = n := by
  unfold die
  rw [if_neg]
  rintro ⟨-, hn⟩
  simp [hn] at h

end SeqNode

namespace Contest

/-- Later nodes have higher numbers, and no call has two. -/
structure Ordered (s : Contest) : Prop where
  order : s.nodes.Pairwise fun later earlier =>
    earlier.seq < later.seq ∧ earlier.born < later.born ∧ earlier.owner ≠ later.owner
  bound : ∀ n ∈ s.nodes, n.seq < 10 ^ zooSequenceLength ∧ n.born ≤ s.now

namespace Ordered

variable {s : Contest} {n n' : SeqNode}

theorem trichotomy (h : s.Ordered) (hn : n ∈ s.nodes) (hn' : n' ∈ s.nodes) : n = n' ∨
    (n.seq < n'.seq ∧ n.born < n'.born ∧ n.owner ≠ n'.owner) ∨
    (n'.seq < n.seq ∧ n'.born < n.born ∧ n'.owner ≠ n.owner) := by
  refine List.Pairwise.forall_of_forall_of_flip (R := fun a b : SeqNode => a = b ∨
    (a.seq < b.seq ∧ a.born < b.born ∧ a.owner ≠ b.owner) ∨
    (b.seq < a.seq ∧ b.born < a.born ∧ b.owner ≠ a.owner)) ?_ ?_ ?_ hn hn'
  · exact fun a _ => .inl rfl
  · exact h.order.imp fun hab => .inr (.inr hab)
  · exact h.order.imp fun hab => .inr (.inl hab)

theorem born_lt (h : s.Ordered) (hn : n ∈ s.nodes) (hn' : n' ∈ s.nodes) (hlt : n.seq < n'.seq) :
    n.born < n'.born := by
  rcases h.trichotomy hn hn' with rfl | ⟨-, hb, -⟩ | ⟨hgt, -, -⟩
  · exact absurd hlt (Nat.lt_irrefl _)
  · exact hb
  · omega

theorem eq_of_seq (h : s.Ordered) (hn : n ∈ s.nodes) (hn' : n' ∈ s.nodes) (heq : n.seq = n'.seq) :
    n = n' := by
  rcases h.trichotomy hn hn' with h | ⟨hlt, -, -⟩ | ⟨hlt, -, -⟩
  · exact h
  · omega
  · omega

theorem eq_of_owner (h : s.Ordered) (hn : n ∈ s.nodes) (hn' : n' ∈ s.nodes)
    (heq : n.owner = n'.owner) : n = n' := by
  rcases h.trichotomy hn hn' with h | ⟨-, -, hne⟩ | ⟨-, -, hne⟩
  · exact h
  · exact absurd heq hne
  · exact absurd heq.symm hne

theorem kill (h : s.Ordered) (i : Nat) (lost : Bool) : (s.kill i lost).Ordered where
  order := by
    refine List.pairwise_map.mpr (h.order.imp ?_)
    intro later earlier hle
    simpa using hle
  bound := by
    intro n hn
    obtain ⟨n₀, hn₀, rfl⟩ := List.mem_map.mp hn
    have hb := (h.bound n₀ hn₀).2
    refine ⟨by simpa using (h.bound n₀ hn₀).1, ?_⟩
    rw [SeqNode.born_die]
    exact Nat.le_succ_of_le hb

end Ordered

/-- The call has a node, and every one with a smaller number is gone. -/
def First (nodes : List SeqNode) (i : Nat) : Prop :=
  ∃ n ∈ nodes, n.owner = i ∧ ∀ n' ∈ nodes, n'.seq < n.seq → n'.died.isSome = true

/-- The node comes first in a list of children that is not older than itself. -/
theorem first_of_snapshot {folder : Str} {s : Contest} (ho : s.Ordered) {n : SeqNode}
    (hn : n ∈ s.nodes) {q : Query} {moment : Nat} {children : List Str} {stat : Stat}
    (hh : s.honest folder n.owner q moment (.childs .ok children stat) = true)
    (hfirst : ∀ x ∈ children, ¬ x < n.name) : First s.nodes n.owner := by
  simp only [honest, Bool.and_eq_true, decide_eq_true_eq, List.any_eq_true, List.all_eq_true,
    Bool.or_eq_true, Bool.not_eq_true'] at hh
  obtain ⟨⟨-, n₁, hn₁, hown, hborn⟩, hlist⟩ := hh
  obtain rfl := ho.eq_of_owner hn₁ hn hown
  refine ⟨n₁, hn₁, rfl, fun n' hn' hlt => ?_⟩
  rcases hd : n'.died with _ | d
  · -- Older than the list and not gone, it would stand in the list, before the node.
    have hthere : n'.there moment = true := by
      have := ho.born_lt hn' hn₁ hlt
      simp only [SeqNode.there, hd, Option.all_none, Bool.and_true, decide_eq_true_eq]
      omega
    rcases hlist n' hn' with hnot | hmem
    · rw [hthere] at hnot
      cases hnot
    · exact absurd (SeqNode.name_lt hlt (ho.bound n₁ hn₁).1) (hfirst _ hmem)
  · rfl

/-! ## The moves of a lock -/

/-- How many of the watches may lead to a grant. -/
def watching (armed : List (Nat × Query)) : Nat := armed.countP (·.2.leads)

/-- What a move can be: a step of the operation, with an honest reply if it is one, or an
event that is dropped. -/
inductive Moved (folder : Str) (s : Contest) (i : Nat) (c : Contender) : Contender → Prop where
  | dropped {armed : List (Nat × Query)} (ha : watching armed ≤ watching c.armed) :
    Moved folder s i c { c with armed }
  | step {a : Unicorn.Label} {op : Machine} {armed : List (Nat × Query)}
    (hs : c.op.step a = some op)
    (hh : ∀ k r l, a = .reply k r l → ∃ q moment, c.op.outbox[k]? = some q ∧
      s.honest folder i q.query moment r = true)
    (hw : s.removed i = true ∨ a.gain + watching armed ≤ a.cost c.op + watching c.armed) :
    Moved folder s i c { op, armed }

/-- A watch takes the place of the request that armed it. -/
theorem watching_arms {q : Sent} {r : Reply} (ha : q.query.answers r = true) :
    (if r.leads then 1 else 0) + watching (q.arms r) ≤ if q.query.leads then 1 else 0 := by
  generalize harms : q.arms r = armed
  unfold Sent.arms at harms
  split at harms
  · rename_i hq
    rw [hq, ← harms]
    exact Nat.le_refl 1
  · rename_i hq
    rw [hq, ← harms]
    exact Nat.le_refl 0
  · rw [← harms, watching, List.countP_nil, Nat.add_zero]
    split
    · rename_i hr
      rw [if_pos (Query.leads_of_answers ha hr)]
    · exact Nat.zero_le _

theorem moved {folder : Str} {s : Contest} {i : Nat} {c c' : Contender} {a : Contender.Label}
    (h : s.moveOf folder i c a = some c') : Moved folder s i c c' := by
  cases a with
  | reply k r moment l =>
    simp only [moveOf] at h
    split at h
    · cases h
    · rename_i q hq
      split at h
      · rename_i hh
        obtain ⟨op, hs, rfl⟩ := Option.map_eq_some_iff.mp h
        refine .step hs ?_ (.inr ?_)
        · rintro _ _ _ ⟨⟩
          exact ⟨q, moment, hq, hh⟩
        · have ha : q.query.answers r = true := by
            cases Machine.stepped hs with
            | reply hk ha =>
              rw [hq] at hk
              cases hk
              exact ha
          have := watching_arms ha
          simp only [Label.gain, Label.cost, hq, Option.any_some, watching, List.countP_append] at this ⊢
          omega
      · cases h
  | fire k w l =>
    simp only [moveOf] at h
    split at h
    · cases h
    · rename_i id q hq
      obtain ⟨hg, rfl⟩ := of_guard h
      obtain ⟨hlt, hget⟩ := List.getElem?_eq_some_iff.mp hq
      have hperm : ((id, q) :: c.armed.eraseIdx k).Perm c.armed :=
        hget ▸ List.getElem_cons_eraseIdx_perm hlt
      have hcount := hperm.countP_eq (·.2.leads)
      rw [List.countP_cons] at hcount
      rcases hs : c.op.step (.event id w l) with _ | op
      · refine .dropped ?_
        simp only [watching]
        omega
      · refine .step hs (fun _ _ _ ha => by cases ha) ?_
        simp only [Bool.or_eq_true, decide_eq_true_eq] at hg
        rcases hg with (hg | hg) | hg
        · right
          simp only [Label.gain, Label.cost, if_neg hg, watching]
          omega
        · right
          simp only [Label.gain, Label.cost, watching]
          rw [if_pos hg] at hcount
          split <;> omega
        · exact .inl hg
  | upset id w l =>
    simp only [moveOf] at h
    split at h
    · cases h
    · rename_i hw
      obtain ⟨op, hs, rfl⟩ := Option.map_eq_some_iff.mp h
      refine .step hs (fun _ _ _ ha => by cases ha) (.inr ?_)
      simp only [Label.gain, Label.cost, if_neg hw]
      omega
  | resume k l | abort l | close l =>
    simp only [moveOf] at h
    obtain ⟨op, hs, rfl⟩ := Option.map_eq_some_iff.mp h
    refine .step hs (fun _ _ _ ha => by cases ha) (.inr ?_)
    simp only [Label.gain, Label.cost]
    exact Nat.le_refl _

/-! ## The invariant -/

/-- What holds of the lock of the call `i`. -/
structure Sane (folder : Str) (nodes : List SeqNode) (i : Nat) (c : Contender) : Prop where
  locks : ∃ value, c.op.act.cmd.locks = some (folder, value)
  held : Held c.op
  settled : Settled c.op
  created : c.op.act.created ≠ [] → ∃ n ∈ nodes, n.owner = i ∧ c.op.act.created = n.path folder
  removed : ∀ n ∈ nodes, n.owner = i → n.died.isSome = true → n.lost = false → c.op.closed = true
  grounded : Grounded (First nodes i) c.op
  once : c.op.grants ≤ 1
  single : c.op.closed = false → c.op.weight + watching c.armed ≤ 1

namespace Sane

variable {folder : Str} {s : Contest} {i : Nat} {c c' : Contender}

theorem start {cmd : Command} {value : Value} (hl : cmd.locks = some (folder, value)) (l : Luck)
    {nodes : List SeqNode} (hn : ∀ n ∈ nodes, n.owner ≠ i) :
    Sane folder nodes i { op := .start cmd l } := by
  have hsome : cmd.locks.isSome = true := by simp [hl]
  have hnew : (Machine.start cmd l).running = [] ∧ granted ∉ (Machine.start cmd l).log ∧
      (Machine.start cmd l).outbox.length ≤ 1 := by
    rcases Machine.start_lock hsome l with ⟨q, -, heq⟩ | ⟨e, heq⟩ <;> rw [heq] <;> simp [granted]
  obtain ⟨hrun, hlog, hout⟩ := hnew
  have hgrants : (Machine.start cmd l).grants = 0 := List.count_eq_zero.mpr hlog
  refine ⟨⟨value, by rw [Machine.act_start, Action.cmd_init, hl]⟩, .start hsome l, .start hsome l,
    ?_, fun n hm hown => absurd hown (hn n hm), ⟨fun hg => absurd hg hlog, by simp [hrun]⟩,
    by simp [hgrants], fun _ => ?_⟩
  · intro hne
    rw [Machine.act_start] at hne
    exact absurd (Action.created_init cmd) hne
  · have hle := (Machine.start cmd l).outbox.countP_le_length (p := (·.query.leads))
    simp only [Machine.weight, hrun, hgrants, watching, List.flatten_nil, List.countP_nil]
    omega

theorem step {a : Unicorn.Label} {op : Machine} {armed : List (Nat × Query)}
    (h : Sane folder s.nodes i c) (ho : s.Ordered) (hs : c.op.step a = some op)
    (hh : ∀ k r l, a = .reply k r l → ∃ q moment, c.op.outbox[k]? = some q ∧
      s.honest folder i q.query moment r = true)
    (hw : s.removed i = true ∨ a.gain + watching armed ≤ a.cost c.op + watching c.armed) :
    Sane folder s.nodes i { op, armed } := by
  obtain ⟨value, hl⟩ := h.locks
  have hcl : c.op.closed = true → op.closed = true := fun hc => (Machine.closed_step hc hs).1
  have hweight := Machine.weight_step hl hs
  have hopen : c.op.closed = false → op.weight + watching armed ≤ 1 := by
    intro hc
    have hle := h.single hc
    rcases hw with hw | hw
    · -- The own node was deleted, but then the scope is closed.
      simp only [Contest.removed, List.any_eq_true, Bool.and_eq_true, decide_eq_true_eq,
        Bool.not_eq_true'] at hw
      obtain ⟨n, hn, ⟨hown, hd⟩, hlost⟩ := hw
      rw [h.removed n hn hown hd hlost] at hc
      cases hc
    · omega
  refine ⟨⟨value, by rw [Machine.cmd_step hs, hl]⟩, h.held.step hs, h.settled.step h.held hs, ?_, ?_,
    ?_, ?_, ?_⟩
  · intro hne
    rcases Machine.created_step h.held hs with heq | ⟨k, q, l, hq, hseq, rfl⟩
    · rw [heq] at hne ⊢
      exact h.created hne
    · obtain ⟨q', moment, hq', hhon⟩ := hh k _ l rfl
      rw [hq] at hq'
      cases hq'
      simp only [honest, hseq, Bool.not_true, Bool.false_or, List.any_eq_true, Bool.and_eq_true,
        decide_eq_true_eq] at hhon
      obtain ⟨n, hn, hown, hpath⟩ := hhon
      exact ⟨n, hn, hown, hpath.symm⟩
  · exact fun n hn hown hd hlost => hcl (h.removed n hn hown hd hlost)
  · refine h.grounded.step hl hs ?_
    rintro k children stat l node rfl hnode hfirst
    obtain ⟨q, moment, -, hhon⟩ := hh k _ l rfl
    have hne : c.op.act.created ≠ [] := by
      intro hc
      rw [hc] at hnode
      cases hnode
    obtain ⟨n, hn, rfl, hcreated⟩ := h.created hne
    rw [hcreated, SeqNode.getNodeName_path] at hnode
    cases hnode
    exact first_of_snapshot ho hn hhon hfirst
  · rcases hc : c.op.closed with _ | _
    · have := hopen hc
      exact op.grants_le_weight.trans (by omega)
    · rw [(Machine.closed_step hc hs).2]
      exact h.once
  · intro hop
    refine hopen ?_
    by_contra hc
    rw [hcl (Bool.of_not_eq_false hc)] at hop
    cases hop

theorem moved (h : Sane folder s.nodes i c) (ho : s.Ordered) (hm : Moved folder s i c c') :
    Sane folder s.nodes i c' := by
  cases hm with
  | dropped ha =>
    refine ⟨h.locks, h.held, h.settled, h.created, h.removed, h.grounded, h.once, fun hc => ?_⟩
    exact (Nat.add_le_add_left ha _).trans (h.single hc)
  | step hs hh hw => exact h.step ho hs hh hw

theorem create (h : Sane folder s.nodes i c) {n : SeqNode} (hd : n.died = none)
    (hseq : ∀ n' ∈ s.nodes, n'.seq < n.seq) : Sane folder (n :: s.nodes) i c := by
  refine ⟨h.locks, h.held, h.settled, fun hne => ?_, ?_, h.grounded.mono ?_, h.once, h.single⟩
  · obtain ⟨n', hn', hn⟩ := h.created hne
    exact ⟨n', List.mem_cons_of_mem _ hn', hn⟩
  · refine List.forall_mem_cons.mpr ⟨fun _ hdead => ?_, h.removed⟩
    simp [hd] at hdead
  · rintro ⟨n', hn', hown, hfirst⟩
    refine ⟨n', List.mem_cons_of_mem _ hn', hown, List.forall_mem_cons.mpr ⟨fun hlt => ?_, hfirst⟩⟩
    have := hseq n' hn'
    omega

theorem kill (h : Sane folder s.nodes i c) {j : Nat} {lost : Bool}
    (hk : lost = false → i = j → c.op.closed = true) :
    Sane folder (s.kill j lost).nodes i c := by
  refine ⟨h.locks, h.held, h.settled, fun hne => ?_, ?_, h.grounded.mono ?_, h.once, h.single⟩
  · obtain ⟨n, hn, hown, hpath⟩ := h.created hne
    exact ⟨_, List.mem_map_of_mem hn, by simpa using hown, by simpa using hpath⟩
  · intro n hn hown hd hlost
    obtain ⟨n₀, hn₀, rfl⟩ := List.mem_map.mp hn
    rcases hd₀ : n₀.died with _ | d
    · by_cases hj : n₀.owner = j
      · rw [SeqNode.owner_die] at hown
        refine hk ?_ (hown.symm.trans hj)
        simpa [SeqNode.die, hj, hd₀] using hlost
      · simp [SeqNode.die, hj, hd₀] at hd
    · rw [SeqNode.die_of_died _ _ _ (by simp [hd₀])] at hown hlost
      exact h.removed n₀ hn₀ hown (by simp [hd₀]) hlost
  · rintro ⟨n, hn, hown, hfirst⟩
    refine ⟨_, List.mem_map_of_mem hn, by simpa using hown, fun n' hn' hlt => ?_⟩
    obtain ⟨n₀, hn₀, rfl⟩ := List.mem_map.mp hn'
    have hdead := hfirst n₀ hn₀ (by simpa using hlt)
    rwa [SeqNode.die_of_died _ _ _ hdead]

end Sane

structure Safe (folder : Str) (s : Contest) : Prop where
  ordered : s.Ordered
  owners : ∀ n ∈ s.nodes, n.owner < s.contenders.length
  sane : ∀ i c, s.contenders[i]? = some c → Sane folder s.nodes i c

namespace Safe

variable {folder : Str} {s s' : Contest}

/-- A node is deleted only by its own lock, whose scope is closed then. -/
theorem closed_of_deleted (h : Safe folder s) {n : SeqNode} (hn : n ∈ s.nodes)
    (hd : s.deleted folder n = true) {c : Contender} (hc : s.contenders[n.owner]? = some c) :
    c.op.closed = true := by
  simp only [deleted, List.any_eq_true, decide_eq_true_eq] at hd
  obtain ⟨c', hmem, hsent⟩ := hd
  obtain ⟨j, hj⟩ := List.mem_iff_getElem?.mp hmem
  have hs := h.sane j c' hj
  obtain ⟨hpath, hne, hcl⟩ := hs.settled.sent _ _ hsent
  obtain ⟨n', hn', rfl, hcreated⟩ := hs.created (hpath ▸ hne)
  have hseq := SeqNode.seq_of_path (h.ordered.bound n hn).1 (h.ordered.bound n' hn').1
    (hpath.trans hcreated)
  obtain rfl := h.ordered.eq_of_seq hn hn' hseq
  rw [hc] at hj
  cases hj
  exact hcl

theorem kill (h : Safe folder s) {i : Nat} {lost : Bool}
    (hk : lost = false → ∀ c, s.contenders[i]? = some c → c.op.closed = true) :
    Safe folder (s.kill i lost) := by
  refine ⟨h.ordered.kill i lost, fun n hn => ?_, fun j c hc => ?_⟩
  · obtain ⟨n₀, hn₀, rfl⟩ := List.mem_map.mp hn
    rw [SeqNode.owner_die]
    exact h.owners n₀ hn₀
  · refine (h.sane j c hc).kill ?_
    rintro hlost rfl
    exact hk hlost c hc

theorem step {a : Label} (h : Safe folder s) (hs : s.step folder a = some s') : Safe folder s' := by
  cases a with
  | call cmd l =>
    obtain ⟨hfolder, rfl⟩ := of_guard hs
    obtain ⟨⟨_, value⟩, hl, rfl⟩ := Option.map_eq_some_iff.mp hfolder
    refine ⟨⟨h.ordered.order, h.ordered.bound⟩, fun n hn => ?_, fun i c hc => ?_⟩
    · have := h.owners n hn
      rw [List.length_append]
      omega
    · rw [List.getElem?_append] at hc
      split at hc
      · exact h.sane i c hc
      · rename_i hi
        rw [List.getElem?_singleton] at hc
        obtain ⟨-, rfl⟩ := of_guard hc
        refine .start hl l fun n hn => ?_
        have := h.owners n hn
        omega
  | create i seq =>
    obtain ⟨hg, rfl⟩ := of_guard hs
    simp only [Bool.and_eq_true, decide_eq_true_eq, List.all_eq_true] at hg
    obtain ⟨⟨hasked, hnodes⟩, hseq⟩ := hg
    have hi : i < s.contenders.length := by
      by_contra hi
      rw [List.getElem?_eq_none (by omega)] at hasked
      cases hasked
    refine ⟨⟨List.pairwise_cons.mpr ⟨fun n hn => ?_, h.ordered.order⟩, ?_⟩, ?_, fun j c hc => ?_⟩
    · have := (h.ordered.bound n hn).2
      exact ⟨(hnodes n hn).2, by dsimp only; omega, (hnodes n hn).1⟩
    · refine List.forall_mem_cons.mpr ⟨⟨hseq, Nat.le_refl _⟩, fun n hn => ?_⟩
      exact ⟨(h.ordered.bound n hn).1, Nat.le_succ_of_le (h.ordered.bound n hn).2⟩
    · exact List.forall_mem_cons.mpr ⟨hi, h.owners⟩
    · exact (h.sane j c hc).create rfl fun n hn => (hnodes n hn).2
  | remove i =>
    obtain ⟨hg, rfl⟩ := of_guard hs
    simp only [List.any_eq_true, Bool.and_eq_true, decide_eq_true_eq] at hg
    obtain ⟨n, hn, rfl, hd⟩ := hg
    exact h.kill fun _ c hc => h.closed_of_deleted hn hd hc
  | lose i =>
    cases hs
    exact h.kill nofun
  | move i a =>
    simp only [Contest.step] at hs
    split at hs
    · cases hs
    · rename_i c hc
      obtain ⟨c', hm, rfl⟩ := Option.map_eq_some_iff.mp hs
      refine ⟨⟨h.ordered.order, h.ordered.bound⟩, by simpa using h.owners, fun j cj hj => ?_⟩
      rw [List.getElem?_set] at hj
      split at hj
      · rename_i hij
        subst hij
        obtain ⟨-, rfl⟩ := of_guard hj
        exact (h.sane i c hc).moved h.ordered (Contest.moved hm)
      · exact h.sane j cj hj

end Safe

/-- The call was granted the lock, and its sequence node is there. -/
def Holds (s : Contest) (i : Nat) : Prop :=
  (∃ c ∈ s.contenders[i]?, granted ∈ c.op.log) ∧ ∃ n ∈ s.nodes, n.owner = i ∧ n.died = none

instance (s : Contest) (i : Nat) : Decidable (s.Holds i) := inferInstanceAs (Decidable (_ ∧ _))

end Contest

/-- Nobody overtakes. When a call was granted the lock, the node of every call that queued before
it has gone, and unless it went with the session, that call is closed. -/
theorem lock_in_order {folder : Str} {s : Contest}
    (hr : (contestSystem folder).Reachable System.Any s) {i : Nat} {c : Contender}
    (hc : s.contenders[i]? = some c) (hg : granted ∈ c.op.log) :
    ∃ n ∈ s.nodes, n.owner = i ∧ ∀ n' ∈ s.nodes, n'.born < n.born → n'.died.isSome = true ∧
      (n'.lost = false → ∃ c', s.contenders[n'.owner]? = some c' ∧ c'.op.closed = true) := by
  have h : s.Safe folder := by
    refine hr.induct ?_ fun h _ hs => h.step hs
    rintro s rfl
    exact ⟨⟨.nil, by simp⟩, by simp, by simp⟩
  obtain ⟨n, hn, hown, hfirst⟩ := (h.sane i c hc).grounded.log hg
  refine ⟨n, hn, hown, fun n' hn' hlt => ?_⟩
  have hseq : n'.seq < n.seq := by
    rcases h.ordered.trichotomy hn' hn with rfl | ⟨hseq, -, -⟩ | ⟨-, hborn, -⟩
    · exact absurd hlt (Nat.lt_irrefl _)
    · exact hseq
    · exact absurd hlt (Nat.lt_asymm hborn)
  have hdied := hfirst n' hn' hseq
  refine ⟨hdied, fun hlost => ?_⟩
  have hc' := List.getElem?_eq_getElem (h.owners n' hn')
  exact ⟨_, hc', (h.sane _ _ hc').removed n' hn' rfl hdied hlost⟩

/-- The session takes the first node away; the second lock gets its turn. -/
theorem lock_in_order_lost : ∃ s n, (contestSystem "/l".toList).Reachable System.Any s ∧
    n ∈ s.nodes ∧ n.owner = 1 ∧ ∀ n' ∈ s.nodes, n'.born < n.born → n'.died.isSome = true := by
  obtain ⟨s, hr, c, hc, hg⟩ := (contestSystem "/l".toList).exists_reachable System.Any
    (P := fun s => ∃ c ∈ s.contenders[1]?, granted ∈ c.op.log)
    [.call (.lock "/l".toList 7) {}, .call (.lock "/l".toList 7) {}, .create 0 5, .create 1 7,
      .lose 0, .move 1 (.reply 0 (.create .ok "/l/lock0000000007".toList) 0 {}),
      .move 1 (.reply 0 (.childs .ok ["lock0000000007".toList] {}) 3 {})]
    rfl (by decide +kernel)
  obtain ⟨n, hn, hown, h⟩ := lock_in_order hr hc hg
  exact ⟨s, n, hr, hn, hown, fun n' hn' hlt => (h n' hn' hlt).1⟩

end Cocaine.Unicorn
