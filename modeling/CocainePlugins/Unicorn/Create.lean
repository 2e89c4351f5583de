import CocainePlugins.Framework.Ancestors
import CocainePlugins.Unicorn.Climb
import CocainePlugins.Unicorn.Conversation

/-!
# `create` among other clients

On its way up the operation has seen that the parent of each node it asked for is
missing, so on its way down the ancestors that are left are missing still, unless
someone else creates one (`Absent`, `Undisturbed`). Then the only request that can
be told that its node exists is the one for the path itself. Someone else who creates
an ancestor in between makes the operation fail: it takes the reply for one about
its own node.
-/

namespace Cocaine.Unicorn

open Framework

/-! ## Missing ancestors -/

/-- The first `depth` ancestors of the path are missing. -/
def Absent (path : Str) (t : Ztree Data) (depth : Nat) : Prop :=
  ∀ j p, j < depth → pathParent path (j + 1) = .ok p → t.node p = none

/-- Nobody else creates an ancestor of the path since the call was made. -/
def Undisturbed (i : Nat) (path : Str) (h : List Served) : Prop :=
  ∀ e ∈ h, i < e.calls → e.client ≠ some i → ∀ j p, pathParent path (j + 1) = .ok p →
    e.before.node p = none → e.after.node p = none

/-- Only a create brings a node, at its own path. -/
theorem serve_born {t : Ztree Data} {q : Query} {p : Str} (hb : t.node p = none)
    (ha : (serve t q).1.node p ≠ none) : ∃ x data ephemeral sequence,
      q = .create x data ephemeral sequence ∧ p = createdPath t x sequence := by
  cases q with
  | create x data ephemeral sequence =>
    refine ⟨x, data, ephemeral, sequence, rfl, ?_⟩
    by_contra hne
    exact ha ((t.created (createdPath t x sequence) data ephemeral).node_eq_none hb hne)
  | put x data version => exact absurd ((t.assigned x data (i32 version)).node_eq_none hb) ha
  | del x version => exact absurd ((t.deleted x (i32 version)).node_eq_none hb) ha
  | get x | exists' x | childs x =>
    simp only [serve] at ha
    split at ha <;> exact absurd hb ha

/-- Only a create is told that its node exists. -/
theorem serve_nodeExists {t : Ztree Data} {q : Query} (h : (serve t q).2.rc = .nodeExists) :
    ∃ x data ephemeral sequence, q = .create x data ephemeral sequence ∧
      t.node (createdPath t x sequence) ≠ none := by
  cases q with
  | create x data ephemeral sequence =>
    refine ⟨x, data, ephemeral, sequence, rfl, ?_⟩
    have hc := t.created (createdPath t x sequence) data ephemeral
    simp only [serve, Reply.rc] at h
    generalize (t.create (createdPath t x sequence) data ephemeral).1 = rc at hc h
    generalize (t.create (createdPath t x sequence) data ephemeral).2 = t' at hc
    subst h
    cases hc with
    | there hn => simp [hn]
  | put x data version =>
    have ha := t.assigned x data (i32 version)
    simp only [serve, Reply.rc] at h
    rw [h] at ha
    cases ha
  | del x version =>
    have hd := t.deleted x (i32 version)
    simp only [serve, Reply.rc] at h
    rw [h] at hd
    cases hd
  | get x | exists' x | childs x =>
    simp only [serve] at h
    split at h <;> cases h

theorem parentPath_createdPath (t : Ztree Data) (p : Str) (sequence : Bool) :
    parentPath (createdPath t p sequence) = parentPath p := by
  have hd : ∀ n, parentPath (p ++ padded zooSequenceLength n) = parentPath p := by
    intro n
    unfold parentPath
    rw [beforeLast_append_of_notMem (slash_notMem_padded _ _)]
  unfold createdPath sequencePath
  split
  · split
    · exact hd _
    · exact hd _
  · rfl

/-- The parent of a node is missing, so the ancestor one level up is. -/
theorem absent_parent {t : Ztree Data} {path p p' : Str} {depth : Nat}
    (h : pathParent path depth = .ok p) (h' : pathParent path (depth + 1) = .ok p')
    (hm : t.node (parentPath p) = none) : t.node p' = none := by
  have hb := beforeLast_of_pathParent h h'
  by_cases hp : p' = []
  · -- The root is there.
    have hroot : parentPath p = rootPath := by
      unfold parentPath
      rw [hb, hp]
    have := t.rooted
    rw [hroot] at hm
    rw [hm] at this
    cases this
  · rw [parentPath_of_beforeLast hb hp] at hm
    exact hm

namespace Absent

variable {path : Str} {own : Query} {t : Ztree Data} {depth : Nat}

theorem up {p : Str} (h : Absent path t depth) (hp : pathParent path depth = .ok p)
    (hm : t.node (parentPath p) = none) : Absent path t (depth + 1) := by
  intro j p' hj hp'
  rcases Nat.lt_succ_iff_lt_or_eq.mp hj with hj | rfl
  · exact h j p' hj hp'
  · exact absent_parent hp hp' hm

theorem serve_own (data : Data) (ephemeral sequence : Bool) :
    Absent path (serve t (.create path data ephemeral sequence)).1
      (climb 0 (serve t (.create path data ephemeral sequence)).2.rc) := by
  have hc := t.created (createdPath t path sequence) data ephemeral
  have h0 : ∀ t', Absent path t' 0 := fun _ _ _ hj => absurd hj (Nat.not_lt_zero _)
  simp only [serve, Reply.rc]
  generalize (t.create (createdPath t path sequence) data ephemeral).1 = rc at hc
  generalize (t.create (createdPath t path sequence) data ephemeral).2 = t' at hc
  cases hc with
  | orphan hn hm =>
    rw [parentPath_createdPath] at hm
    intro j p' hj hp'
    have hne : path ≠ [] := by
      rintro rfl
      cases hp'
    exact (h0 t).up (pathParent_zero hne) hm j p' hj hp'
  | _ => exact h0 _

theorem serve_above {p : Str} (h : Absent path t (depth + 1))
    (hp : pathParent path (depth + 1) = .ok p) :
    Absent path (serve t (.create p .raw false false)).1
        (climb (depth + 1) (serve t (.create p .raw false false)).2.rc) ∧
      (serve t (.create p .raw false false)).2.rc ≠ .nodeExists := by
  have hc := t.created p .raw false
  have hpath : createdPath t p false = p := rfl
  simp only [serve, Reply.rc, hpath]
  generalize (t.create p .raw false).1 = rc at hc
  generalize (t.create p .raw false).2 = t' at hc
  cases hc with
  | there hn =>
    rw [h depth p (Nat.lt_succ_self _) hp] at hn
    cases hn
  | orphan hn hm => exact ⟨h.up hp hm, by simp⟩
  | invalid | refused => exact ⟨h, by simp⟩
  | done hv hn hm ht =>
    refine ⟨fun j p' hj hp' => ?_, by simp⟩
    have hj : j < depth := hj
    have hne : p' ≠ p := by
      rintro rfl
      obtain ⟨d, rfl⟩ := Nat.exists_eq_add_of_lt hj
      have := length_pathParent hp' (d := d) (by rw [← hp]; congr 1; omega)
      omega
    exact (Ztree.Created.done hv hn hm ht).node_eq_none (h j p' (by omega) hp') hne

theorem serve_other {q : Query} (h : Absent path t depth) (hq : q.isCreate = false) :
    Absent path (serve t q).1 depth := by
  intro j p hj hp
  by_contra ha
  obtain ⟨x, data, ephemeral, sequence, rfl, -⟩ := serve_born (h j p hj hp) ha
  cases hq

end Absent

/-! ## The operation among the others -/

def Msg.created : Msg → Option Rc
  | .reply _ (.create rc _) => some rc
  | _ => none

/-- The depth after the replies on their way. -/
def Client.nextDepth (c : Client) : Nat :=
  (c.inbox.filterMap Msg.created).foldl climb c.op.act.depth

namespace Client

variable {c c' : Client}

theorem nextDepth_observe (t t' : Ztree Data) : (c.observe t t').nextDepth = c.nextDepth := by
  rw [nextDepth, filterMap_observe fun _ _ => rfl]
  rfl

theorem nextDepth_served (s : Sent) (r : Reply) :
    (c.served s r).nextDepth = ([Msg.reply s r].filterMap Msg.created).foldl climb c.nextDepth := by
  simp [nextDepth, served, List.filterMap_append, List.foldl_append]

/-- Delivering a reply does what was counted already. -/
theorem nextDepth_move {a : Move} (ht : c.op.act.cmd.target.isSome = true)
    (ha : c.move a = some c') : c'.nextDepth = c.nextDepth := by
  cases moved ha with
  | session id state => simp [nextDepth, Msg.created, List.filterMap_cons]
  | @reply s r rest l hbox =>
    have hact : (c.op.deliver s.query r l).act = (c.op.act.onReply c.op.closed r).1 :=
      Machine.act_handle _ l
    obtain ⟨⟨path, own⟩, htarget⟩ := Option.isSome_iff_exists.mp ht
    by_cases hr : ∃ rc p, r = .create rc p
    · obtain ⟨rc, p, rfl⟩ := hr
      have hd := (Action.onReply_created htarget c.op.closed rc p).1
      simp [nextDepth, hbox, hact, hd, Msg.created]
    · have hn : Msg.created (.reply s r) = none := by
        cases r with
        | create rc p => exact absurd ⟨rc, p, rfl⟩ hr
        | _ => rfl
      have hd := (Action.onReply_frame_of_target ht c.op.closed fun rc p h => hr ⟨rc, p, h⟩).1
      simp [nextDepth, hbox, hact, hd, hn]
  | @event id w rest l hbox =>
    have hact : (c.op.notify id w l).act = c.op.act := Machine.act_handle _ l
    simp [nextDepth, hbox, hact, Msg.created, List.filterMap_cons]
  | dropped hbox => simp [nextDepth, hbox, Msg.created, List.filterMap_cons]
  | resume => simp [nextDepth, Machine.act_handle]
  | abort => simp [nextDepth, Machine.act_abort]
  | close => simp [nextDepth, Machine.act_close]

end Client

section

variable {i : Nat} {cmd : Command} {t : Ztree Data} {h : List Served} {c : Client} {path : Str}
  {own : Query}

/-- A create that is not served yet is the one at the next depth. -/
theorem Run.atDepth (hr : Run i cmd t h c) (ht : cmd.target = some (path, own)) {s : Sent}
    {rest : List Sent} (ho : c.op.outbox = s :: rest) (hs : s.query.isCreate = true) :
    AtDepth path own c.nextDepth s.query := by
  obtain ⟨hreach, hans⟩ := hr.reachable
  have hcl := Machine.climbs ht hreach
  have hin : c.inbox.filterMap Msg.created = [] := by
    rw [List.filterMap_eq_nil_iff]
    intro msg hm
    cases msg with
    | event id w => rfl
    | reply s' r =>
      cases r with
      | create rc p =>
        -- Both requests would be outstanding at once.
        have hs' : s'.query.isCreate = true := Query.isCreate_of_answers (hans s' _ hm)
        have hmem : s' ∈ c.inbox.filterMap Msg.sent := List.mem_filterMap.mpr ⟨_, hm, rfl⟩
        have hpos : 0 < (c.inbox.filterMap Msg.sent).countP (·.query.isCreate) :=
          List.countP_pos_iff.mpr ⟨s', hmem, hs'⟩
        have hsingle : (c.inbox.filterMap Msg.sent ++ c.op.outbox).countP (·.query.isCreate) ≤ 1 :=
          hcl.single
        rw [List.countP_append, ho, List.countP_cons_of_pos (by exact hs)] at hsingle
        omega
      | _ => rfl
  have hd := hcl.depth s (List.mem_append_right _ (by rw [ho]; exact List.mem_cons_self)) hs
  rw [Client.nextDepth, hin]
  exact hd

theorem Absent.served (habs : Absent path t c.nextDepth) (hr : Run i cmd t h c)
    (ht : cmd.target = some (path, own)) {s : Sent} {rest : List Sent}
    (ho : c.op.outbox = s :: rest) :
    Absent path (serve t s.query).1
        (([Msg.reply s (serve t s.query).2].filterMap Msg.created).foldl climb c.nextDepth) ∧
      ((serve t s.query).2.rc = .nodeExists → s.query = own) := by
  rcases hs : s.query.isCreate with _ | _
  · have hn : Msg.created (.reply s (serve t s.query).2) = none := by
      have ha := answers_serve t s.query
      generalize (serve t s.query).2 = r at ha
      cases r with
      | create rc p =>
        rw [Query.isCreate_of_answers ha] at hs
        cases hs
      | _ => rfl
    refine ⟨by simpa [List.filterMap_cons, hn] using habs.serve_other hs, fun hrc => ?_⟩
    obtain ⟨x, data, ephemeral, sequence, hq, -⟩ := serve_nodeExists hrc
    rw [hq] at hs
    cases hs
  · have hat := hr.atDepth ht ho hs
    generalize c.nextDepth = d at hat habs
    obtain ⟨q, watcher⟩ := s
    dsimp only at hat hs ⊢
    cases hat with
    | own =>
      obtain ⟨data, ephemeral, sequence, rfl⟩ :
          ∃ data ephemeral sequence, own = .create path data ephemeral sequence := by
        cases cmd <;> cases ht <;> exact ⟨_, _, _, rfl⟩
      exact ⟨Absent.serve_own data ephemeral sequence, fun _ => rfl⟩
    | above hp =>
      obtain ⟨habs', hne⟩ := habs.serve_above hp
      exact ⟨habs', fun h => absurd h hne⟩

theorem Run.absent (hr : Run i cmd t h c) (ht : cmd.target = some (path, own))
    (hc : Connected i h) (hu : Undisturbed i path h) :
    Absent path t c.nextDepth ∧ ∀ e ∈ ownRecords i h, e.reply.rc = .nodeExists → e.query = own := by
  induction hr with
  | start l hh =>
    rw [ownRecords_eq_nil fun e he => (hh e he).1]
    have hd : Client.nextDepth { op := .start cmd l } = 0 := by
      simp [Client.nextDepth, Machine.act_start]
    rw [hd]
    exact ⟨fun _ _ hj => absurd hj (Nat.not_lt_zero _), by simp⟩
  | @other t h c client calls q f hr hcl hi ih =>
    rw [Connected, ownRecords_cons_of_ne hcl] at hc
    rw [Undisturbed, List.forall_mem_cons] at hu
    obtain ⟨habs, hex⟩ := ih hc hu.2
    rw [ownRecords_cons_of_ne hcl, Client.nextDepth_observe]
    exact ⟨fun j p hj hp => hu.1 hi hcl j p hp (habs j p hj hp), hex⟩
  | @serve t h c calls s rest f hr hi ho hf ih =>
    obtain ⟨rfl, hc'⟩ := hc.of_serve hf
    rw [Undisturbed, List.forall_mem_cons] at hu
    obtain ⟨habs, hex⟩ := ih hc' hu.2
    rw [ownRecords_cons_self rfl, List.forall_mem_cons, Client.nextDepth_served,
      Client.nextDepth_observe]
    obtain ⟨hstep, hown⟩ := habs.served hr ht ho
    exact ⟨hstep, hown, hex⟩
  | move hr ha ih =>
    obtain ⟨habs, hex⟩ := ih hc hu
    rw [Client.nextDepth_move (by rw [hr.cmd_eq, ht]; rfl) ha]
    exact ⟨habs, hex⟩

/-- An error that says the node exists comes from the request for the path itself. -/
theorem Run.own_of_nodeExists (hr : Run i cmd t h c) (ht : cmd.target = some (path, own))
    (hc : Connected i h) (hu : Undisturbed i path h) {e : Error}
    (he : .invoked (.error e) ∈ c.op.log) (hcode : e.code = .nodeExists) :
    ∃ r ∈ ownRecords i h, r.query = own ∧
      r.before.node (createdPath r.before path own.isSequence) ≠ none := by
  obtain ⟨⟨q, reply⟩, hmem, hrc⟩ := (Machine.climbs ht hr.reachable.1).error e he hcode
  have hall : (q, reply) ∈ c.replies := List.mem_append_right _ hmem
  rw [← hr.replies] at hall
  obtain ⟨r, hr', heq⟩ := List.mem_map.mp hall
  cases heq
  have hown := (hr.absent ht hc hu).2 r hr' hrc
  have hs := hc.serve_eq hr hr'
  obtain ⟨x, data, ephemeral, sequence, hq, hn⟩ := serve_nodeExists (t := r.before) (q := r.query) (by
    rw [hs]
    exact hrc)
  refine ⟨r, hr', hown, ?_⟩
  rw [hown] at hq
  obtain rfl : x = path := by
    cases cmd <;> cases ht <;> cases hq <;> rfl
  rw [hq]
  exact hn

end

/-! ## The conversation of a `create` -/

/-- Only the reply to the node itself ends the way. -/
theorem onCreated_next {path : Str} {own : Query} {done c : Call} {depth : Nat} {rc : Rc}
    (h : (onCreated path own [done] depth rc).2 = [c]) :
    (rc = .ok ∧ depth = 0 ∧ c = done) ∨
    ¬(rc = .ok ∧ depth = 0) ∧ ((∃ e, c = .throw e) ∨
      ∃ q, c = .request q false ∧ AtDepth path own (climb depth rc) q) := by
  have hup : ∀ d, ancestor path (d + 1) = [c] → (∃ e, c = .throw e) ∨
      ∃ q, c = .request q false ∧ AtDepth path own (d + 1) q := by
    intro d hd
    unfold ancestor at hd
    split at hd
    · cases hd
      exact .inl ⟨_, rfl⟩
    · rename_i p hp
      cases hd
      exact .inr ⟨_, rfl, .above hp⟩
  cases rc with
  | ok =>
    rcases depth with _ | _ | depth
    · cases h
      exact .inl ⟨rfl, rfl, rfl⟩
    · cases h
      exact .inr ⟨nofun, .inr ⟨own, rfl, .own⟩⟩
    · exact .inr ⟨nofun, hup depth h⟩
  | noNode =>
    have hd : ancestor path (depth + 1) = [c] := by cases depth <;> exact h
    exact .inr ⟨nofun, hup depth hd⟩
  | _ =>
    cases depth <;> cases h <;> exact .inr ⟨nofun, .inl ⟨_, rfl⟩⟩

/-- The operation has succeeded when its own request has. -/
theorem CreateT.talk {path : Str} {value : Value} {ephemeral sequence : Bool}
    {l : List (Query × Reply)} {a : Action} {c : Call}
    (h : Talk (.create path value ephemeral sequence) l a c) :
    a.cmd = .create path value ephemeral sequence ∧
    (∀ q, c = .request q false → AtDepth path (own path value ephemeral sequence) a.depth q) ∧
    (∀ x ∈ l, ∃ d, AtDepth path (own path value ephemeral sequence) d x.1) ∧
    ((∃ r, c = .satisfy r) ↔ ∃ p, (own path value ephemeral sequence, .create .ok p) ∈ l) ∧
    (∀ r, c = .satisfy r → r = .done true) := by
  induction h with
  | start h =>
    cases h
    refine ⟨rfl, ?_, by simp, by simp, by simp⟩
    rintro q ⟨⟩
    exact .own
  | @reply l a q r c ht hr hc ih =>
    obtain ⟨cmd, depth, v, created⟩ := a
    obtain ⟨rfl, hat, hold, hsat, -⟩ := ih
    have hat := hat q rfl
    have hall : ∀ x ∈ (q, r) :: l, ∃ d, AtDepth path (own path value ephemeral sequence) d x.1 :=
      List.forall_mem_cons.mpr ⟨⟨depth, hat⟩, hold⟩
    have hfresh : ∀ p, (own path value ephemeral sequence, Reply.create .ok p) ∉ l := by
      intro p hp
      obtain ⟨r, hr⟩ := hsat.mpr ⟨p, hp⟩
      cases hr
    obtain ⟨rc, p, rfl⟩ : ∃ rc p, r = .create rc p := by
      have hq : ∃ x data ephemeral sequence, q = .create x data ephemeral sequence := by
        cases hat <;> exact ⟨_, _, _, _, rfl⟩
      obtain ⟨x, data, ephemeral, sequence, rfl⟩ := hq
      cases r with
      | create rc p => exact ⟨rc, p, rfl⟩
      | _ => cases hr
    have hcalls : (onCreated path (own path value ephemeral sequence) [.satisfy (.done true)] depth
        rc).2 = [c] := hc
    have hdepth : (onCreated path (own path value ephemeral sequence) [.satisfy (.done true)] depth
        rc).1 = climb depth rc :=
      (onCreated_atDepth (by simp [Call.isCreate]) depth rc).1
    rcases onCreated_next hcalls with ⟨rfl, rfl, rfl⟩ | ⟨hne, hnext⟩
    · cases hat
      exact ⟨rfl, by simp, hall, ⟨fun _ => ⟨p, List.mem_cons_self⟩, fun _ => ⟨_, rfl⟩⟩,
        by rintro _ ⟨⟩; rfl⟩
    · have hnot : ∀ r, c ≠ .satisfy r := by
        rcases hnext with ⟨e, rfl⟩ | ⟨q', rfl, -⟩ <;> simp
      refine ⟨rfl, fun q' hq' => ?_, hall, ⟨fun h => ?_, fun h => ?_⟩, fun r h => absurd h (hnot r)⟩
      · rcases hnext with ⟨e, rfl⟩ | ⟨q'', rfl, hq''⟩
        · cases hq'
        · cases hq'
          rw [← hdepth] at hq''
          exact hq''
      · obtain ⟨r, h⟩ := h
        exact absurd h (hnot r)
      · obtain ⟨p', hp'⟩ := h
        rcases List.mem_cons.mp hp' with heq | hp'
        · cases heq
          cases hat with
          | own => exact absurd ⟨rfl, rfl⟩ hne
        · exact absurd hp' (hfresh p')

/-! ## What a `create` reports -/

section

variable {i : Nat} {path : Str} {value : Value} {ephemeral : Bool} {t : Ztree Data}
  {h : List Served} {c : Client}

theorem Run.created_of_done (hr : Run i (.create path value ephemeral false) t h c)
    (hc : Connected i h) (ho : .invoked (.value (.done true)) ∈ c.op.log) :
    ∃ e ∈ ownRecords i h, e.before.node path = none ∧ e.after.node path ≠ none := by
  obtain ⟨call, htalk, hv, -⟩ := hr.told rfl ho
  obtain ⟨p, hp⟩ := (CreateT.talk htalk).2.2.2.1.mp ⟨_, hv _ rfl⟩
  obtain ⟨e, he, heq⟩ := List.mem_map.mp hp
  obtain ⟨hq, hrep⟩ := Prod.mk.inj heq
  have hs := hc.serve_eq hr he
  rw [hq, hrep] at hs
  obtain ⟨rfl, hnone, hsome⟩ := serve_create_ok hs
  exact ⟨e, he, hnone, by simp [hsome]⟩

theorem Run.done_of_created (hr : Run i (.create path value ephemeral false) t h c)
    (hc : Connected i h) (hidle : c.idle = true) (hcl : .closed ∉ c.op.log) {e : Served}
    (he : e ∈ ownRecords i h) (hb : e.before.node path = none) (ha : e.after.node path ≠ none) :
    .invoked (.value (.done true)) ∈ c.op.log := by
  obtain ⟨hout, hin, -, hdef⟩ := Client.idle_iff.mp hidle
  -- Nothing is on its way, so something was reported.
  obtain ⟨o, ho⟩ : ∃ o, .invoked o ∈ c.op.log := by
    have hcount := (Machine.once rfl hr.reachable.1).count hcl
    have hp : c.machine.pending = 0 := by
      simp [Client.machine, Machine.pending, Machine.after, hout, hin, hdef]
    have hpos : 0 < c.op.log.countP Obs.isCallback := by
      have : c.machine.invocations = c.op.log.countP Obs.isCallback := rfl
      omega
    obtain ⟨x, hx, hcb⟩ := List.countP_pos_iff.mp hpos
    cases x with
    | invoked o => exact ⟨o, hx⟩
    | _ => cases hcb
  obtain ⟨call, htalk, hv, herr⟩ := hr.told rfl ho
  obtain ⟨-, -, hall, hsat, hdone⟩ := CreateT.talk htalk
  have hs := hc.serve_eq hr he
  have hmem : (e.query, e.reply) ∈ (ownRecords i h).map fun e => (e.query, e.reply) :=
    List.mem_map.mpr ⟨e, he, rfl⟩
  -- The request that brought the node is the one for the path.
  have hq : e.query = CreateT.own path value ephemeral false := by
    obtain ⟨x, data, eph, sequence, hx, hpath⟩ := serve_born (q := e.query) hb (by rw [hs]; exact ha)
    obtain ⟨d, hat⟩ := hall _ hmem
    dsimp only at hat
    generalize e.query = q at hat hx
    cases hat with
    | own => rfl
    | above hp =>
      cases hx
      have hne : path ≠ [] := by
        rintro rfl
        cases hp
      have := length_pathParent (pathParent_zero hne) (d := _) (by rw [Nat.zero_add]; exact hp)
      rw [hpath] at this
      exact absurd this (Nat.lt_irrefl _)
  obtain ⟨rc, p, hrep⟩ : ∃ rc p, e.reply = .create rc p := by
    have hrep := (congrArg Prod.snd hs).symm
    rw [hq] at hrep
    exact ⟨_, _, hrep⟩
  rw [hq, hrep] at hs hmem
  have hok : rc = .ok := by
    by_contra hne
    rw [serve_create_error hs hne] at ha
    exact ha hb
  subst hok
  obtain ⟨r, hr⟩ := hsat.mpr ⟨p, hmem⟩
  cases o with
  | value r' =>
    obtain rfl : r' = .done true := hdone r' (hv r' rfl)
    exact ho
  | error err => exact absurd hr (herr err rfl r)

end

/-- Without others who create ancestors of the path: a `create` reports success exactly
when it created the node, and neither it nor a lock reports that a node exists
unless it is the one at its own path. -/
theorem create_correct {w : World} (hr : worldSystem.Reachable System.Any w) {i : Nat} {c : Client}
    (hi : w.clients[i]? = some c) {path : Str} {own : Query}
    (ht : c.op.act.cmd.target = some (path, own)) (hc : Connected i w.history)
    (hu : Undisturbed i path w.history) :
    (∀ value ephemeral, c.op.act.cmd = .create path value ephemeral false → c.idle = true →
      .closed ∉ c.op.log → (.invoked (.value (.done true)) ∈ c.op.log ↔
        ∃ e ∈ ownRecords i w.history, e.before.node path = none ∧ e.after.node path ≠ none)) ∧
    ∀ err, .invoked (.error err) ∈ c.op.log → err.code = .nodeExists →
      ∃ e ∈ ownRecords i w.history, e.query = own ∧
        e.before.node (createdPath e.before path own.isSequence) ≠ none := by
  have hrun := World.run hr hi
  refine ⟨fun value ephemeral hcmd hidle hcl => ?_, fun err he hcode => ?_⟩
  · rw [hcmd] at hrun
    refine ⟨hrun.created_of_done hc, ?_⟩
    rintro ⟨e, he, hb, ha⟩
    exact hrun.done_of_created hc hidle hcl he hb ha
  · exact hrun.own_of_nodeExists ht hc hu he hcode

/-- A node two levels below the root, with nobody else around. -/
theorem create_correct_alone : ∃ w c, worldSystem.Reachable System.Any w ∧
    w.clients[0]? = some c ∧ c.op.act.cmd = .create "/a/b".toList (.int 1) false false ∧
    ∃ e ∈ ownRecords 0 w.history,
      e.before.node "/a/b".toList = none ∧ e.after.node "/a/b".toList ≠ none := by
  obtain ⟨w, hr, ⟨c, hi, hcmd, hidle, hcl, hdone⟩, hown, hcon⟩ :=
    worldSystem.exists_reachable System.Any
    (P := fun w => (∃ c : Client, c ∈ w.clients[0]? ∧
        c.op.act.cmd = .create "/a/b".toList (.int 1) false false ∧
        c.idle = true ∧ .closed ∉ c.op.log ∧ .invoked (.value (.done true)) ∈ c.op.log) ∧
      (∀ e ∈ w.history, e.client = some 0) ∧ ∀ e ∈ w.history, e.reply.rc.isFault = false)
    [.run (.create "/a/b".toList (.int 1) false false) {}, .serve 0 none, .move 0 (.deliver {}),
      .serve 0 none, .move 0 (.deliver {}), .serve 0 none, .move 0 (.deliver {})]
    (s := { tree := Ztree.single .raw }) ⟨rfl, rfl⟩ (by decide +kernel)
  have hc : Connected 0 w.history := fun e he => hcon e (mem_ownRecords.mp he).1
  have hu : Undisturbed 0 "/a/b".toList w.history := fun e he _ hne => absurd (hown e he) hne
  have h := create_correct hr hi (by rw [hcmd]; rfl) hc hu
  exact ⟨w, c, hr, hi, hcmd, (h.1 _ _ hcmd hidle hcl).mp hdone⟩

/-- The parent is missing at first; someone else creates it before the operation
does, and the operation reports that the node exists. -/
theorem create_disturbed :
    (∃ w c, worldSystem.Reachable System.Any w ∧ w.clients[0]? = some c ∧
      c.op.act.cmd = .create "/a/b".toList (.int 1) false false ∧
      .invoked (.error ⟨.nodeExists, "failure during creating node"⟩) ∈ c.op.log ∧
      w.tree.node "/a/b".toList = none ∧ ∀ e ∈ w.history, e.before.node "/a/b".toList = none) ∧
    ∃ w c, worldSystem.Reachable System.Any w ∧ w.clients[0]? = some c ∧
      c.op.act.cmd = .lock "/a".toList 7 ∧
      .invoked (.error ⟨.nodeExists, "failure during creating node"⟩) ∈ c.op.log := by
  refine ⟨?_, ?_⟩
  · exact World.exists_client 0 (s := { tree := Ztree.single .raw })
      [.run (.create "/a/b".toList (.int 1) false false) {}, .serve 0 none, .move 0 (.deliver {}),
        .other (.create "/a".toList .raw false false), .serve 0 none, .move 0 (.deliver {})]
      ⟨rfl, rfl⟩ (by decide +kernel)
  · exact World.exists_client 0 (s := { tree := Ztree.single .raw })
      [.run (.lock "/a".toList 7) {}, .serve 0 none, .move 0 (.deliver {}),
        .other (.create "/a".toList .raw false false), .serve 0 none, .move 0 (.deliver {})]
      ⟨rfl, rfl⟩ (by decide +kernel)

end Cocaine.Unicorn
