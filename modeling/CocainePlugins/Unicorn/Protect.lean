import CocainePlugins.Unicorn.Acl

/-!
# Who can alter an access list

The service runs an operation when `verify` has accepted it, and `verify` looks at the
first component of the path only. An operation writes nothing outside of that component
(`Within`), and `verify` itself writes the list of that component only, when it has no
owners. So a list with owners is altered by requests to the component `.acls` alone,
and those are governed by a list like any other, which nobody owns at first.
-/

namespace Cocaine.Unicorn

open Framework

/-! ## What a request can write -/

/-- The node that the request brings, sets or takes away. -/
def Query.writes (t : Ztree Data) : Query → Option Str
  | .put p _ _ | .del p _ => some p
  | .create p _ _ sequence => some (createdPath t p sequence)
  | .get _ | .exists' _ | .childs _ => none

variable {t : Ztree Data}

/-- A request is about its node and the one that lists it. -/
theorem serve_frame {q : Query} {x : Str}
    (h : ∀ y, q.writes t = some y → x ≠ y ∧ x ≠ parentPath y) :
    (serve t q).1.node x = t.node x := by
  cases q with
  | put p data version =>
    obtain ⟨hne, -⟩ := h p rfl
    have ha := t.assigned p data (i32 version)
    simp only [serve]
    generalize (t.set p data (i32 version)).1 = rc at ha
    generalize (t.set p data (i32 version)).2 = t' at ha
    cases ha with
    | missing | refused => rfl
    | done hn hv ht => rw [ht, Function.update_of_ne hne]
  | create p data ephemeral sequence =>
    obtain ⟨hne, hnp⟩ := h _ rfl
    have hc := t.created (createdPath t p sequence) data ephemeral
    simp only [serve]
    generalize (t.create (createdPath t p sequence) data ephemeral).1 = rc at hc
    generalize (t.create (createdPath t p sequence) data ephemeral).2 = t' at hc
    cases hc with
    | done hp hn hm ht => rw [ht, Function.update_of_ne hne, Function.update_of_ne hnp]
    | _ => rfl
  | del p version =>
    obtain ⟨hne, hnp⟩ := h p rfl
    have hd := t.deleted p (i32 version)
    simp only [serve]
    generalize (t.delete p (i32 version)).1 = rc at hd
    generalize (t.delete p (i32 version)).2 = t' at hd
    cases hd with
    | done hn hv hc hself hm ht => rw [ht, Function.update_of_ne hnp, Function.update_of_ne hne]
    | _ => rfl
  | get p | exists' p | childs p =>
    simp only [serve]
    split <;> rfl

theorem answer_frame {q : Query} {x : Str} (f : Option Fault)
    (h : ∀ y, q.writes t = some y → x ≠ y ∧ x ≠ parentPath y) :
    (answer t q f).1.node x = t.node x := by
  cases f with
  | none => exact serve_frame h
  | some f =>
    simp only [answer]
    split
    · exact serve_frame h
    · rfl

variable {cmd : Command}

/-- An operation alone leaves a node that none of its requests is about. -/
theorem World.alone_frame {l : Luck} {w : World} {x : Str}
    (hp : worldSystem.Path (fun _ a => a.own = true) (.alone t (.start cmd l) []) w)
    (hw : ∀ {t h c s}, Run 0 cmd t h c → s ∈ c.op.outbox → ∀ y, s.query.writes t = some y →
      x ≠ y ∧ x ≠ parentPath y) : w.tree.node x = t.node x := by
  have h : worldSystem.Reachable System.Any w ∧ (∃ c, w.clients = [c] ∧ c.op.act.cmd = cmd) ∧
      w.tree.node x = t.node x := by
    refine hp.induct (P := fun w => worldSystem.Reachable System.Any w ∧
      (∃ c, w.clients = [c] ∧ c.op.act.cmd = cmd) ∧ w.tree.node x = t.node x) ?_ ?_
    · refine ⟨⟨{ tree := t }, ⟨rfl, rfl⟩, .tail (a := .run cmd l) .refl trivial rfl⟩, ⟨_, rfl, ?_⟩, rfl⟩
      rw [Machine.act_start, Action.cmd_init]
    · rintro w a w' ⟨⟨w₀, hi, hpath⟩, ⟨c, hc, hcmd⟩, hx⟩ hown hs
      refine ⟨⟨w₀, hi, hpath.tail trivial hs⟩, ?_⟩
      have hrun : Run 0 cmd w.tree w.history c := by
        have := World.run ⟨w₀, hi, hpath⟩ (i := 0) (c := c) (by simp [hc])
        rwa [hcmd] at this
      cases a with
      | run | other => cases hown
      | serve i f =>
        have hs : w.step (.serve i f) = some w' := hs
        rw [World.step, hc] at hs
        rcases i with _ | i
        · simp only [List.getElem?_cons_zero] at hs
          split at hs
          · cases hs
          · rename_i sent rest ho
            obtain ⟨-, rfl⟩ := of_guard hs
            refine ⟨⟨(c.observe w.tree (answer w.tree sent.query f).1).served sent
              (answer w.tree sent.query f).2, by simp [commit, hc, Served.of], hcmd⟩, ?_⟩
            have hsame := answer_frame f (hw hrun (s := sent) (by rw [ho]; exact List.mem_cons_self))
            exact hsame.trans hx
        · simp at hs
      | move i a =>
        have hs : w.step (.move i a) = some w' := hs
        rw [World.step, hc] at hs
        rcases i with _ | i
        · obtain ⟨c', hm, rfl⟩ := Option.map_eq_some_iff.mp hs
          exact ⟨⟨c', rfl, by rw [Client.cmd_move hm, hcmd]⟩, hx⟩
        · simp at hs
  exact h.2.2

/-! ## Inside one component -/

/-- The path is in the component, or it is none at all. -/
def Within (component y : Str) : Prop := y = [] ∨ firstComponent y = component

theorem takeWhile_append_slash (a b : Str) :
    (a ++ '/' :: b).takeWhile (fun c => !(c == '/')) = a.takeWhile fun c => !(c == '/') := by
  induction a with
  | nil => simp
  | cons x a ih =>
    rw [List.cons_append, List.takeWhile_cons, List.takeWhile_cons, ih]

theorem head_of_firstComponent {a : Str} (h : firstComponent a ≠ []) : a.head? = some '/' := by
  unfold firstComponent at h
  split at h
  · rfl
  · exact absurd rfl h

theorem firstComponent_append {a : Str} (h : a.head? = some '/') (b : Str) :
    firstComponent (a ++ '/' :: b) = firstComponent a := by
  obtain ⟨a, rfl⟩ : ∃ a', a = '/' :: a' := List.head?_eq_some_iff.mp h
  exact takeWhile_append_slash a b

variable {depth : Nat}

theorem beforeNthLast_eq_some {path p : Str}
    (h : beforeNthLast (depth + 1) path = some p) : ∃ b, path = p ++ '/' :: b := by
  induction depth generalizing p with
  | zero =>
    obtain ⟨b, -, rfl⟩ := beforeLast_eq_some (by simpa [beforeNthLast] using h)
    exact ⟨b, rfl⟩
  | succ depth ih =>
    rw [beforeNthLast_succ] at h
    obtain ⟨q, hq, hb⟩ := Option.bind_eq_some_iff.mp h
    obtain ⟨b, rfl⟩ := ih hq
    obtain ⟨b', -, rfl⟩ := beforeLast_eq_some hb
    exact ⟨b' ++ '/' :: b, by simp⟩

theorem within_pathParent {path p : Str} (hc : firstComponent path ≠ [])
    (h : pathParent path (depth + 1) = .ok p) : Within (firstComponent path) p := by
  obtain ⟨b, rfl⟩ := beforeNthLast_eq_some (pathParent_eq_ok h)
  by_cases hp : p = []
  · exact .inl hp
  · have hhead := head_of_firstComponent hc
    rw [List.head?_append_of_ne_nil _ hp] at hhead
    exact .inr (firstComponent_append hhead b).symm

theorem firstComponent_lock {folder : Str} (hc : firstComponent folder ≠ []) (name : Str) :
    firstComponent (LockT.path folder ++ name) = firstComponent folder := by
  have heq : LockT.path folder ++ name = folder ++ '/' :: ("lock".toList ++ name) := by
    simp [LockT.path]
  rw [heq, firstComponent_append (head_of_firstComponent hc)]

/-- The service does not offer to create a sequence node by `create`. -/
def Command.Offered (cmd : Command) : Prop := ∀ path v ephemeral, cmd ≠ .create path v ephemeral true

theorem Command.path_of_locks {folder : Str} {v : Value}
    (h : cmd.locks = some (folder, v)) : cmd.path = folder := by
  cases cmd <;> cases h <;> rfl

namespace Command.Asks

variable {reported : Str → Prop} {cmd : Command}

/-- The nodes that an operation brings are in the component of its path. -/
theorem create_within {x : Str} {data : Data} {ephemeral sequence : Bool}
    (h : cmd.Asks reported (.create x data ephemeral sequence)) (hs : cmd.Offered)
    (hc : firstComponent cmd.path ≠ []) (t : Ztree Data) :
    Within (firstComponent cmd.path) (createdPath t x sequence) := by
  generalize hq : Query.create x data ephemeral sequence = q at h
  cases h with
  | create =>
    cases hq
    cases sequence with
    | false => exact .inr rfl
    | true => exact absurd rfl (hs _ _ _)
  | above hp =>
    cases hq
    exact within_pathParent hc hp
  | first =>
    cases hq
    exact .inr rfl
  | sequence hl =>
    cases hq
    rw [path_of_locks hl] at hc ⊢
    right
    simp only [createdPath, if_true, sequencePath]
    split <;> exact firstComponent_lock hc _
  | folder hl hp =>
    cases hq
    rw [path_of_locks hl] at hc ⊢
    have hlock := firstComponent_lock hc []
    rw [List.append_nil] at hlock
    have hw := within_pathParent (by rw [hlock]; exact hc) hp
    rwa [hlock] at hw
  | _ => cases hq

/-- Everything that an operation writes is in the component of its path, if the nodes
that were reported to it are. -/
theorem within {q : Query} (h : cmd.Asks reported q) (hs : cmd.Offered)
    (hc : firstComponent cmd.path ≠ [])
    (hr : ∀ p, reported p → Within (firstComponent cmd.path) p) {y : Str}
    (hy : q.writes t = some y) : Within (firstComponent cmd.path) y := by
  cases q with
  | create x data ephemeral sequence =>
    cases hy
    exact h.create_within hs hc t
  | put p data version =>
    cases hy
    cases h <;> exact .inr rfl
  | del p version =>
    cases hy
    cases h with
    | del => exact .inr rfl
    | release hl hp => exact hr _ hp
  | get | exists' | childs => cases hy

end Command.Asks

/-- The nodes that were reported to an operation are in its component. -/
theorem within_of_reported {i : Nat} {h : List Served}
    {c : Client} (hr : Run i cmd t h c) (hs : cmd.Offered) (hc : firstComponent cmd.path ≠ [])
    {p : Str} (hp : ∃ e ∈ ownRecords i h, e.reply = .create .ok p) :
    Within (firstComponent cmd.path) p := by
  obtain ⟨e, he, hrep⟩ := hp
  have hasked := hr.asked he
  obtain ⟨f, hf, ha⟩ := hr.answered he
  cases f with
  | some f =>
    -- A request that failed reports nothing.
    have heq : e.query.error f.rc = e.reply := congrArg Prod.snd ha
    have hrc : (e.query.error f.rc).rc = .ok := by
      rw [heq, hrep]
      rfl
    rw [Query.rc_error] at hrc
    rw [Option.all_some, hrc] at hf
    cases hf
  | none =>
    have ha : serve e.before e.query = (e.after, e.reply) := ha
    have hans := answers_serve e.before e.query
    rw [ha, hrep] at hans
    rw [hrep] at ha
    generalize e.query = q at ha hasked hans
    cases q with
    | create x data ephemeral sequence =>
      obtain ⟨rfl, -, -⟩ := serve_create_ok ha
      exact hasked.create_within hs hc _
    | _ => cases hans

/-! ## Requests to the service -/

/-- The methods behind the slots. -/
def Event.runs : Event → Command → Bool
  | .subscribe, .subscribe _ | .childrenSubscribe, .childrenSubscribe _ | .put, .put _ _ _
  | .get, .get _ | .create, .create _ _ false false | .del, .del _ _ | .remove, .del _ _
  | .increment, .increment _ _ | .lock, .lock _ _ | .namedLock, .namedLock _ _ => true
  | _, _ => false

/-- A request, and how far its operation gets. -/
structure Request where
  event : Event
  cmd : Command
  identity : Identity
  luck : Luck := {}
  script : List World.Label := []

/-- `unicorn_slot_t::operator()`, one request after the other. -/
def serviceStep (t : Ztree Data) (r : Request) : Option (Ztree Data) :=
  if r.event.runs r.cmd then
    if r.cmd.path = rootPath then some t
    else
      match verify t r.event r.cmd.path r.identity with
      | (t', .accepted) =>
        (worldSystem.run (fun _ a => a.own = true) (.alone t' (.start r.cmd r.luck) [])
          r.script).map World.tree
      | (t', _) => some t'
  else none

def serviceSystem : System (Ztree Data) Request where
  init _ := True
  step := serviceStep

/-! ## Access lists -/

/-- The component of the access lists themselves. -/
def aclsComponent : Str := ".acls".toList

theorem firstComponent_aclPath (component : Str) :
    firstComponent (aclPath component) = aclsComponent :=
  rfl

/-- What is in another component is no access list, nor the parent of one. -/
theorem aclPath_ne_within {p component y : Str} (hw : Within component y)
    (hc : component ≠ aclsComponent) : aclPath p ≠ y ∧ aclPath p ≠ parentPath y := by
  have hne : ∀ x, Within component x → aclPath p ≠ x := by
    rintro x (rfl | hx) heq
    · simp [aclPath] at heq
    · rw [← heq, firstComponent_aclPath] at hx
      exact hc hx.symm
  refine ⟨hne y hw, fun heq => ?_⟩
  rcases hb : beforeLast '/' y with _ | a
  · rw [parentPath, hb] at heq
    cases heq
  · obtain ⟨b, -, rfl⟩ := beforeLast_eq_some hb
    by_cases ha : a = []
    · rw [parentPath, hb, ha] at heq
      cases heq
    · rw [parentPath_of_beforeLast hb ha] at heq
      subst heq
      rcases hw with hw | hw
      · simp at hw
      · rw [firstComponent_append rfl, firstComponent_aclPath] at hw
        exact hc hw.symm

theorem pathParent_aclPath_above {component p : Str} (hk : '/' ∉ component)
    (h : pathParent (aclPath component) (depth + 1) = .ok p) : p = prefixAcls ∨ p = [] := by
  have hb := pathParent_eq_ok h
  rw [beforeNthLast, aclPath, beforeLast_append hk, Option.bind_some] at hb
  rcases depth with _ | _ | depth
  · exact .inl (Option.some.inj hb).symm
  · exact .inr (Option.some.inj hb).symm
  · cases hb

/-- The nodes above a list are no lists, and none is above them. -/
theorem aclPath_ne_above {component x : Str} (hk : '/' ∉ component)
    (h : pathParent (aclPath component) (depth + 1) = .ok x) (p : Str) :
    aclPath p ≠ x ∧ aclPath p ≠ parentPath x := by
  have hroot : aclPath p ≠ rootPath := by
    intro heq
    cases heq
  rcases pathParent_aclPath_above hk h with rfl | rfl
  · exact ⟨aclPath_ne, hroot⟩
  · exact ⟨by simp [aclPath], hroot⟩

/-- Storing a list leaves the other lists. -/
theorem perform_upload_frame {t t' : Ztree Data} {p component : Str} {o : Outcome}
    {v : Value} (hcmd : cmd = .create (aclPath component) v false false ∨
      ∃ version, cmd = .put (aclPath component) v version)
    (hk : '/' ∉ component) (hp : p ≠ component) (h : perform t cmd = some (t', o)) :
    t'.node (aclPath p) = t.node (aclPath p) := by
  have hs : cmd.single = true := by
    rcases hcmd with rfl | ⟨version, rfl⟩ <;> rfl
  have hself : aclPath p ≠ aclPath component ∧ aclPath p ≠ parentPath (aclPath component) := by
    rw [parentPath_aclPath hk]
    constructor
    · simpa [aclPath] using hp
    · exact aclPath_ne
  obtain ⟨l, m', hist, hpath, -⟩ := perform_world h hs
  refine World.alone_frame hpath ?_
  intro t h c s hr hs y hy
  have hasked := hr.asked_next hs
  generalize s.query = q at hasked hy
  rcases hcmd with rfl | ⟨version, rfl⟩
  · cases hasked with
    | create =>
      cases hy
      exact hself
    | above hp' =>
      cases hy
      exact aclPath_ne_above hk hp' p
    | sequence h | folder h | rivals h | previous h | node h | release h => cases h
  · cases hasked with
    | put =>
      cases hy
      exact hself
    | reread => cases hy
    | sequence h | folder h | rivals h | previous h | node h | release h => cases h

section

variable {t : Ztree Data} {p component : Str} (hk : '/' ∉ component) (hp : p ≠ component)

include hk hp

theorem uploadPermissions_frame (m : Metainfo) (v : Versioned) :
    (uploadPermissions t component m v).1.node (aclPath p) = t.node (aclPath p) := by
  unfold uploadPermissions
  split
  · unfold updatePermissions
    split
    all_goals first
      | rfl
      | (rename_i h; exact perform_upload_frame (.inr ⟨_, rfl⟩) hk hp h)
  · unfold createPermissions
    split
    all_goals first
      | rfl
      | (rename_i h; exact perform_upload_frame (.inl rfl) hk hp h)

theorem lookupPermissions_frame (event : Event) (i : Identity) (v : Versioned) :
    (lookupPermissions t event component i v).1.node (aclPath p) = t.node (aclPath p) := by
  have hd : ∀ m, (decideAccess t event component i m v).1.node (aclPath p) = t.node (aclPath p) := by
    intro m
    unfold decideAccess
    split
    · rfl
    · split
      · split
        · exact uploadPermissions_frame hk hp _ v
        · rfl
      · split <;> rfl
  unfold lookupPermissions
  split
  · split
    · split
      · rfl
      · exact hd _
    · rfl
  · exact hd _

end

variable {m : Metainfo}

/-- Where there are owners nothing is written. -/
theorem decideAccess_owned (hne : m.empty = false) (event : Event)
    (component : Str) (i : Identity) (v : Versioned) :
    (decideAccess t event component i m v).1 = t := by
  unfold decideAccess
  split
  · rfl
  · rw [if_neg (by simp [hne])]
    split <;> rfl

/-- The node of a component holds this list, readable or not. -/
def Holds (t : Ztree Data) (component : Str) (m : Metainfo) : Prop :=
  ∃ n, t.node (aclPath component) = some n ∧ n.data = serialize m.toDyn

/-- A list that cannot be read, since ZooKeeper refuses its path or since there is something
below it, grants nothing to anyone. -/
theorem verify_holds (event : Event) {path : Str} (i : Identity)
    (hk : firstComponent path ≠ []) (hm : Holds t (firstComponent path) m) :
    (∃ v, verify t event path i = decideAccess t event (firstComponent path) i m v) ∨
      ∃ code, verify t event path i = (t, .rejected code) := by
  obtain ⟨n, hn, hd⟩ := hm
  by_cases hv : validPath (aclPath (firstComponent path)) = true
  · by_cases hc : n.children = []
    · have hs : Stored t (firstComponent path) (some m) := ⟨n, hn, hd, hc⟩
      obtain ⟨v, heq, -, -⟩ := verify_stored event i hk hv hs
      exact .inl ⟨v, heq⟩
    · right
      obtain ⟨e, hget⟩ := perform_get_above hv hn hc
      rw [verify_eq t event i hk, hget]
      exact ⟨_, rfl⟩
  · right
    have hget : perform t (.get (aclPath (firstComponent path))) =
        some (t, .error Refusal.library.error) := by
      simp [perform, Action.run, Action.init, ask, Command.path, hv]
    rw [verify_eq t event i hk, hget]
    exact ⟨_, rfl⟩

/-- `verify` leaves a list that has owners. -/
theorem verify_frame {p : Str} (hm : Holds t p m)
    (hne : m.empty = false) (event : Event) (path : Str) (i : Identity) :
    (verify t event path i).1.node (aclPath p) = t.node (aclPath p) := by
  by_cases hk : firstComponent path = []
  · rw [verify_invalid t event i hk]
  by_cases hp : p = firstComponent path
  · subst hp
    rcases verify_holds event i hk hm with ⟨v, heq⟩ | ⟨code, heq⟩
    · rw [heq, decideAccess_owned hne]
    · rw [heq]
  · rw [verify_eq t event i hk]
    split
    · rename_i h
      rw [lookupPermissions_frame (slash_notMem_firstComponent path) hp, (perform_get_cases h).1]
    · rename_i h
      rw [(perform_get_cases h).1]
    · rfl

/-- What passes a list that has owners, but not its right to modify, is a read. -/
theorem read_of_accepted {t t' : Ztree Data} {event : Event} {path : Str} {i : Identity}
    (hm : Holds t (firstComponent path) m) (hne : m.empty = false)
    (hf : m.allows i Flags.both = false) (hk : firstComponent path ≠ [])
    (h : verify t event path i = (t', .accepted)) : operationFrom event = some Flags.read := by
  rcases verify_holds event i hk hm with ⟨v, heq⟩ | ⟨code, heq⟩
  · rw [h] at heq
    unfold decideAccess at heq
    split at heq
    · cases heq
    · rename_i flag hflag
      rw [if_neg (by simp [hne])] at heq
      split at heq
      · rename_i hallows
        have hcases : flag = Flags.both ∨ flag = Flags.read := by
          cases event <;> cases hflag <;> simp
        rcases hcases with rfl | rfl
        · rw [hf] at hallows
          cases hallows
        · exact hflag
      · cases heq
  · rw [h] at heq
    cases heq

/-- The events that `verify` lets pass with the right to read make reads only. -/
theorem writes_of_read {event : Event} (hr : event.runs cmd = true)
    (hf : operationFrom event = some Flags.read) {reported : Str → Prop} {q : Query}
    (h : cmd.Asks reported q) (t : Ztree Data) : q.writes t = none := by
  have hcmd : cmd = .get cmd.path ∨ cmd = .subscribe cmd.path ∨ cmd = .childrenSubscribe cmd.path := by
    cases event <;> cases hf <;> cases cmd <;> simp [Event.runs, Command.path] at hr ⊢
  rcases hcmd with hcmd | hcmd | hcmd <;> rw [hcmd] at h <;> cases h with
  | sequence h | folder h | rivals h | previous h | node h | release h => cases h
  | _ => rfl

/-- What the law needs of a request: its event is a known one, the list does not grant its
identity to modify, and if it goes to the lists themselves then they have owners, and the
identity may not modify them either. -/
structure Unauthorised (p : Str) (t : Ztree Data) (r : Request) : Prop where
  known : r.event ≠ .namedLock
  foreign : ∀ m, Holds t p m → m.allows r.identity Flags.both = false
  reserved : firstComponent r.cmd.path = aclsComponent → p ≠ aclsComponent →
    ∃ m, Holds t aclsComponent m ∧ m.empty = false ∧ m.allows r.identity Flags.both = false

theorem Command.offered_of_runs {event : Event} (h : event.runs cmd = true) :
    cmd.Offered := by
  rintro path v ephemeral rfl
  cases event <;> simp [Event.runs] at h

theorem serviceStep_frame {p : Str} {t t' : Ztree Data} {r : Request}
    (hs : serviceStep t r = some t') (hu : Unauthorised p t r) (hm : Holds t p m)
    (hne : m.empty = false) : t'.node (aclPath p) = t.node (aclPath p) := by
  have hframe := verify_frame hm hne r.event r.cmd.path r.identity
  unfold serviceStep at hs
  split at hs
  · rename_i hr
    split at hs
    · cases hs
      rfl
    · split at hs
      · rename_i hv
        rw [hv] at hframe
        obtain ⟨w, hrun, rfl⟩ := Option.map_eq_some_iff.mp hs
        have hk : firstComponent r.cmd.path ≠ [] := by
          intro hk
          rw [verify_invalid t r.event r.identity hk] at hv
          cases hv
        refine (World.alone_frame (System.Path.of_run _ hrun) ?_).trans hframe
        intro t₁ h c s hrn hmem y hy
        have hasked := hrn.asked_next hmem
        by_cases hc : firstComponent r.cmd.path = aclsComponent
        · -- Among the lists themselves: only reads come this far.
          have hread : operationFrom r.event = some Flags.read := by
            by_cases hp : p = aclsComponent
            · rw [hp, ← hc] at hm
              exact read_of_accepted hm hne (hu.foreign m (by rw [hp, ← hc]; exact hm)) hk hv
            · obtain ⟨m', hm', hne', hf⟩ := hu.reserved hc hp
              rw [← hc] at hm'
              exact read_of_accepted hm' hne' hf hk hv
          rw [writes_of_read hr hread hasked] at hy
          cases hy
        · have hoff := Command.offered_of_runs hr
          exact aclPath_ne_within
            (hasked.within hoff hk (fun _ => within_of_reported hrn hoff hk) hy) hc
      · rename_i hv
        cases hs
        rwa [hv] at hframe
  · cases hs

/-- Whatever comes from identities that an access list does not authorise, it stays. -/
theorem acl_protected {p : Str} {m : Metainfo} {t t' : Ztree Data}
    (hp : serviceSystem.Path (Unauthorised p) t t') (hm : Holds t p m) (hne : m.empty = false) :
    t'.node (aclPath p) = t.node (aclPath p) := by
  refine hp.induct (P := fun s => s.node (aclPath p) = t.node (aclPath p)) rfl ?_
  intro s s' r ih hu hs
  have hm' : Holds s p m := by
    unfold Holds
    rwa [ih]
  exact (serviceStep_frame hs hu hm' hne).trans ih

/-- The list of a component that the client 1 owns. -/
def ownersList : Metainfo := Metainfo.nobody.grant { cids := [1] }

def ownedTree : Ztree Data :=
  let t := (serve (.single .raw) (.create prefixAcls .raw false false)).1
  (serve t (.create (aclPath "p".toList) (serialize ownersList.toDyn) false false)).1

theorem holds_ownedTree : Holds ownedTree "p".toList ownersList :=
  ⟨{ data := serialize ownersList.toDyn }, by decide +kernel, rfl⟩

theorem eq_ownersList (h : Holds ownedTree "p".toList m) : m = ownersList := by
  obtain ⟨n, hn, hd⟩ := h
  obtain ⟨n', hn', hd'⟩ := holds_ownedTree
  rw [hn] at hn'
  cases hn'
  have hdyn : m.toDyn = ownersList.toDyn := Data.packed.inj (hd.symm.trans hd')
  exact Option.some.inj (by rw [← m.ofDyn_toDyn, hdyn, Metainfo.ofDyn_toDyn])

/-- The client 2 takes a component of its own; the list of the other one stays. -/
theorem acl_protected_other : ∃ t', serviceSystem.Path (Unauthorised "p".toList) ownedTree t' ∧
    t'.node (aclPath "p".toList) = ownedTree.node (aclPath "p".toList) := by
  let r : Request :=
    { event := .create
      cmd := .create "/q".toList .null false false
      identity := { cids := [2] }
      script := [.serve 0 none, .move 0 (.deliver {})] }
  obtain ⟨t', ht'⟩ : ∃ t', serviceStep ownedTree r = some t' :=
    Option.isSome_iff_exists.mp (by decide +kernel)
  have hu : Unauthorised "p".toList ownedTree r := by
    refine ⟨by decide, ?_, fun h => absurd h (by decide)⟩
    intro m hm
    rw [eq_ownersList hm]
    decide +kernel
  have hp : serviceSystem.Path (Unauthorised "p".toList) ownedTree t' := .tail .refl hu ht'
  exact ⟨t', hp, acl_protected hp holds_ownedTree rfl⟩

/-- The client 2 writes an empty list over it. -/
def overwriting : Request where
  event := .put
  cmd := .put (aclPath "p".toList) Metainfo.nobody.toDyn 0
  identity := { cids := [2] }
  script := [.serve 0 none, .move 0 (.deliver {})]

/-- While the lists have no owners themselves, anyone may write to them: that is a request
to the component `.acls`. -/
theorem acl_overwritten : Holds ownedTree "p".toList ownersList ∧ ownersList.empty = false ∧
    ownersList.allows overwriting.identity Flags.both = false ∧
    ∃ t', serviceSystem.step ownedTree overwriting = some t' ∧
      t'.node (aclPath "p".toList) ≠ ownedTree.node (aclPath "p".toList) := by
  refine ⟨holds_ownedTree, rfl, by decide +kernel, ?_⟩
  have hs : (serviceStep ownedTree overwriting).any (fun t' =>
      t'.node (aclPath "p".toList) ≠ ownedTree.node (aclPath "p".toList)) = true := by
    decide +kernel
  rcases ht : serviceStep ownedTree overwriting with _ | t'
  · rw [ht] at hs
    cases hs
  · rw [ht, Option.any_some] at hs
    exact ⟨t', ht, of_decide_eq_true hs⟩

/-! ## Operations together -/

/-- What is in another component is neither the node nor its parent. -/
theorem ne_within {x component y : Str} (hw : Within component y) (hhead : x.head? = some '/')
    (hroot : x ≠ rootPath) (hx : firstComponent x ≠ component) : x ≠ y ∧ x ≠ parentPath y := by
  refine ⟨?_, fun heq => ?_⟩
  · rintro rfl
    rcases hw with rfl | hw
    · cases hhead
    · exact hx hw
  · rcases hb : beforeLast '/' y with _ | a
    · exact hroot (by rw [heq, parentPath, hb])
    · by_cases ha : a = []
      · exact hroot (by rw [heq, parentPath, hb, ha])
      · obtain ⟨b, -, rfl⟩ := beforeLast_eq_some hb
        rw [parentPath_of_beforeLast hb ha] at heq
        subst heq
        rcases hw with hw | hw
        · simp at hw
        · exact hx (by rw [← hw, firstComponent_append hhead])

/-- Operations keep to their component, whoever else is at work: each request that was served
for one has left every node of the other components as it was. The root lists the components. -/
theorem operation_confined {w : World} (hr : worldSystem.Reachable System.Any w) {i : Nat}
    {c : Client} (hc : w.clients[i]? = some c) (ho : c.op.act.cmd.Offered)
    (hk : firstComponent c.op.act.cmd.path ≠ []) {e : Served} (he : e ∈ ownRecords i w.history)
    {x : Str} (hhead : x.head? = some '/') (hroot : x ≠ rootPath)
    (hx : firstComponent x ≠ firstComponent c.op.act.cmd.path) :
    e.after.node x = e.before.node x := by
  have hrun := World.run hr hc
  obtain ⟨f, -, ha⟩ := hrun.answered he
  have hframe : (answer e.before e.query f).1.node x = e.before.node x := by
    refine answer_frame f fun y hy => ne_within ?_ hhead hroot hx
    exact (hrun.asked he).within ho hk (fun _ => within_of_reported hrun ho hk) hy
  rwa [ha] at hframe

/-- A lock in one component, while an operation in another is at work. -/
theorem operation_confined_lock : ∃ w c e, worldSystem.Reachable System.Any w ∧
    w.clients[0]? = some c ∧ c.op.act.cmd = .lock "/a".toList 7 ∧ e ∈ ownRecords 0 w.history ∧
    e.after.node "/b".toList = e.before.node "/b".toList := by
  obtain ⟨w, hr, ⟨c, hc, hcmd⟩, hlen⟩ := worldSystem.exists_reachable System.Any
    (P := fun w => (∃ c ∈ w.clients[0]?, c.op.act.cmd = .lock "/a".toList 7) ∧
      0 < (ownRecords 0 w.history).length)
    (s := { tree := .single .raw })
    [.run (.lock "/a".toList 7) {}, .run (.create "/b".toList .null false false) {},
      .serve 1 none, .serve 0 none] ⟨rfl, rfl⟩ (by decide +kernel)
  obtain ⟨e, he⟩ := List.exists_mem_of_length_pos hlen
  refine ⟨w, c, e, hr, hc, hcmd, he, operation_confined hr hc ?_ ?_ he rfl (by decide) ?_⟩ <;>
    rw [hcmd]
  · rintro _ _ _ ⟨⟩
  · decide
  · decide

end Cocaine.Unicorn
