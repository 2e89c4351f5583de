import CocainePlugins.Framework.Ancestors
import CocainePlugins.Unicorn.Climb
import CocainePlugins.Unicorn.Perform

/-!
# `create` builds the ancestors of a path

`perform` of an operation under the prefix of its connection, with the requests that reach
the ensemble. A request for a node whose parent is missing is followed by those for the
parent, as many as these take, and is then made again (`conversation_create`): two requests
for each missing ancestor, and one more.
-/

namespace Cocaine.Unicorn

open Framework

/-! ## Requests under a prefix -/

def Query.path : Query → Str
  | .put path _ _ | .get path | .create path _ _ _ | .del path _ | .exists' path | .childs path =>
    path

/-- The same request for another path. -/
def Query.at (path : Str) : Query → Query
  | .put _ data version => .put path data version
  | .get _ => .get path
  | .create _ data ephemeral sequence => .create path data ephemeral sequence
  | .del _ version => .del path version
  | .exists' _ => .exists' path
  | .childs _ => .childs path

/-- What `zoo_command` makes of a request: the library refuses a path that is not valid. -/
def Query.format (pre : Str) (q : Query) : Except Refusal Query :=
  match formatPath pre q.path with
  | .error r => .error r
  | .ok path => if validPath path then .ok (q.at path) else .error .library

/-- The path that `create_cb` passes on is without the prefix. -/
def Reply.adjust (pre : Str) : Reply → Reply
  | .create rc path => .create rc (path.drop pre.length)
  | r => r

/-- `converse` under a prefix, with the requests that the ensemble gets after those of `asked`. -/
def conversation (pre : Str) : Nat → List Query → Ztree Data → Action → Call →
    Option (Ztree Data × Outcome × List Query)
  | _, asked, t, _, .satisfy r => some (t, .value r, asked)
  | _, asked, t, _, .throw e => some (t, .error e, asked)
  | n + 1, asked, t, a, .request q _ =>
    match q.format pre with
    | .error r => some (t, .error r.error, asked)
    | .ok q' =>
      let s := serve t q'
      let p := a.onReply false (s.2.adjust pre)
      match p.2 with
      | [c] => conversation pre n (asked ++ [q']) s.1 p.1 c
      | _ => none
  | 0, _, _, _, .request _ _ | _, _, _, _, .reconnect => none

/-- An operation under a prefix, alone. -/
def performUnder (pre : Str) (t : Ztree Data) (cmd : Command) :
    Option (Ztree Data × Outcome × List Query) :=
  match (Action.init cmd).run with
  | [c] => conversation pre cmd.rounds [] t (.init cmd) c
  | _ => none

section

variable {pre : Str} {n : Nat} {asked : List Query} {t t' : Ztree Data} {a : Action}

@[simp] theorem conversation_satisfy (r : Response) :
    conversation pre n asked t a (.satisfy r) = some (t, .value r, asked) := by
  cases n <;> rfl

@[simp] theorem conversation_throw (e : Error) :
    conversation pre n asked t a (.throw e) = some (t, .error e, asked) := by
  cases n <;> rfl

theorem conversation_request {q q' : Query} {r : Reply} {a' : Action} {c : Call} {watch : Bool}
    (hq : q.format pre = .ok q') (hs : serve t q' = (t', r))
    (hr : a.onReply false (r.adjust pre) = (a', [c])) :
    conversation pre (n + 1) asked t a (.request q watch) =
      conversation pre n (asked ++ [q']) t' a' c := by
  simp only [conversation, hq, hs, hr]

@[simp] theorem Reply.adjust_nil (r : Reply) : r.adjust [] = r := by
  cases r <;> rfl

theorem Query.format_eq_ok {q q' : Query} (h : q.format pre = .ok q') :
    validPath (pre ++ q.path) = true ∧ q' = q.at (pre ++ q.path) := by
  unfold Query.format formatPath at h
  by_cases hp : q.path.head? = some '/'
  · by_cases hv : validPath (pre ++ q.path) = true
    · simp only [hp, hv, if_true, Except.ok.injEq] at h
      exact ⟨hv, h.symm⟩
    · simp [hp, hv] at h
  · simp [hp] at h

theorem Query.format_nil {q q' : Query} (h : q.format [] = .ok q') : q' = q := by
  rw [(format_eq_ok h).2]
  cases q <;> rfl

theorem format_of_conversation {q : Query} {watch : Bool} {r : Response} {asked' : List Query}
    (h : conversation pre n asked t a (.request q watch) = some (t', .value r, asked')) :
    ∃ q', q.format pre = .ok q' := by
  cases n with
  | zero => cases h
  | succ n =>
    rw [conversation] at h
    split at h
    · cases h
    · exact ⟨_, ‹_›⟩

/-- Without a prefix it is the conversation that a run in the world has. -/
theorem converse_of_conversation {c : Call} {r : Response} {asked' : List Query}
    (h : conversation [] n asked t a c = some (t', .value r, asked')) :
    converse n t a c = some (t', .value r) := by
  fun_induction conversation [] n asked t a c with
  | case1 =>
    cases h
    exact converse_satisfy r
  | case2 | case3 => cases h
  | case4 n asked t a q watch q' hq s p c hc ih =>
    cases Query.format_nil hq
    have hp : p = a.onReply false s.2 := congrArg (a.onReply false) (Reply.adjust_nil s.2)
    rw [hp] at hc ih h
    rw [converse_request hc]
    exact ih h
  | _ => cases h

end

/-- What `create` does without a prefix, if it succeeds, is a run of it in the world. -/
theorem perform_of_performUnder {t t' : Ztree Data} {path : Str} {value : Value}
    {ephemeral sequence : Bool} {r : Response} {asked : List Query}
    (h : performUnder [] t (.create path value ephemeral sequence) = some (t', .value r, asked)) :
    perform t (.create path value ephemeral sequence) = some (t', .value r) := by
  obtain ⟨q, hq⟩ := format_of_conversation h
  have hv : validPath path = true := (Query.format_eq_ok hq).1
  rw [perform_eq t (.create path value ephemeral sequence) rfl hv]
  exact converse_of_conversation h

/-! ## One node and those above it -/

section

variable {path : Str} {own : Query} {arrived : List Call} {depth : Nat}

theorem onCreated_up {p : Str} (h : pathParent path (depth + 1) = .ok p) :
    onCreated path own arrived depth .noNode =
      (depth + 1, [.request (.create p .raw false false) false]) := by
  have hup : onCreated path own arrived depth .noNode = (depth + 1, ancestor path (depth + 1)) := by
    cases depth <;> rfl
  rw [hup, ancestor, h]
  rfl

theorem onCreated_down {q : Query} (h : AtDepth path own depth q) :
    onCreated path own arrived (depth + 1) .ok = (depth, [.request q false]) := by
  cases h with
  | own => rfl
  | above hp =>
    simp only [onCreated, ancestor, hp]
    rfl

end

section

variable {pre path p : Str} {t : Ztree Data}

/-- The paths of a prefix that exists are below it, so the parent of one that lacks it is. -/
theorem parent_under (hpre : pre ≠ [] → t.node pre ≠ none) (hp : p.head? = some '/')
    (hm : t.node (parentPath (pre ++ p)) = none) : ∃ p', beforeLast '/' p = some p' ∧
      p'.head? = some '/' ∧ parentPath (pre ++ p) = pre ++ p' := by
  have hmem : '/' ∈ p := List.mem_of_mem_head? hp
  obtain ⟨p', hp'⟩ : ∃ p', beforeLast '/' p = some p' :=
    Option.ne_none_iff_exists'.mp (mt beforeLast_eq_none.mp (not_not.mpr hmem))
  obtain ⟨name, hname, rfl⟩ := beforeLast_eq_some hp'
  have hb : beforeLast '/' (pre ++ (p' ++ '/' :: name)) = some (pre ++ p') := by
    rw [← List.append_assoc]
    exact beforeLast_append hname
  have hroot := Ztree.parentPath_ne_rootPath hm
  have hparent : parentPath (pre ++ (p' ++ '/' :: name)) = pre ++ p' := by
    have heq := beforeLast_eq_parentPath hroot
    rw [hb] at heq
    exact (Option.some.inj heq).symm
  refine ⟨p', hp', ?_, hparent⟩
  cases p' with
  | nil =>
    rw [List.append_nil] at hparent
    rw [hparent] at hm
    exact absurd hm (hpre (hparent ▸ parentPath_ne_nil _))
  | cons c p' => simpa using hp

variable {value : Value} {ephemeral : Bool} {depth : Nat} {data : Data} {e : Bool}

theorem format_create (data : Data) (e : Bool) (hp : p.head? = some '/')
    (hv : validPath (pre ++ p) = true) :
    Query.format pre (.create p data e false) = .ok (.create (pre ++ p) data e false) := by
  simp [Query.format, formatPath, Query.path, Query.at, hp, hv]

theorem onReply_create {a : Action} (ha : a.cmd = .create path value ephemeral false) {rc : Rc}
    {d : Nat} {c : Call} (h : CreateT.onCreate path value ephemeral false depth rc = (d, [c]))
    (x : Str) : { a with depth }.onReply false (.create rc x) = ({ a with depth := d }, [c]) := by
  simp only [Action.onReply, ha, h]

/-- The request `q` at `depth` comes to the end of `asked'`, with the tree `t'`: the reply to the
last of them says that the node of `q` was created. -/
def Leads (pre path : Str) (value : Value) (ephemeral : Bool) (a : Action) (t : Ztree Data)
    (depth : Nat) (q : Query) (t' : Ztree Data) (asked' : List Query) : Prop :=
  ∀ n asked d c, CreateT.onCreate path value ephemeral false depth .ok = (d, [c]) →
    conversation pre (n + asked'.length) asked t { a with depth } (.request q false) =
      conversation pre n (asked ++ asked') t' { a with depth := d } c

namespace Leads

variable {a : Action} {t₁ t' : Ztree Data} {q q' : Query} {x : Str}

theorem once (ha : a.cmd = .create path value ephemeral false) (hq : q.format pre = .ok q')
    (hs : serve t q' = (t', .create .ok x)) :
    Leads pre path value ephemeral a t depth q t' [q'] := by
  intro n asked d c hd
  exact conversation_request hq hs (onReply_create ha hd _)

/-- The parent is missing, is asked for, and then the node is asked for again. -/
theorem again {asked' : List Query} (ha : a.cmd = .create path value ephemeral false)
    (hat : AtDepth path (CreateT.own path value ephemeral false) depth q)
    (hp : pathParent path (depth + 1) = .ok p) (hq : q.format pre = .ok q')
    (hs : serve t q' = (t, .create .noNode x))
    (habove : Leads pre path value ephemeral a t (depth + 1) (.create p .raw false false) t₁ asked')
    (hdown : Leads pre path value ephemeral a t₁ depth q t' [q']) :
    Leads pre path value ephemeral a t depth q t' (q' :: asked' ++ [q']) := by
  intro n asked d c hd
  have hlen : n + (q' :: asked' ++ [q']).length = n + 1 + asked'.length + 1 := by
    rw [List.length_append, List.length_cons, List.length_singleton]
    omega
  have hup : CreateT.onCreate path value ephemeral false depth .noNode =
      (depth + 1, [.request (.create p .raw false false) false]) := onCreated_up hp
  calc conversation pre (n + (q' :: asked' ++ [q']).length) asked t { a with depth } (.request q false)
      = conversation pre (n + 1 + asked'.length) (asked ++ [q']) t { a with depth := depth + 1 }
          (.request (.create p .raw false false) false) := by
        rw [hlen, conversation_request hq hs (onReply_create ha hup _)]
    _ = conversation pre (n + 1) (asked ++ [q'] ++ asked') t₁ { a with depth } (.request q false) :=
        habove (n + 1) _ _ _ (onCreated_down hat)
    _ = conversation pre n (asked ++ [q'] ++ asked' ++ [q']) t' { a with depth := d } c :=
        hdown n _ d c hd
    _ = conversation pre n (asked ++ (q' :: asked' ++ [q'])) t' { a with depth := d } c := by
        simp only [List.append_assoc, List.cons_append, List.nil_append]

end Leads

/-- A request for a node, when no ancestor that exists is ephemeral, leads to a tree with the
node and its ancestors, after two requests for each missing one and one more. -/
theorem leads_built {a : Action} (ha : a.cmd = .create path value ephemeral false)
    (hpre : pre ≠ [] → t.node pre ≠ none) (hp : pathParent path depth = .ok p)
    (hhead : p.head? = some '/') (hv : validPath (pre ++ p) = true)
    (hn : t.node (pre ++ p) = none)
    (he : ∀ x ∈ rootPath :: ancestors (pre ++ p), ∀ m, t.node x = some m → m.ephemeral = false)
    (hat : AtDepth path (CreateT.own path value ephemeral false) depth (.create p data e false)) :
    ∃ t' asked', Leads pre path value ephemeral a t depth (.create p data e false) t' asked' ∧
      t.Built t' (pre ++ p) { data, ephemeral := e } .raw ∧
      asked'.length = 2 * (t.missing (pre ++ p)).length + 1 ∧ asked'.length < 2 * p.length ∧
      ∀ q ∈ asked', q.isCreate = true := by
  -- The parent of a path is shorter.
  induction hl : p.length using Nat.strongRecOn generalizing depth p data e with
  | ind l ih =>
    obtain ⟨rc, t₁, hs, hc⟩ := serve_create t (pre ++ p) data e
    have hq := format_create data e hhead hv
    rcases hm : t.node (parentPath (pre ++ p)) with _ | m
    · obtain ⟨rfl, rfl⟩ := hc.orphaned hv hn hm
      obtain ⟨p', hb, hhead', hparent⟩ := parent_under hpre hhead hm
      have hne := Ztree.parentPath_ne_rootPath hm
      have hp' : pathParent path (depth + 1) = .ok p' := pathParent_succ hp hb
      have hlt : p'.length < l := hl ▸ length_of_beforeLast hb
      obtain ⟨t₂, asked', hleads, hbuilt, hlen, hle, hcreate⟩ :=
        ih p'.length hlt hp' hhead' (hparent ▸ validPath_parentPath hv hne) (hparent ▸ hm)
          (fun x hx => he x (ancestors_parentPath (hparent ▸ hx) hne)) (.above hp') rfl
      rw [← hparent] at hbuilt hlen
      obtain ⟨rc, t₃, hs', hc'⟩ := serve_create t₂ (pre ++ p) data e
      obtain rfl := hc'.rc_eq_ok hv (hbuilt.node_eq_none (Ztree.not_mem_parent hm) hn) hbuilt.node rfl
      refine ⟨t₃, _, .again ha hat hp' hq hs hleads (.once ha hq hs'), hbuilt.child hm hc', ?_, ?_, ?_⟩
      · rw [Ztree.missing_of_orphan hm, List.length_append, List.length_cons, List.length_singleton,
          hlen, List.length_cons]
        omega
      · rw [List.length_append, List.length_cons, List.length_singleton]
        omega
      · intro q hmem
        rcases List.mem_append.mp hmem with hmem | hmem
        · rcases List.mem_cons.mp hmem with rfl | hmem
          · rfl
          · exact hcreate q hmem
        · rw [List.mem_singleton.mp hmem]
          rfl
    · obtain rfl := hc.rc_eq_ok hv hn hm (he _ (parentPath_mem _) m hm)
      have hpos : 0 < p.length := List.length_pos_of_mem (List.mem_of_mem_head? hhead)
      refine ⟨t₁, _, .once ha hq hs, hc.built .raw, ?_, ?_, ?_⟩
      · rw [Ztree.missing_of_parent (by simp [hm])]
        rfl
      · rw [List.length_singleton]
        omega
      · simp [Query.isCreate]

theorem performUnder_create (pre : Str) (value : Value) (ephemeral : Bool)
    (hpre : pre ≠ [] → t.node pre ≠ none) (hhead : path.head? = some '/')
    (hv : validPath (pre ++ path) = true) (hn : t.node (pre ++ path) = none)
    (he : ∀ x ∈ rootPath :: ancestors (pre ++ path), ∀ m, t.node x = some m → m.ephemeral = false) :
    ∃ t' asked, performUnder pre t (.create path value ephemeral false) =
        some (t', .value (.done true), asked) ∧
      t.Built t' (pre ++ path) { data := serialize value, ephemeral } .raw ∧
      asked.length = 2 * (t.missing (pre ++ path)).length + 1 ∧ ∀ q ∈ asked, q.isCreate = true := by
  have hne : path ≠ [] := by
    rintro rfl
    cases hhead
  obtain ⟨t', asked, hleads, hbuilt, hlen, hle, hcreate⟩ :=
    leads_built (a := .init (.create path value ephemeral false)) rfl hpre (pathParent_zero hne)
      hhead hv hn he .own
  refine ⟨t', asked, ?_, hbuilt, hlen, hcreate⟩
  obtain ⟨n, hrounds⟩ : ∃ n, (Command.create path value ephemeral false).rounds = n + asked.length :=
    ⟨2 * path.length + 2 - asked.length, by rw [Command.rounds, Command.path]; omega⟩
  calc performUnder pre t (.create path value ephemeral false)
      = conversation pre (n + asked.length) [] t (.init (.create path value ephemeral false))
          (.request (CreateT.own path value ephemeral false) false) := by rw [← hrounds]; rfl
    _ = conversation pre n ([] ++ asked) t' (.init (.create path value ephemeral false))
          (.satisfy (.done true)) := hleads n [] 0 _ rfl
    _ = some (t', .value (.done true), asked) := conversation_satisfy _

theorem performUnder_create_there (value : Value) (ephemeral : Bool) (hhead : path.head? = some '/')
    (hv : validPath (pre ++ path) = true) (hn : t.node (pre ++ path) ≠ none) :
    performUnder pre t (.create path value ephemeral false) =
      some (t, .error ⟨.nodeExists, "failure during creating node"⟩,
        [.create (pre ++ path) (serialize value) ephemeral false]) := by
  have hs : serve t (.create (pre ++ path) (serialize value) ephemeral false) =
      (t, .create .nodeExists []) := by
    simp [serve, createdPath, Ztree.create_of_node hv hn]
  have hq := format_create (serialize value) ephemeral hhead hv
  have ha : (Action.init (.create path value ephemeral false)).cmd =
      .create path value ephemeral false := rfl
  calc performUnder pre t (.create path value ephemeral false)
      = conversation pre (2 * path.length + 1 + 1) [] t (.init (.create path value ephemeral false))
          (.request (.create path (serialize value) ephemeral false) false) := rfl
    _ = conversation pre (2 * path.length + 1) _ t (.init (.create path value ephemeral false))
          (.throw ⟨.nodeExists, "failure during creating node"⟩) :=
        conversation_request hq hs (onReply_create ha rfl _)
    _ = _ := conversation_throw _

/-- Without a prefix this is a run of the operation in the world, with nobody else around. -/
theorem create_path_world (value : Value) (ephemeral : Bool) (hhead : path.head? = some '/')
    (hv : validPath path = true) (hn : t.node path = none)
    (he : ∀ x ∈ rootPath :: ancestors path, ∀ m, t.node x = some m → m.ephemeral = false) :
    ∃ t' l m' hist', t.Built t' path { data := serialize value, ephemeral } .raw ∧
      worldSystem.Path (fun _ a => a.own = true)
        (.alone t (.start (.create path value ephemeral false) l) []) (.alone t' m' hist') ∧
      .invoked (.value (.done true)) ∈ m'.log := by
  obtain ⟨t', asked, hperform, hbuilt, -, -⟩ := performUnder_create [] value ephemeral
    (fun hne => absurd rfl hne) hhead hv hn he
  obtain ⟨l, m', hist', hpath, hmem⟩ := perform_world (perform_of_performUnder hperform) rfl
  exact ⟨t', l, m', hist', hbuilt, hpath, hmem⟩

/-- Alone, with a prefix that exists and no ephemeral node above the path, `create` of a path that
does not exist succeeds and builds the path, after `2 * k + 1` requests if `k` ancestors are
missing; of a path that exists it reports so and changes nothing. -/
theorem create_builds_path (pre path : Str) (value : Value) (ephemeral : Bool) (t : Ztree Data)
    (hpre : pre ≠ [] → t.node pre ≠ none) (hhead : path.head? = some '/')
    (hv : validPath (pre ++ path) = true)
    (he : ∀ x ∈ rootPath :: ancestors (pre ++ path), ∀ m, t.node x = some m → m.ephemeral = false) :
    (t.node (pre ++ path) = none → ∃ t' asked,
      performUnder pre t (.create path value ephemeral false) =
        some (t', .value (.done true), asked) ∧
      t'.node (pre ++ path) = some { data := serialize value, ephemeral } ∧
      (∀ q ∈ t.missing (pre ++ path), ∃ m, t'.node q = some m ∧
        m.data = .raw ∧ m.version = 0 ∧ m.ephemeral = false) ∧
      (∀ q, q ∉ (pre ++ path) :: t.missing (pre ++ path) → t'.node q = (t.node q).map fun m =>
        if q = parentPath (t.top (pre ++ path)) then m.adopt (t.top (pre ++ path)) else m) ∧
      asked.length = 2 * (t.missing (pre ++ path)).length + 1 ∧ ∀ q ∈ asked, q.isCreate = true) ∧
    (t.node (pre ++ path) ≠ none → ∃ asked,
      performUnder pre t (.create path value ephemeral false) =
        some (t, .error ⟨.nodeExists, "failure during creating node"⟩, asked)) := by
  refine ⟨fun hn => ?_, fun hn => ?_⟩
  · obtain ⟨t', asked, hperform, hbuilt, hlen, hcreate⟩ :=
      performUnder_create pre value ephemeral hpre hhead hv hn he
    exact ⟨t', asked, hperform, hbuilt.node, hbuilt.above, hbuilt.others, hlen, hcreate⟩
  · exact ⟨_, performUnder_create_there value ephemeral hhead hv hn⟩

end

/-- The root and the node of a prefix. -/
def prefixed : Ztree Data where
  node p :=
    if p = rootPath then some { data := .raw, children := ["/app".toList], cversion := 1 }
    else if p = "/app".toList then some { data := .raw }
    else none
  rooted := rfl
  linked := by
    intro p n h hr
    rw [if_neg hr] at h
    split at h
    · rename_i hp
      subst hp
      exact ⟨_, rfl, List.mem_cons_self⟩
    · cases h

theorem create_builds_path_prefixed : prefixed.node "/app/a/b/c".toList = none ∧ ∃ t' asked,
    performUnder "/app".toList prefixed (.create "/a/b/c".toList .null false false) =
      some (t', .value (.done true), asked) ∧ asked.length = 5 := by
  have he : ∀ x m, prefixed.node x = some m → m.ephemeral = false := by
    intro x m h
    simp only [prefixed] at h
    split at h
    · cases h
      rfl
    · obtain ⟨-, rfl⟩ := of_guard h
      rfl
  obtain ⟨t', asked, hperform, -, -, -, hlen, -⟩ :=
    (create_builds_path "/app".toList "/a/b/c".toList .null false prefixed (by decide) (by decide)
      (by decide +kernel) (fun x _ m => he x m)).1 (by decide)
  refine ⟨by decide, t', asked, hperform, ?_⟩
  rw [hlen]
  decide +kernel

end Cocaine.Unicorn
