import CocainePlugins.Framework.Optimistic
import CocainePlugins.Unicorn.Protect
import CocainePlugins.Unicorn.Version

/-!
# Becoming the owner of a component

Many calls of `verify` at once. A call reads the list and, where it finds no owners,
writes its own ids: the read and the write are two steps, and anything may happen
between them. A creation fails where there is a node by now, and a put where the
version is another one, so the calls race for the node of the list as the parties of
`raceSystem` do for their cell.
-/

namespace Cocaine.Unicorn

open Framework

/-! ## A call in two steps -/

/-- A call of `verify`. -/
structure Visit where
  event : Event
  path : Str
  identity : Identity

inductive Phase where
  | waiting
  /-- The list was read. -/
  | looked (v : Versioned)
  /-- With what the call had read, if it came that far. -/
  | answered (seen : Option Versioned) (verdict : Verdict)
deriving DecidableEq

namespace Visit

variable (r : Visit) (t : Ztree Data)

def component : Option Str :=
  match r.path with
  | '/' :: rest => extractPrefix rest
  | _ => none

def look : Phase :=
  match r.component with
  | none => .answered none (.rejected .invalidPath)
  | some component =>
    match perform t (.get (aclPath component)) with
    | some (_, .value (.value v)) => .looked v
    | some (_, .error e) => .answered none (.rejected e.code)
    | _ => .answered none .uncaught

/-- The decision on what was read, with the write if there is one. -/
def act (v : Versioned) : Ztree Data × Verdict :=
  match r.component with
  | none => (t, .rejected .invalidPath)
  | some component => lookupPermissions t r.event component r.identity v

theorem component_eq (h : firstComponent r.path ≠ []) : r.component = some (firstComponent r.path) := by
  unfold component
  split
  · rename_i rest hp
    rw [hp] at h
    rw [extractPrefix_eq, if_neg h, hp]
  · rename_i hp
    refine absurd ?_ h
    unfold firstComponent
    split
    · rename_i rest heq
      exact absurd heq (hp rest)
    · rfl

end Visit

/-- With nothing between the two steps they are `verify`. -/
theorem verify_eq_look_act (t : Ztree Data) (r : Visit) (h : firstComponent r.path ≠ []) :
    verify t r.event r.path r.identity =
      match r.look t with
      | .looked v => r.act t v
      | .answered _ verdict => (t, verdict)
      | .waiting => (t, .uncaught) := by
  rw [verify_eq t r.event r.identity h]
  simp only [Visit.look, Visit.act, r.component_eq h]
  rcases hp : perform t (.get (aclPath (firstComponent r.path))) with _ | ⟨t', o⟩
  · rfl
  · obtain ⟨rfl, ⟨e, rfl⟩ | ⟨-, rfl⟩ | ⟨n, v, -, -, rfl⟩⟩ := perform_get_cases hp
    all_goals rfl

/-! ## The calls together -/

structure Registry where
  tree : Ztree Data
  phase : Nat → Phase := fun _ => .waiting
  /-- The calls that have changed the node of the list, the last one first. -/
  writes : List Nat := []

namespace Registry

inductive Label where
  | look (k : Nat)
  | act (k : Nat)
  /-- The backend refuses the request of the call. -/
  | refuse (k : Nat) (e : Error)
  /-- The write is done and its reply is lost. -/
  | lose (k : Nat) (e : Error)
  /-- Somebody else. -/
  | other (t : Ztree Data)

variable (component : Str)

def answer (s : Registry) (k : Nat) (seen : Option Versioned) (verdict : Verdict) : Registry :=
  { s with phase := Function.update s.phase k (.answered seen verdict) }

def commit (s : Registry) (k : Nat) (t : Ztree Data) : Registry :=
  { s with
    tree := t
    writes := if t.node (aclPath component) = s.tree.node (aclPath component) then s.writes
      else k :: s.writes }

def step (visits : Nat → Visit) (s : Registry) : Label → Option Registry
  | .look k =>
    match s.phase k with
    | .waiting => some { s with phase := Function.update s.phase k ((visits k).look s.tree) }
    | _ => none
  | .act k =>
    match s.phase k with
    | .looked v =>
      let p := (visits k).act s.tree v
      some ((s.commit component k p.1).answer k (some v) p.2)
    | _ => none
  | .refuse k e =>
    match s.phase k with
    | .waiting => some (s.answer k none (.rejected e.code))
    | .looked v => some (s.answer k (some v) (.rejected e.code))
    | .answered _ _ => none
  | .lose k e =>
    match s.phase k with
    | .looked v =>
      some ((s.commit component k ((visits k).act s.tree v).1).answer k (some v) (.rejected e.code))
    | _ => none
  | .other t => some { s with tree := t }

end Registry

/-- The calls `visits`, with the node of `component` observed. -/
def registrySystem (component : Str) (visits : Nat → Visit) (t₀ : Ztree Data) :
    System Registry Registry.Label where
  init s := s = { tree := t₀ }
  step := Registry.step component visits

/-- Nobody but the calls writes to the list. -/
def OnlyVisits (component : Str) (s : Registry) : Registry.Label → Prop
  | .other t => t.node (aclPath component) = s.tree.node (aclPath component)
  | _ => True

instance (component : Str) (s : Registry) (a : Registry.Label) :
    Decidable (OnlyVisits component s a) := by
  unfold OnlyVisits
  split <;> infer_instance

/-- An identified client modifies something in the component. -/
structure Visit.Claims (component : Str) (r : Visit) : Prop where
  component : firstComponent r.path = component
  modifies : operationFrom r.event = some Flags.both
  identified : r.identity.anonymous = false

/-! ## What a call writes -/

/-- The bytes of a list without owners. -/
def unowned : Option Data → Bool
  | none => true
  | some d =>
    match unserialize d with
    | .ok v => (Metainfo.ofDyn v).any Metainfo.empty
    | .error _ => false

/-- What the call writes when it has read these bytes. -/
def Visit.writes (r : Visit) (d : Option Data) : Option Data :=
  if unowned d then some (serialize (Metainfo.nobody.grant r.identity).toDyn) else none

theorem Perms.eq_nil_of_grant {ids : List Subject} (h : (grant {} ids).entries = []) : ids = [] := by
  have hm := (grant_spec (p := {}) (by simp) ids).2
  refine List.eq_nil_iff_forall_not_mem.mpr fun id hid => ?_
  have := (hm id).mpr (.inr hid)
  rw [h] at this
  cases this

theorem Metainfo.empty_grant {i : Identity} (h : i.anonymous = false) :
    (nobody.grant i).empty = false := by
  rw [Bool.eq_false_iff]
  intro he
  obtain ⟨hc, hu⟩ : (Perms.grant {} i.cids).entries = [] ∧ (Perms.grant {} i.uids).entries = [] := by
    simpa [empty, grant, nobody] using he
  simp [Identity.anonymous, Perms.eq_nil_of_grant hc, Perms.eq_nil_of_grant hu] at h

/-- A list that was written has owners. -/
theorem unowned_written {component : Str} {r : Visit} (h : r.Claims component) :
    unowned (some (serialize (Metainfo.nobody.grant r.identity).toDyn)) = false := by
  have hu : unserialize (serialize (Metainfo.nobody.grant r.identity).toDyn) =
      .ok (Metainfo.nobody.grant r.identity).toDyn := rfl
  simp only [unowned, hu, Metainfo.ofDyn_toDyn, Option.any_some, Metainfo.empty_grant h.identified]

section

variable {t : Ztree Data} {component : Str} (hk : '/' ∉ component)

include hk

theorem spared_aclPath : Spared (aclPath component) := by
  intro t x depth h
  refine serve_frame ?_
  rintro y ⟨⟩
  exact aclPath_ne_above hk h component

/-- The node of a list as a cell. -/
def listCell (t : Ztree Data) (component : Str) : Cell Data :=
  (t.node (aclPath component)).map fun n => (n.version, n.data)

/-- What a call has read, as a cell. -/
def Versioned.cell (v : Versioned) : Cell Data :=
  if v.isThere then some (v.version.toNat, serialize v.value) else none

/-- A write takes place where the call still has the current version, and the call is
accepted if it does. -/
theorem uploadPermissions_cases (m : Metainfo) {v : Versioned} (hlt : v.version < 2 ^ 31) :
    ((uploadPermissions t component m v).2 = .accepted ∧ v.cell.age = (listCell t component).age ∧
      listCell (uploadPermissions t component m v).1 component =
        (listCell t component).put (serialize m.toDyn)) ∨
    (uploadPermissions t component m v).2 ≠ .accepted ∧
      (uploadPermissions t component m v).1.node (aclPath component) = t.node (aclPath component) := by
  unfold uploadPermissions
  split
  · rename_i hthere
    unfold updatePermissions
    rcases hp : perform t (.put (aclPath component) m.toDyn v.version) with _ | ⟨t', o⟩
    · exact .inr ⟨by simp, rfl⟩
    · rcases perform_put_cases hp with ⟨n, w, rfl, -, h0, hn, hx, ht⟩ | ⟨rfl, hne⟩
      · left
        have hver : (n.version : Int) = v.version := (expects_i32_iff h0 hlt).mp hx
        refine ⟨rfl, ?_, ?_⟩
        · simp [Versioned.cell, hthere, listCell, hn, Cell.age, ← hver]
        · simp [listCell, ht, hn, Cell.put, Cell.age]
      · right
        constructor
        · split
          · rename_i heq
            cases heq
            exact absurd rfl (hne _)
          all_goals simp
        · split <;> first | rfl | (rename_i heq; cases heq; rfl)
  · rename_i hthere
    unfold createPermissions
    rcases hp : perform t (.create (aclPath component) m.toDyn false false) with _ | ⟨t', o⟩
    · exact .inr ⟨by simp, rfl⟩
    · rcases perform_create_cases hp with ⟨rfl, hn, hnone⟩ | ⟨⟨e, rfl⟩, hsame⟩
      · left
        have hnone := hnone (spared_aclPath hk)
        refine ⟨rfl, ?_, ?_⟩
        · simp [Versioned.cell, hthere, listCell, hnone, Cell.age]
        · simp [listCell, hn, hnone, Cell.put, Cell.age]
      · exact .inr ⟨by simp, hsame (spared_aclPath hk)⟩

end

theorem Metainfo.eq_nobody {m : Metainfo} (h : m.empty = true) : m = nobody := by
  obtain ⟨⟨c, hc⟩, u, hu⟩ := m
  obtain ⟨rfl, rfl⟩ : c = [] ∧ u = [] := by simpa [empty] using h
  rfl

/-- What the list that a call has read allows it. -/
def Visit.Granted (r : Visit) (v : Versioned) : Prop :=
  v.isThere = true ∧ ∃ m, Metainfo.ofDyn v.value = some m ∧ m.empty = false ∧
    m.allows r.identity Flags.both = true

namespace Visit.Claims

variable {component : Str} {r : Visit} (h : r.Claims component)

include h

theorem notMem : '/' ∉ component := h.component ▸ slash_notMem_firstComponent r.path

/-- Where there are no owners the call writes itself into the list. -/
theorem decideAccess_empty {m : Metainfo} (hm : m.empty = true) (t : Ztree Data) (v : Versioned) :
    decideAccess t r.event component r.identity m v =
      uploadPermissions t component (Metainfo.nobody.grant r.identity) v := by
  have hlen : (0 < r.identity.cids.length || 0 < r.identity.uids.length) = true := by
    simpa [Identity.anonymous, List.length_pos_iff, imp_iff_not_or] using h.identified
  have hmod : (isModify Flags.both && (0 < r.identity.cids.length || 0 < r.identity.uids.length)) =
      true := by
    rw [hlen]
    rfl
  obtain rfl := Metainfo.eq_nobody hm
  simp only [decideAccess, h.modifies, hm, hmod, if_true]

/-- What the second step does: it writes, and is accepted; or it leaves the list, and is
accepted only by what it had read. -/
theorem act_cases (hne : component ≠ []) (t : Ztree Data) {v : Versioned}
    (hlt : unowned v.cell.value = true → v.version < 2 ^ 31) :
    ((r.act t v).2 = .accepted ∧ ∃ d, r.writes v.cell.value = some d ∧
      v.cell.age = (listCell t component).age ∧
      listCell (r.act t v).1 component = (listCell t component).put d) ∨
    ((r.act t v).1.node (aclPath component) = t.node (aclPath component) ∧
      ((r.act t v).2 = .accepted → r.Granted v)) := by
  obtain rfl := h.component
  have hact : r.act t v = lookupPermissions t r.event (firstComponent r.path) r.identity v := by
    rw [Visit.act, r.component_eq hne]
  have hupload : unowned v.cell.value = true →
      (r.act t v = uploadPermissions t (firstComponent r.path) (Metainfo.nobody.grant r.identity) v) →
      ((r.act t v).2 = .accepted ∧ ∃ d, r.writes v.cell.value = some d ∧
        v.cell.age = (listCell t (firstComponent r.path)).age ∧
        listCell (r.act t v).1 (firstComponent r.path) = (listCell t (firstComponent r.path)).put d) ∨
      ((r.act t v).1.node (aclPath (firstComponent r.path)) = t.node (aclPath (firstComponent r.path)) ∧
        ((r.act t v).2 = .accepted → r.Granted v)) := by
    intro hu heq
    rw [heq]
    rcases uploadPermissions_cases h.notMem (Metainfo.nobody.grant r.identity) (t := t) (hlt hu) with
      ⟨hacc, hage, hcell⟩ | ⟨hrej, hsame⟩
    · exact .inl ⟨hacc, _, if_pos hu, hage, hcell⟩
    · exact .inr ⟨hsame, fun hacc => absurd hacc hrej⟩
  rcases hthere : v.isThere with _ | _
  · -- No node was there.
    refine hupload (by simp [Versioned.cell, hthere, Cell.value, unowned]) ?_
    rw [hact, lookupPermissions, if_neg (by simp [hthere]), h.decideAccess_empty rfl]
  · have hvalue : v.cell.value = some (serialize v.value) := by
      simp [Versioned.cell, hthere, Cell.value]
    rcases hm : Metainfo.ofDyn v.value with _ | m
    · right
      rw [hact, lookupPermissions, if_pos hthere, hm]
      split <;> exact ⟨rfl, by simp⟩
    · have hconv : convertible v.value = true := by
        rcases hv : v.value with _ | items | _
        all_goals rw [hv] at hm
        · cases hm
        · rcases items with _ | ⟨c, _ | ⟨u, _ | _⟩⟩
          all_goals first | rfl | cases hm
        · cases hm
      have hd : r.act t v = decideAccess t r.event (firstComponent r.path) r.identity m v := by
        simp only [hact, lookupPermissions, hthere, hconv, hm, if_true]
      rcases hem : m.empty with _ | _
      · right
        rw [hd, decideAccess, h.modifies]
        simp only [hem, Bool.false_eq_true, if_false]
        split
        · rename_i hallow
          exact ⟨rfl, fun _ => ⟨hthere, m, hm, hem, hallow⟩⟩
        · exact ⟨rfl, by simp⟩
      · refine hupload ?_ (by rw [hd, h.decideAccess_empty hem])
        rw [hvalue]
        simp only [unowned, serialize, unserialize, hm, Option.any_some, hem]

theorem look_cases (hne : component ≠ []) (t : Ztree Data) :
    (∃ v, r.look t = .looked v ∧ v.cell = listCell t component) ∨
    ∃ verdict, r.look t = .answered none verdict ∧ verdict ≠ .accepted := by
  obtain rfl := h.component
  simp only [Visit.look, r.component_eq hne]
  rcases hp : perform t (.get (aclPath (firstComponent r.path))) with _ | ⟨t', o⟩
  · exact .inr ⟨_, rfl, by simp⟩
  · obtain ⟨rfl, ⟨e, rfl⟩ | ⟨hn, rfl⟩ | ⟨n, v, hn, hd, rfl⟩⟩ := perform_get_cases hp
    · exact .inr ⟨_, rfl, by simp⟩
    · exact .inl ⟨_, rfl, by simp [Versioned.cell, Versioned.isThere, listCell, hn]⟩
    · have hdata : n.data = serialize v := by
        rcases hnd : n.data with v' | _
        · rw [hnd] at hd
          cases hd
          rfl
        · rw [hnd] at hd
          cases hd
      have hthere : Versioned.isThere ⟨v, n.version⟩ = true := by
        simp only [Versioned.isThere, notExistingVersion, bne_iff_ne]
        omega
      exact .inl ⟨_, rfl, by simp [Versioned.cell, hthere, listCell, hn, hdata]⟩

end Visit.Claims

/-! ## The race -/

def Phase.turn : Phase → Race.Turn Data
  | .waiting => .idle
  | .looked v => .holds v.cell
  | .answered _ _ => .done

/-- The calls as parties around the cell. -/
def Registry.race (s : Registry) (component : Str) : Race Nat Data where
  cell := listCell s.tree component
  turn k := (s.phase k).turn
  applied := s.writes

section

variable {component : Str} {visits : Nat → Visit} {t₀ : Ztree Data}

def visitRace (component : Str) (visits : Nat → Visit) (t₀ : Ztree Data) :
    System (Race Nat Data) (Race.Label Nat) :=
  raceSystem (fun k => (visits k).writes) (listCell t₀ component)

/-- At most one of the calls can write. -/
theorem after_visits (hv : ∀ k, (visits k).Claims component) {l : List Nat} {c : Cell Data}
    (h : Race.After (fun k => (visits k).writes) (listCell t₀ component) l c) :
    (l = [] ∧ c = listCell t₀ component) ∨ ∃ k, l = [k] ∧
      c.value = some (serialize (Metainfo.nobody.grant (visits k).identity).toDyn) := by
  induction h with
  | nil => exact .inl ⟨rfl, rfl⟩
  | @cons i l c d _ hd ih =>
    obtain ⟨hu, rfl⟩ : unowned c.value = true ∧
        serialize (Metainfo.nobody.grant (visits i).identity).toDyn = d := by
      simpa [Visit.writes] using hd
    rcases ih with ⟨rfl, -⟩ | ⟨k, -, hc⟩
    · exact .inr ⟨i, rfl, rfl⟩
    · rw [hc, unowned_written (hv k)] at hu
      cases hu

/-- What a call has read was left by the calls before it. -/
def Registry.Past (component : Str) (visits : Nat → Visit) (t₀ : Ztree Data) (s : Registry)
    (v : Versioned) : Prop :=
  ∃ l, l <:+ s.writes ∧ Race.After (fun k => (visits k).writes) (listCell t₀ component) l v.cell

structure Registry.Fair (component : Str) (visits : Nat → Visit) (t₀ : Ztree Data) (s : Registry) :
    Prop where
  race : (visitRace component visits t₀).Reachable System.Any (s.race component)
  past : ∀ k v verdict, s.phase k = .answered (some v) verdict → s.Past component visits t₀ v
  accepted : ∀ k v, s.phase k = .answered v .accepted →
    k ∈ s.writes ∨ ∃ w, v = some w ∧ (visits k).Granted w

theorem Registry.race_phase (s : Registry) (component : Str) (k : Nat) (p : Phase) :
    Registry.race { s with phase := Function.update s.phase k p } component =
      { s.race component with turn := Function.update (s.race component).turn k p.turn } := by
  have hturn : (fun j => (Function.update s.phase k p j).turn) =
      Function.update (fun j => (s.phase j).turn) k p.turn := by
    funext j
    by_cases hj : j = k
    · subst hj
      simp
    · simp [hj]
  simp only [Registry.race, hturn]

namespace Registry.Fair

variable {s : Registry} {k : Nat}

/-- Whoever still finds no owners has read the first version. -/
theorem version_lt (h : s.Fair component visits t₀) (hv : ∀ k, (visits k).Claims component)
    (hver : ∀ n, t₀.node (aclPath component) = some n → n.version < 2 ^ 31)
    {v : Versioned} (hk : s.phase k = .looked v) (hu : unowned v.cell.value = true) :
    v.version < 2 ^ 31 := by
  obtain ⟨l, -, hl⟩ := (Race.serial h.race).past k v.cell (by simp [Registry.race, hk, Phase.turn])
  rcases after_visits hv hl with ⟨-, hc⟩ | ⟨j, -, hc⟩
  · rcases hthere : v.isThere with _ | _
    · have : v.version = -1 := by simpa [Versioned.isThere, notExistingVersion] using hthere
      omega
    · obtain ⟨n, hn, heq⟩ : ∃ n, t₀.node (aclPath component) = some n ∧ n.version = v.version.toNat := by
        simp only [Versioned.cell, hthere, if_true, listCell] at hc
        obtain ⟨n, hn, heq⟩ := Option.map_eq_some_iff.mp hc.symm
        exact ⟨n, hn, congrArg Prod.fst heq⟩
      have := hver n hn
      omega
  · rw [hc, unowned_written (hv j)] at hu
    cases hu

theorem past_looked (h : s.Fair component visits t₀) {v : Versioned}
    (hk : s.phase k = .looked v) : s.Past component visits t₀ v :=
  (Race.serial h.race).past k v.cell (by simp [Registry.race, hk, Phase.turn])

theorem answer (h : s.Fair component visits t₀) {seen : Option Versioned}
    {verdict : Verdict} (hk : (s.phase k).turn ≠ .done)
    (hseen : ∀ v, seen = some v → s.phase k = .looked v)
    (hacc : verdict = .accepted → ∃ w, seen = some w ∧ (visits k).Granted w) :
    (s.answer k seen verdict).Fair component visits t₀ := by
  refine ⟨?_, ?_, ?_⟩
  · rw [Registry.answer, Registry.race_phase]
    exact h.race.tail (a := .quit k) trivial (Race.step_quit (f := fun k => (visits k).writes) hk)
  · intro j v verdict' hj
    by_cases hjk : j = k
    · subst hjk
      obtain ⟨rfl, -⟩ : seen = some v ∧ verdict = verdict' := by simpa [Registry.answer] using hj
      exact h.past_looked (hseen v rfl)
    · exact h.past j v verdict' (by simpa [Registry.answer, hjk] using hj)
  · intro j v hj
    by_cases hjk : j = k
    · subst hjk
      obtain ⟨rfl, rfl⟩ : seen = v ∧ verdict = .accepted := by simpa [Registry.answer] using hj
      exact .inr (hacc rfl)
    · exact h.accepted j v (by simpa [Registry.answer, hjk] using hj)

theorem look (h : s.Fair component visits t₀) {v : Versioned} (hk : s.phase k = .waiting)
    (hc : v.cell = listCell s.tree component) :
    Registry.Fair component visits t₀ { s with phase := Function.update s.phase k (.looked v) } := by
  refine ⟨?_, ?_, ?_⟩
  · rw [Registry.race_phase]
    refine h.race.tail (a := .read k) trivial ?_
    have hidle : (s.race component).turn k = .idle := by simp [Registry.race, hk, Phase.turn]
    rw [Phase.turn, hc]
    exact Race.step_read (f := fun k => (visits k).writes) hidle
  · intro j w verdict hj
    by_cases hjk : j = k
    · simp [hjk] at hj
    · exact h.past j w verdict (by simpa [hjk] using hj)
  · intro j w hj
    by_cases hjk : j = k
    · simp [hjk] at hj
    · exact h.accepted j w (by simpa [hjk] using hj)

theorem commit (h : s.Fair component visits t₀) {v : Versioned} {d : Data}
    {t : Ztree Data} {verdict : Verdict} (hk : s.phase k = .looked v)
    (hd : (visits k).writes v.cell.value = some d)
    (ha : v.cell.age = (listCell s.tree component).age)
    (hc : listCell t component = (listCell s.tree component).put d) :
    ((s.commit component k t).answer k (some v) verdict).Fair component visits t₀ := by
  have hne : t.node (aclPath component) ≠ s.tree.node (aclPath component) := by
    intro heq
    have hage := congrArg Cell.age hc
    rw [listCell, heq, ← listCell, Cell.age_put] at hage
    omega
  have hcommit : s.commit component k t = { s with tree := t, writes := k :: s.writes } := by
    rw [Registry.commit, if_neg hne]
  have hpast := h.past_looked hk
  have hgrow : ∀ w, s.Past component visits t₀ w →
      ({ s with tree := t, writes := k :: s.writes } : Registry).Past component visits t₀ w := by
    rintro w ⟨l, hl, hw⟩
    exact ⟨l, hl.trans (List.suffix_cons _ _), hw⟩
  rw [hcommit]
  refine ⟨?_, ?_, ?_⟩
  · rw [Registry.answer, Registry.race_phase]
    have hholds : (s.race component).turn k = .holds v.cell := by simp [Registry.race, hk, Phase.turn]
    have hstep := Race.step_write (f := fun k => (visits k).writes) hholds ha hd
    refine h.race.tail (a := .write k) trivial (hstep.trans ?_)
    simp only [Registry.race, hc, Phase.turn]
  · intro j w verdict' hj
    by_cases hjk : j = k
    · subst hjk
      obtain ⟨rfl, -⟩ : v = w ∧ verdict = verdict' := by simpa [Registry.answer] using hj
      exact hgrow v hpast
    · exact hgrow w (h.past j w verdict' (by simpa [Registry.answer, hjk] using hj))
  · intro j w hj
    by_cases hjk : j = k
    · subst hjk
      exact .inl List.mem_cons_self
    · exact (h.accepted j w (by simpa [Registry.answer, hjk] using hj)).imp_left (List.mem_cons_of_mem _)

theorem tree (h : s.Fair component visits t₀) {t : Ztree Data}
    (ht : t.node (aclPath component) = s.tree.node (aclPath component)) :
    Registry.Fair component visits t₀ { s with tree := t } := by
  have hrace : Registry.race { s with tree := t } component = s.race component := by
    simp only [Registry.race, listCell, ht]
  exact ⟨hrace ▸ h.race, h.past, h.accepted⟩

theorem commit_same (h : s.Fair component visits t₀) {t : Ztree Data}
    (ht : t.node (aclPath component) = s.tree.node (aclPath component)) :
    (s.commit component k t).Fair component visits t₀ := by
  rw [Registry.commit, if_pos ht]
  exact h.tree ht

theorem step (hv : ∀ k, (visits k).Claims component) (hne : component ≠ [])
    (hver : ∀ n, t₀.node (aclPath component) = some n → n.version < 2 ^ 31) {s' : Registry}
    (h : s.Fair component visits t₀) {a : Registry.Label} (hok : OnlyVisits component s a)
    (hs : s.step component visits a = some s') : s'.Fair component visits t₀ := by
  cases a with
  | look k =>
    simp only [Registry.step] at hs
    split at hs
    · rename_i hk
      cases hs
      rcases (hv k).look_cases hne s.tree with ⟨v, heq, hc⟩ | ⟨verdict, heq, hrej⟩
      · rw [heq]
        exact h.look hk hc
      · rw [heq]
        exact h.answer (by simp [hk, Phase.turn]) (by simp) (fun hacc => absurd hacc hrej)
    · cases hs
  | act k =>
    simp only [Registry.step] at hs
    split at hs
    · rename_i v hk
      cases hs
      have hturn : (s.phase k).turn ≠ .done := by simp [hk, Phase.turn]
      rcases (hv k).act_cases hne s.tree (h.version_lt hv hver hk) with
        ⟨-, d, hd, ha, hc⟩ | ⟨hsame, hacc⟩
      · exact h.commit hk hd ha hc
      · exact (h.commit_same hsame).answer hturn (fun w hw => by cases hw; exact hk)
          (fun hx => ⟨v, rfl, hacc hx⟩)
    · cases hs
  | lose k e =>
    simp only [Registry.step] at hs
    split at hs
    · rename_i v hk
      cases hs
      have hturn : (s.phase k).turn ≠ .done := by simp [hk, Phase.turn]
      rcases (hv k).act_cases hne s.tree (h.version_lt hv hver hk) with
        ⟨-, d, hd, ha, hc⟩ | ⟨hsame, -⟩
      · exact h.commit hk hd ha hc
      · exact (h.commit_same hsame).answer hturn (fun w hw => by cases hw; exact hk) (by simp)
    · cases hs
  | refuse k e =>
    simp only [Registry.step] at hs
    split at hs
    · rename_i hk
      cases hs
      exact h.answer (by simp [hk, Phase.turn]) (by simp) (by simp)
    · rename_i v hk
      cases hs
      exact h.answer (by simp [hk, Phase.turn]) (by simpa using hk) (by simp)
    · cases hs
  | other t =>
    cases hs
    exact h.tree hok

end Registry.Fair

/-- The list has no owners, or no node. -/
def Vacant (t : Ztree Data) (component : Str) : Prop :=
  unowned (listCell t component).value = true

theorem Visit.Granted.owned {r : Visit} {v : Versioned} (h : r.Granted v) :
    unowned v.cell.value = false := by
  obtain ⟨hthere, m, hm, he, -⟩ := h
  simp [Versioned.cell, hthere, Cell.value, unowned, serialize, unserialize, hm, he]

/-- The calls on a component without owners: as long as none of them has written, the list
is as it was and nobody is accepted; the first one to write is the only one, with its own
ids, and whoever else is accepted has read that list, which grants it. The version that is
there at first fits the 32 bits that a put compares, as ZooKeeper's versions do. -/
theorem ownership_claimed_once (hv : ∀ k, (visits k).Claims component) (hne : component ≠ [])
    (h0 : Vacant t₀ component)
    (hver : ∀ n, t₀.node (aclPath component) = some n → n.version < 2 ^ 31) {s : Registry}
    (hr : (registrySystem component visits t₀).Reachable (OnlyVisits component) s) :
    (s.writes = [] ∧ listCell s.tree component = listCell t₀ component ∧
      ∀ k v, s.phase k ≠ .answered v .accepted) ∨
    ∃ k, s.writes = [k] ∧ ∃ m, m.OwnedBy (visits k).identity ∧ Holds s.tree component m ∧
      ∀ j v, s.phase j = .answered v .accepted → j = k ∨
        ∃ w, v = some w ∧ w.value = m.toDyn ∧ m.allows (visits j).identity Flags.both = true := by
  have hf : s.Fair component visits t₀ := by
    refine hr.induct (P := Registry.Fair component visits t₀) ?_ fun hp hok hs =>
      hp.step hv hne hver hok hs
    rintro s rfl
    refine ⟨⟨_, rfl, ?_⟩, by simp, by simp⟩
    exact .refl
  -- What a call was granted by is not what was there at first.
  have hread : ∀ j w verdict, s.phase j = .answered (some w) verdict → (visits j).Granted w →
      ∃ k, k ∈ s.writes ∧
        w.value = (Metainfo.nobody.grant (visits k).identity).toDyn := by
    intro j w verdict hj hg
    obtain ⟨l, hl, hw⟩ := hf.past j w verdict hj
    rcases after_visits hv hw with ⟨-, hc⟩ | ⟨k, rfl, hc⟩
    · have hown := hg.owned
      rw [hc, h0] at hown
      cases hown
    · refine ⟨k, hl.subset List.mem_cons_self, ?_⟩
      simpa [Versioned.cell, hg.1, Cell.value, serialize] using hc
  rcases after_visits hv (Race.serial hf.race).after with ⟨hnil, hcell⟩ | ⟨k, hk, hval⟩
  · have hnil : s.writes = [] := hnil
    refine .inl ⟨hnil, hcell, fun j v hj => ?_⟩
    rcases hf.accepted j v hj with hmem | ⟨w, rfl, hg⟩
    · rw [hnil] at hmem
      cases hmem
    · obtain ⟨i, hi, -⟩ := hread j w .accepted hj hg
      rw [hnil] at hi
      cases hi
  · have hk : s.writes = [k] := hk
    refine .inr ⟨k, hk, Metainfo.nobody.grant (visits k).identity, Metainfo.grant_ownedBy rfl _, ?_, ?_⟩
    · obtain ⟨n, hn, hd⟩ : ∃ n, s.tree.node (aclPath component) = some n ∧
          n.data = serialize (Metainfo.nobody.grant (visits k).identity).toDyn := by
        simpa [Registry.race, listCell, Cell.value] using hval
      exact ⟨n, hn, hd⟩
    · intro j v hj
      rcases hf.accepted j v hj with hmem | ⟨w, rfl, hg⟩
      · rw [hk, List.mem_singleton] at hmem
        exact .inl hmem
      · obtain ⟨i, hi, hw⟩ := hread j w .accepted hj hg
        rw [hk, List.mem_singleton] at hi
        subst hi
        obtain ⟨-, m, hm, -, hallow⟩ := hg
        rw [hw, Metainfo.ofDyn_toDyn] at hm
        cases hm
        exact .inr ⟨w, rfl, hw, hallow⟩

end

/-- Every client writes to the same component. -/
def rivals (k : Nat) : Visit where
  event := .put
  path := "/p/x".toList
  identity := { cids := [.ofNat k] }

/-- Two clients read before either of them writes; the second one comes too late. -/
theorem ownership_claimed_once_rivals : ∃ s,
    (registrySystem "p".toList rivals (Ztree.single .raw)).Reachable (OnlyVisits "p".toList) s ∧
    s.phase 1 = .answered (some ⟨.null, -1⟩) .accepted ∧
    (∃ code, s.phase 2 = .answered (some ⟨.null, -1⟩) (.rejected code)) ∧
    ∃ m, m.OwnedBy (rivals 1).identity ∧ Holds s.tree "p".toList m := by
  obtain ⟨s, hr, h₁, h₂⟩ : ∃ s,
      (registrySystem "p".toList rivals (Ztree.single .raw)).Reachable (OnlyVisits "p".toList) s ∧
      s.phase 1 = .answered (some ⟨.null, -1⟩) .accepted ∧
      s.phase 2 = .answered (some ⟨.null, -1⟩) (.rejected .nodeExists) :=
    System.exists_reachable (registrySystem "p".toList rivals (Ztree.single .raw))
      (OnlyVisits "p".toList)
      [.look 1, .look 2, .act 1, .act 2] rfl (by decide +kernel)
  have hv : ∀ k, (rivals k).Claims "p".toList := fun _ => ⟨rfl, rfl, rfl⟩
  have h0 : Vacant (Ztree.single .raw) "p".toList := rfl
  have hver : ∀ n, (Ztree.single Data.raw).node (aclPath "p".toList) = some n → n.version < 2 ^ 31 := by
    rintro n ⟨⟩
  rcases ownership_claimed_once hv (by decide) h0 hver hr with
    ⟨-, -, hnone⟩ | ⟨k, -, m, hown, hm, hacc⟩
  · exact absurd h₁ (hnone 1 _)
  · rcases hacc 1 _ h₁ with rfl | ⟨w, hw, hval, -⟩
    · exact ⟨s, hr, h₁, ⟨_, h₂⟩, m, hown, hm⟩
    · cases hw
      cases hval

end Cocaine.Unicorn
