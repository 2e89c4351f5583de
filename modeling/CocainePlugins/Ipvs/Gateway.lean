import CocainePlugins.Framework.OrderedMap
import CocainePlugins.Framework.Transition
import CocainePlugins.Ipvs.Remote

/-!
# The ipvs gateway

The gateway has a remote for each service name, and the kernel has the destinations. A
call may throw anywhere among its kernel calls. `(*ptr)[name] = make_unique<remote_t>(…)`
may make the entry before the constructor throws, and leaves a null pointer then; and
`cleanup(uuid)` stops at the first remote that throws. `gateway_mirrors` says what every
run keeps, and which failures it must not have for the rest.
-/

namespace Cocaine.Ipvs

open Framework

structure Config where
  addresses : List Family
  cluster : Str
deriving DecidableEq, Repr

structure Gateway where
  /-- A null pointer is `none`. -/
  remotes : OrderedMap Str (Option Remote) := {}
  /-- The destinations of a service's virtual services in the kernel. -/
  kernel : Str → List Endpoint := fun _ => []
  /-- The uuid of the last call, if it was a `cleanup` of one, and the destinations that the
  kernel did not remove. -/
  cleaned : Option (Str × List (Str × Endpoint)) := none

namespace Gateway

variable (st : Gateway)

/-- A remote and its destinations after a call. -/
def set (name : Str) (r : Remote) (kernel : List Endpoint) : Gateway :=
  { st with
    remotes := st.remotes.put name (some r)
    kernel := Function.update st.kernel name kernel }

/-- What a `consume` finds: its cluster, whether a port can be assigned, what the kernel
refuses, and whether the entry is made before the remote. -/
structure Consumption where
  cluster : Str
  endpoints : List Endpoint
  assigned : Bool := true
  services : Nat → Bool := fun _ => false
  destinations : Nat → Bool := fun _ => false
  entryFirst : Bool := false

/-- `remote_t::remote_t`. -/
def construct (cfg : Config) (c : Consumption) : Option Remote :=
  let services := publish c.services 0 [] cfg.addresses
  if c.assigned && !services.isEmpty then some { services := services } else none

def insertInto (uuid name : Str) (r : Remote) (c : Consumption) : Gateway :=
  let p := r.insert uuid c.endpoints c.destinations (st.kernel name)
  st.set name p.1 p.2

/-- `ipvs_t::consume`; a null pointer that is dereferenced ends the process. -/
def consume (cfg : Config) (uuid name : Str) (c : Consumption) : Option Gateway :=
  if cfg.cluster ≠ c.cluster then some st
  else
    match st.remotes.get? name with
    | some (some r) => some (st.insertInto uuid name r c)
    | some none => none
    | none =>
      match construct cfg c with
      | some r => some (st.insertInto uuid name r c)
      | none => some (if c.entryFirst then { st with remotes := st.remotes.put name none } else st)

/-- `ipvs_t::cleanup(uuid, name)`. -/
def cleanupService (uuid name : Str) (refused : Endpoint → Bool) : Option Gateway :=
  match st.remotes.get? name with
  | some (some r) =>
    let p := r.remove uuid refused (st.kernel name)
    some (st.set name p.1 p.2.1)
  | some none => none
  | none => some st

/-- The loop of `ipvs_t::cleanup(uuid)` over the remotes, and the destination at which it
threw. -/
def cleanupLoop (uuid : Str) (refused : Str → Endpoint → Bool) (st : Gateway) :
    List Str → Option (Gateway × List (Str × Endpoint))
  | [] => some (st, [])
  | name :: names =>
    match st.remotes.get? name with
    | some (some r) =>
      match r.remove uuid (refused name) (st.kernel name) with
      | (r', kernel, some ep) => some (st.set name r' kernel, [(name, ep)])
      | (r', kernel, none) => cleanupLoop uuid refused (st.set name r' kernel) names
    | _ => none

def names : List Str := st.remotes.entries.map Prod.fst

def cleanup (uuid : Str) (refused : Str → Endpoint → Bool) : Option Gateway :=
  (cleanupLoop uuid refused st st.names).map fun p => { p.1 with cleaned := some (uuid, p.2) }

inductive Label where
  | consume (uuid name : Str) (c : Consumption)
  | cleanupService (uuid name : Str) (refused : Endpoint → Bool)
  | cleanup (uuid : Str) (refused : Str → Endpoint → Bool)

def step (cfg : Config) (st : Gateway) : Label → Option Gateway
  | .consume uuid name c => { st with cleaned := none }.consume cfg uuid name c
  | .cleanupService uuid name refused => { st with cleaned := none }.cleanupService uuid name refused
  | .cleanup uuid refused => st.cleanup uuid refused

/-- The backends that are recorded for a service. -/
def recorded (name : Str) : List (Str × Endpoint) :=
  match st.remotes.get? name with
  | some (some r) => r.backends
  | _ => []

end Gateway

/-- The gateway flushes the kernel's table before use. -/
def ipvsSystem (cfg : Config) : System Gateway Gateway.Label where
  init st := st = {}
  step := Gateway.step cfg

namespace Gateway

variable {cfg : Config} {st st' : Gateway} {a : Label} {name : Str}

/-! ## What a step does -/

inductive Stepped (cfg : Config) (st : Gateway) : Label → Gateway → Prop where
  /-- Another cluster, no remote, or none that can be made. -/
  | skips {a : Label} : Stepped cfg st a { st with cleaned := none }
  | inserts {uuid name : Str} {c : Consumption} {r : Remote} :
      st.remotes.get? name = some (some r) ∨ st.remotes.get? name = none ∧ r.backends = [] →
      Stepped cfg st (.consume uuid name c) ({ st with cleaned := none }.insertInto uuid name r c)
  | leavesNull {uuid name : Str} {c : Consumption} : st.remotes.get? name = none →
      construct cfg c = none → c.entryFirst = true →
      Stepped cfg st (.consume uuid name c)
        { st with remotes := st.remotes.put name none, cleaned := none }
  | removes {uuid name : Str} {refused : Endpoint → Bool} {r : Remote} :
      st.remotes.get? name = some (some r) →
      Stepped cfg st (.cleanupService uuid name refused)
        ({ st with cleaned := none }.set name (r.remove uuid refused (st.kernel name)).1
          (r.remove uuid refused (st.kernel name)).2.1)
  | cleans {uuid : Str} {refused : Str → Endpoint → Bool} {st' : Gateway}
      {left : List (Str × Endpoint)} : cleanupLoop uuid refused st st.names = some (st', left) →
      Stepped cfg st (.cleanup uuid refused) { st' with cleaned := some (uuid, left) }

variable {r : Remote}

theorem backends_construct {c : Consumption} (h : construct cfg c = some r) :
    r.backends = [] := by
  obtain ⟨-, rfl⟩ := of_guard h
  rfl

theorem stepped (h : st.step cfg a = some st') : Stepped cfg st a st' := by
  cases a with
  | consume uuid name c =>
    simp only [step, consume] at h
    split at h
    · cases h
      exact .skips
    split at h
    · cases h
      exact .inserts (.inl ‹_›)
    · cases h
    · rename_i hname
      split at h
      · rename_i r hr
        cases h
        exact .inserts (.inr ⟨hname, backends_construct hr⟩)
      · rename_i hr
        cases h
        split
        · exact .leavesNull hname hr ‹_›
        · exact .skips
  | cleanupService uuid name refused =>
    simp only [step, cleanupService] at h
    split at h
    · cases h
      exact .removes ‹_›
    · cases h
    · cases h
      exact .skips
  | cleanup uuid refused =>
    simp only [step, cleanup] at h
    obtain ⟨⟨st', left⟩, hloop, rfl⟩ := Option.map_eq_some_iff.mp h
    exact .cleans hloop

variable {refused : Str → Endpoint → Bool} {left : List (Str × Endpoint)} {uuid : Str}

/-- What the removal in each visited remote keeps, the loop keeps; `P` may speak of the
remotes that are still to visit, of which there are none after a removal that throws. -/
theorem cleanupLoop_induct {names : List Str} {P : Gateway → List Str → Prop} (h0 : P st names)
    (hs : ∀ st name names r, P st (name :: names) → st.remotes.get? name = some (some r) →
      let p := r.remove uuid (refused name) (st.kernel name)
      P (st.set name p.1 p.2.1) (if p.2.2 = none then names else []))
    (hloop : cleanupLoop uuid refused st names = some (st', left)) : ∃ rest, P st' rest := by
  induction names generalizing st with
  | nil =>
    cases hloop
    exact ⟨[], h0⟩
  | cons name names ih =>
    simp only [cleanupLoop] at hloop
    split at hloop
    · rename_i r hr
      have hset := hs st name names r h0 hr
      split at hloop
      · rename_i hremove
        rw [hremove] at hset
        cases hloop
        exact ⟨_, hset⟩
      · rename_i hremove
        rw [hremove] at hset
        exact ih hset hloop
    · cases hloop

/-! ## The kernel and the records -/

theorem recorded_of_get? (h : st.remotes.get? name = some (some r)) :
    st.recorded name = r.backends := by
  rw [recorded, h]

theorem recorded_of_none (h : st.remotes.get? name = none) : st.recorded name = [] := by
  rw [recorded, h]

variable {kernel : List Endpoint}

theorem get?_set (n : Str) :
    (st.set name r kernel).remotes.get? n =
      if n = name then some (some r) else st.remotes.get? n :=
  (OrderedMap.get?_put n).trans (ite_congr rfl (fun _ => rfl) (fun _ => rfl))

theorem recorded_set (n : Str) :
    (st.set name r kernel).recorded n = if n = name then r.backends else st.recorded n := by
  unfold recorded
  rw [get?_set]
  by_cases hn : n = name <;> simp [hn]

theorem kernel_set (n : Str) :
    (st.set name r kernel).kernel n = if n = name then kernel else st.kernel n :=
  Function.update_apply ..

/-- The kernel has the destinations that are recorded, for each service. -/
def Mirror (st : Gateway) : Prop :=
  ∀ name, (st.kernel name).Nodup ∧ (st.kernel name).Perm ((st.recorded name).map Prod.snd)

theorem Mirror.mirrors (h : Mirror st) (hr : r.backends = st.recorded name) :
    r.Mirrors (st.kernel name) :=
  ⟨(h name).1, hr ▸ (h name).2⟩

theorem Mirror.set (h : Mirror st) (hr : r.Mirrors kernel) :
    Mirror (st.set name r kernel) := by
  intro n
  rw [recorded_set, kernel_set]
  by_cases hn : n = name
  · rw [if_pos hn, if_pos hn]
    exact ⟨hr.nodup, hr.perm⟩
  · rw [if_neg hn, if_neg hn]
    exact h n

/-- In each removal of the call: if the kernel removes the first destination, it removes
all. A `cleanup` comes to a remote if those before it throw nothing. -/
def Whole (st : Gateway) : Label → Prop
  | .cleanupService uuid name refused =>
    ∀ r, st.remotes.get? name = some (some r) → r.Whole uuid refused
  | .cleanup uuid refused =>
    ∀ e ∈ st.remotes.entries, ∀ r, e.2 = some r →
      (∀ e' ∈ st.remotes.entries, e'.1 < e.1 → ∀ r', e'.2 = some r' →
        r'.Clears uuid (refused e'.1)) → r.Whole uuid (refused e.1)
  | _ => True

theorem Mirror.remove (h : Mirror st) {refused : Endpoint → Bool}
    (hr : st.remotes.get? name = some (some r)) (hw : r.Whole uuid refused) :
    Mirror (st.set name (r.remove uuid refused (st.kernel name)).1
      (r.remove uuid refused (st.kernel name)).2.1) := by
  have hmirrors := h.mirrors (recorded_of_get? hr).symm
  have hremoved := hmirrors.remove hw
  generalize r.remove uuid refused (st.kernel name) = p at hremoved ⊢
  cases hremoved with
  | fails => exact h.set hmirrors
  | removes _ hnew => exact h.set hnew

/-- What the loop of `cleanup` needs of the remotes it has to visit, with their names in
order: the removals that it comes to do all or nothing. -/
def Visits (uuid : Str) (refused : Str → Endpoint → Bool) (st : Gateway) (names : List Str) : Prop :=
  ∀ name ∈ names, ∀ r, st.remotes.get? name = some (some r) →
    (∀ name' ∈ names, name' < name → ∀ r', st.remotes.get? name' = some (some r') →
      r'.Clears uuid (refused name')) → r.Whole uuid (refused name)

section Visits

variable {uuid : Str} {refused : Str → Endpoint → Bool} {names : List Str} {r : Remote}

theorem Visits.head (h : Visits uuid refused st (name :: names)) (hlt : ∀ n ∈ names, name < n)
    (hr : st.remotes.get? name = some (some r)) : r.Whole uuid (refused name) := by
  refine h name List.mem_cons_self r hr fun n hmem hn => ?_
  rcases List.mem_cons.mp hmem with rfl | hmem
  · exact absurd hn (lt_irrefl n)
  · exact absurd hn (hlt n hmem).not_gt

theorem Visits.tail (h : Visits uuid refused st (name :: names)) (hlt : ∀ n ∈ names, name < n)
    (hr : st.remotes.get? name = some (some r)) (hc : r.Clears uuid (refused name)) (r' : Remote)
    (kernel : List Endpoint) : Visits uuid refused (st.set name r' kernel) names := by
  have hget : ∀ n ∈ names, (st.set name r' kernel).remotes.get? n = st.remotes.get? n := by
    intro n hmem
    rw [get?_set, if_neg (hlt n hmem).ne']
  intro n hmem q hq hbefore
  rw [hget n hmem] at hq
  refine h n (List.mem_cons_of_mem _ hmem) q hq fun n' hmem' hn' q' hq' => ?_
  rcases List.mem_cons.mp hmem' with rfl | hmem'
  · rw [hr] at hq'
    cases hq'
    exact hc
  · exact hbefore n' hmem' hn' q' ((hget n' hmem').trans hq')

theorem Mirror.cleanupLoop (h : Mirror st)
    (hsorted : names.Pairwise (· < ·)) (hv : Visits uuid refused st names)
    (hloop : cleanupLoop uuid refused st names = some (st', left)) : Mirror st' := by
  have hkept := cleanupLoop_induct
    (P := fun st names => Mirror st ∧ names.Pairwise (· < ·) ∧ Visits uuid refused st names)
    ⟨h, hsorted, hv⟩ (fun st name names r ⟨hm, hsorted, hv⟩ hr => by
      obtain ⟨hlt, hsorted⟩ := List.pairwise_cons.mp hsorted
      have hw := hv.head hlt hr
      refine ⟨hm.remove hr hw, ?_⟩
      have hremoved := (hm.mirrors (recorded_of_get? hr).symm).remove hw
      generalize r.remove uuid (refused name) (st.kernel name) = p at hremoved ⊢
      cases hremoved with
      | fails => exact ⟨List.Pairwise.nil, nofun⟩
      | removes hc => exact ⟨hsorted, hv.tail hlt hr hc _ _⟩) hloop
  obtain ⟨_, hm, -⟩ := hkept
  exact hm

end Visits

theorem names_sorted (st : Gateway) : st.names.Pairwise (· < ·) :=
  List.pairwise_map.mpr st.remotes.sorted

theorem mem_entries {v : Option Remote} (h : st.remotes.get? name = some v) :
    (name, v) ∈ st.remotes.entries :=
  OrderedMap.get?_eq_some.mp h

theorem visits_of_whole (h : Whole st (.cleanup uuid refused)) :
    Visits uuid refused st st.names := by
  intro name _ r hr hbefore
  refine h (name, some r) (mem_entries hr) r rfl fun e' he' hlt r' hr' => ?_
  refine hbefore e'.1 (List.mem_map_of_mem he') hlt r' ?_
  rw [← hr']
  exact OrderedMap.get?_eq_some.mpr he'

theorem Mirror.step (hm : Mirror st) (hok : Whole st a) (h : Stepped cfg st a st') : Mirror st' := by
  have hm' : Mirror { st with cleaned := none } := hm
  cases h with
  | skips => exact hm
  | @inserts uuid name c r hr =>
    have hrecorded : r.backends = st.recorded name := by
      rcases hr with hr | ⟨hnone, hnew⟩
      · exact (recorded_of_get? hr).symm
      · rw [hnew, recorded_of_none hnone]
    exact hm'.set ((hm'.mirrors hrecorded).insert c.endpoints c.destinations)
  | @leavesNull uuid name c hnone =>
    intro n
    have hrecorded : recorded { st with remotes := st.remotes.put name none, cleaned := none } n =
        st.recorded n := by
      by_cases hn : n = name
      · rw [hn, recorded_of_none hnone, recorded, OrderedMap.get?_put, if_pos rfl]
      · rw [recorded, OrderedMap.get?_put, if_neg hn, recorded]
    rw [hrecorded]
    exact hm n
  | removes hr => exact hm'.remove hr (hok _ hr)
  | cleans hloop =>
    have hloop' := hm.cleanupLoop st.names_sorted (visits_of_whole hok) hloop
    exact hloop'

/-! ## Null pointers -/

/-- The entry is not made before a remote that cannot be. -/
def Built (cfg : Config) (_ : Gateway) : Label → Prop
  | .consume _ _ c => c.entryFirst = true → construct cfg c ≠ none
  | _ => True

def NoNull (st : Gateway) : Prop := ∀ name, st.remotes.get? name ≠ some none

theorem NoNull.set (h : NoNull st) (name : Str) (r : Remote) (kernel : List Endpoint) :
    NoNull (st.set name r kernel) := by
  intro n
  rw [get?_set]
  split
  · exact nofun
  · exact h n

theorem NoNull.cleanupLoop {names : List Str} (h : NoNull st)
    (hloop : cleanupLoop uuid refused st names = some (st', left)) : NoNull st' := by
  obtain ⟨_, hn⟩ := cleanupLoop_induct (P := fun st _ => NoNull st) h
    (fun _ _ _ _ hn _ => hn.set _ _ _) hloop
  exact hn

theorem NoNull.step (hn : NoNull st) (hok : Built cfg st a) (h : Stepped cfg st a st') :
    NoNull st' := by
  have hn' : NoNull { st with cleaned := none } := hn
  cases h with
  | skips => exact hn
  | inserts => exact hn'.set _ _ _
  | leavesNull _ hnone hfirst => exact absurd hnone (hok hfirst)
  | removes => exact hn'.set _ _ _
  | cleans hloop =>
    have hloop' := hn.cleanupLoop hloop
    exact hloop'

/-! ## Whole cleanups -/

/-- A destination that the kernel does not remove is the only one of the uuid in its
remote, and the remotes after it have none. -/
def Last (st : Gateway) : Label → Prop
  | .cleanup uuid refused => ∀ e ∈ st.remotes.entries, ∀ r, e.2 = some r →
    ∀ ep ∈ r.destinations uuid, refused e.1 ep = true → r.destinations uuid = [ep] ∧
      ∀ e' ∈ st.remotes.entries, e.1 < e'.1 → ∀ r', e'.2 = some r' → r'.destinations uuid = []
  | _ => True

/-- After a `cleanup` of a uuid only the destinations are recorded for it that the kernel
did not remove. -/
def Cleaned (st : Gateway) : Prop :=
  ∀ uuid left, st.cleaned = some (uuid, left) → ∀ name ep, (uuid, ep) ∈ st.recorded name →
    (name, ep) ∈ left

section Loop

variable {uuid : Str} {refused : Str → Endpoint → Bool} {names : List Str}
  {left : List (Str × Endpoint)}

theorem recorded_cleanupLoop (hn : name ∉ names)
    (hloop : cleanupLoop uuid refused st names = some (st', left)) :
    st'.recorded name = st.recorded name := by
  have hkept := cleanupLoop_induct
    (P := fun st' names => name ∉ names ∧ st'.recorded name = st.recorded name) ⟨hn, rfl⟩
    (fun st' first names r ⟨hn, heq⟩ _ => by
      dsimp only
      rw [recorded_set, if_neg (List.ne_of_not_mem_cons hn)]
      refine ⟨?_, heq⟩
      split
      · exact List.not_mem_of_not_mem_cons hn
      · exact List.not_mem_nil) hloop
  obtain ⟨_, -, heq⟩ := hkept
  exact heq

/-- What the loop needs of the remotes it has to visit for `Last`. -/
def Ends (uuid : Str) (refused : Str → Endpoint → Bool) (st : Gateway) (names : List Str) : Prop :=
  ∀ name ∈ names, ∀ r, st.remotes.get? name = some (some r) →
    ∀ ep ∈ r.destinations uuid, refused name ep = true → r.destinations uuid = [ep] ∧
      ∀ name' ∈ names, name < name' → ∀ ep', (uuid, ep') ∉ st.recorded name'

theorem Ends.set (h : Ends uuid refused st (name :: names)) (hn : name ∉ names) (r : Remote)
    (kernel : List Endpoint) : Ends uuid refused (st.set name r kernel) names := by
  have hne : ∀ n ∈ names, n ≠ name := fun n hmem heq => hn (heq ▸ hmem)
  intro n hmem r' hr' ep hep hrefused
  rw [get?_set, if_neg (hne n hmem)] at hr'
  obtain ⟨honly, hafter⟩ := h n (List.mem_cons_of_mem _ hmem) r' hr' ep hep hrefused
  refine ⟨honly, fun n' hmem' hlt ep' => ?_⟩
  rw [recorded_set, if_neg (hne n' hmem')]
  exact hafter n' (List.mem_cons_of_mem _ hmem') hlt ep'

theorem mem_left (h : Mirror st) (hsorted : names.Pairwise (· < ·))
    (hv : Visits uuid refused st names) (he : Ends uuid refused st names)
    (hloop : cleanupLoop uuid refused st names = some (st', left)) {ep : Endpoint}
    (hname : name ∈ names) (hep : (uuid, ep) ∈ st'.recorded name) : (name, ep) ∈ left := by
  induction names generalizing st with
  | nil => cases hname
  | cons first names ih =>
    obtain ⟨hlt, hsorted⟩ := List.pairwise_cons.mp hsorted
    have hn : first ∉ names := fun hmem => lt_irrefl first (hlt first hmem)
    simp only [cleanupLoop] at hloop
    split at hloop
    · rename_i r hr
      have hset := h.remove hr (hv.head hlt hr)
      have hremoved := (h.mirrors (recorded_of_get? hr).symm).remove (hv.head hlt hr)
      split at hloop
      · -- the kernel did not remove the only destination, and nothing is left behind it
        rename_i r' kernel' ep' hremove
        rw [hremove] at hremoved
        cases hloop
        cases hremoved with
        | fails hmem hrefused =>
          obtain ⟨honly, hafter⟩ := he first List.mem_cons_self r hr ep' hmem hrefused
          rw [recorded_set] at hep
          by_cases heq : name = first
          · rw [if_pos heq, ← Remote.mem_destinations, honly] at hep
            rw [heq, List.mem_singleton.mp hep]
            exact List.mem_singleton_self _
          · rw [if_neg heq] at hep
            have hmem' := (List.mem_cons.mp hname).resolve_left heq
            exact absurd hep (hafter name hname (hlt name hmem') ep)
      · rename_i r' kernel' hremove
        rw [hremove] at hset hremoved
        cases hremoved with
        | removes hc =>
          by_cases heq : name = first
          · rw [heq, recorded_cleanupLoop hn hloop, recorded_set, if_pos rfl] at hep
            simp at hep
          · have hmem := (List.mem_cons.mp hname).resolve_left heq
            exact ih hset hsorted (hv.tail hlt hr hc _ _) (he.set hn _ _) hloop hmem
    · cases hloop

end Loop

theorem mem_names {v : Option Remote} (h : st.remotes.get? name = some v) : name ∈ st.names :=
  List.mem_map_of_mem (mem_entries h)

theorem get?_of_mem_recorded {b : Str × Endpoint} (h : b ∈ st.recorded name) :
    ∃ r, st.remotes.get? name = some (some r) ∧ b ∈ r.backends := by
  unfold recorded at h
  split at h
  · exact ⟨_, ‹_›, h⟩
  · cases h

theorem Last.ends (h : Last st (.cleanup uuid refused)) : Ends uuid refused st st.names := by
  intro name _ r hr ep hep hrefused
  obtain ⟨honly, hafter⟩ := h (name, some r) (mem_entries hr) r rfl ep hep hrefused
  refine ⟨honly, fun name' _ hlt ep' hmem => ?_⟩
  obtain ⟨r', hr', hb⟩ := get?_of_mem_recorded hmem
  have hnil := hafter (name', some r') (mem_entries hr') hlt r' rfl
  have hmem' := Remote.mem_destinations.mpr hb
  rw [hnil] at hmem'
  cases hmem'

theorem Cleaned.step (hm : Mirror st) (hok : Whole st a ∧ Last st a) (h : Stepped cfg st a st') :
    Cleaned st' := by
  cases h with
  | skips | inserts | leavesNull | removes => exact nofun
  | @cleans uuid refused st₁ left hloop =>
    obtain ⟨hwhole, hlast⟩ := hok
    intro uuid' left' heq name ep hep
    cases heq
    have hep : (uuid, ep) ∈ st₁.recorded name := hep
    have hname : name ∈ st.names := by
      -- a remote that the loop does not visit is as it was, and there is none
      by_contra hn
      rw [recorded_cleanupLoop hn hloop] at hep
      obtain ⟨r, hr, -⟩ := get?_of_mem_recorded hep
      exact hn (mem_names hr)
    exact mem_left hm st.names_sorted (visits_of_whole hwhole) hlast.ends hloop hname hep

/-! ## Runs -/

theorem Mirror.init : Mirror {} := fun _ => ⟨List.nodup_nil, List.Perm.nil⟩

theorem Mirror.of_reachable (hr : (ipvsSystem cfg).Reachable Whole st) : Mirror st := by
  refine hr.induct ?_ fun hm hok hs => hm.step hok (stepped hs)
  rintro _ rfl
  exact .init

theorem NoNull.of_reachable (hr : (ipvsSystem cfg).Reachable (Built cfg) st) : NoNull st := by
  refine hr.induct ?_ fun hn hok hs => hn.step hok (stepped hs)
  rintro _ rfl
  exact nofun

theorem Cleaned.of_reachable
    (hr : (ipvsSystem cfg).Reachable (fun st a => Whole st a ∧ Last st a) st) : Cleaned st := by
  have h : Mirror st ∧ Cleaned st := by
    refine hr.induct (P := fun st => Mirror st ∧ Cleaned st) ?_ fun ⟨hm, _⟩ hok hs => ?_
    · rintro _ rfl
      exact ⟨.init, nofun⟩
    · exact ⟨hm.step hok.1 (stepped hs), .step hm hok (stepped hs)⟩
  exact h.2

/-- In every run whose removals do all or nothing, the kernel has the destinations that are
recorded, for each service. No remote is null in a run that does not make an entry for a
remote that cannot be made. And if what the kernel does not remove is also the last that
a `cleanup` has to remove, then only that is recorded for its uuid. -/
theorem gateway_mirrors (cfg : Config) (st : Gateway) :
    ((ipvsSystem cfg).Reachable Whole st → ∀ name ep,
      ep ∈ st.kernel name ↔ ∃ uuid, (uuid, ep) ∈ st.recorded name) ∧
    ((ipvsSystem cfg).Reachable (Built cfg) st → ∀ name, st.remotes.get? name ≠ some none) ∧
    ((ipvsSystem cfg).Reachable (fun st a => Whole st a ∧ Last st a) st → ∀ uuid left,
      st.cleaned = some (uuid, left) → ∀ name ep, (uuid, ep) ∈ st.recorded name →
        (name, ep) ∈ left) := by
  refine ⟨fun hw name ep => ?_, fun hb => NoNull.of_reachable hb, fun hl => Cleaned.of_reachable hl⟩
  rw [((Mirror.of_reachable hw) name).2.mem_iff, List.mem_map]
  constructor
  · rintro ⟨⟨uuid, ep⟩, hb, rfl⟩
    exact ⟨uuid, hb⟩
  · rintro ⟨uuid, hb⟩
    exact ⟨(uuid, ep), hb, rfl⟩

section Runs

instance (r : Remote) (uuid : Str) (refused : Endpoint → Bool) :
    Decidable (r.Whole uuid refused) := by
  unfold Remote.Whole
  infer_instance

instance (r : Remote) (uuid : Str) (refused : Endpoint → Bool) :
    Decidable (r.Clears uuid refused) := by
  unfold Remote.Clears
  infer_instance

instance (st : Gateway) (name : Str) (P : Remote → Prop) [DecidablePred P] :
    Decidable (∀ r, st.remotes.get? name = some (some r) → P r) :=
  decidable_of_iff (∀ r ∈ (st.remotes.get? name).join, P r) (by simp [Option.join_eq_some_iff])

instance (st : Gateway) (a : Label) : Decidable (Whole st a) := by
  unfold Whole
  cases a <;> infer_instance

instance (cfg : Config) (st : Gateway) (a : Label) : Decidable (Built cfg st a) := by
  unfold Built
  cases a <;> infer_instance

instance (st : Gateway) (a : Label) : Decidable (Last st a) := by
  unfold Last
  cases a <;> infer_instance

/-- A gateway with an address of each family. -/
def both : Config where
  addresses := [.inet, .inet6]
  cluster := []

def endpoints (address : Nat) : List Endpoint := [⟨.inet, address, 80⟩, ⟨.inet6, address, 80⟩]

/-- The service `a` and the service `b` of a uuid, and the service `b` of another. The
kernel does not remove the last destination of the first uuid. -/
theorem gateway_mirrors_refused : ∃ st : Gateway,
    st.cleaned = some (['u'], [(['b'], ⟨.inet, 1, 80⟩)]) ∧ st.recorded ['a'] = [] ∧
    st.recorded ['b'] =
      [(['u'], ⟨.inet, 1, 80⟩), (['v'], ⟨.inet, 2, 80⟩), (['v'], ⟨.inet6, 2, 80⟩)] ∧
    (∀ ep, ep ∈ st.kernel ['b'] ↔ ∃ uuid, (uuid, ep) ∈ st.recorded ['b']) ∧
    st.remotes.get? ['b'] ≠ some none ∧
    ∀ name ep, (['u'], ep) ∈ st.recorded name →
      (name, ep) ∈ [(['b'], (⟨.inet, 1, 80⟩ : Endpoint))] := by
  obtain ⟨st, hr, hcleaned, ha, hb⟩ := (ipvsSystem both).exists_reachable
    (fun st a => (Whole st a ∧ Last st a) ∧ Built both st a)
    (P := fun st => st.cleaned = some (['u'], [(['b'], ⟨.inet, 1, 80⟩)]) ∧
      st.recorded ['a'] = [] ∧ st.recorded ['b'] =
        [(['u'], ⟨.inet, 1, 80⟩), (['v'], ⟨.inet, 2, 80⟩), (['v'], ⟨.inet6, 2, 80⟩)])
    [.consume ['u'] ['a'] { cluster := [], endpoints := endpoints 1 },
      .consume ['u'] ['b'] { cluster := [], endpoints := endpoints 1, destinations := (· = 1) },
      .consume ['v'] ['b'] { cluster := [], endpoints := endpoints 2 },
      .cleanup ['u'] fun name _ => name = ['b']] rfl (by decide +kernel)
  obtain ⟨hmirror, hnull, hlast⟩ := gateway_mirrors both st
  refine ⟨st, hcleaned, ha, hb, ?_, ?_, ?_⟩
  · exact hmirror (hr.mono fun _ _ h => h.1.1) ['b']
  · exact hnull (hr.mono fun _ _ h => h.2) ['b']
  · exact hlast (hr.mono fun _ _ h => h.1) _ _ hcleaned

/-- The kernel removes the first destination of a backend and not the second: the first
stays recorded. No port can be assigned for a new remote, whose entry has been made: it
stays, and is null. And the kernel does not remove a destination of `a`: `cleanup` leaves
the one of `b`. -/
theorem gateway_departs :
    (∃ st, (ipvsSystem both).Reachable System.Any st ∧
      (['u'], ⟨.inet, 1, 80⟩) ∈ st.recorded ['a'] ∧ ⟨.inet, 1, 80⟩ ∉ st.kernel ['a']) ∧
    (∃ st, (ipvsSystem both).Reachable System.Any st ∧ st.remotes.get? ['a'] = some none) ∧
    ∃ st, (ipvsSystem both).Reachable System.Any st ∧
      st.cleaned = some (['u'], [(['a'], ⟨.inet, 1, 80⟩)]) ∧
      (['u'], ⟨.inet, 1, 80⟩) ∈ st.recorded ['b'] := by
  refine ⟨?_, ?_, ?_⟩
  · exact (ipvsSystem both).exists_reachable System.Any
      [.consume ['u'] ['a'] { cluster := [], endpoints := endpoints 1 },
        .cleanupService ['u'] ['a'] fun ep => ep.family = .inet6] rfl (by decide +kernel)
  · exact (ipvsSystem both).exists_reachable System.Any
      [.consume ['u'] ['a']
        { cluster := [], endpoints := endpoints 1, assigned := false, entryFirst := true }] rfl
      (by decide +kernel)
  · exact (ipvsSystem both).exists_reachable System.Any
      [.consume ['u'] ['a'] { cluster := [], endpoints := endpoints 1 },
        .consume ['u'] ['b'] { cluster := [], endpoints := endpoints 1 },
        .cleanup ['u'] fun name _ => name = ['a']] rfl (by decide +kernel)

end Runs

end Gateway

end Cocaine.Ipvs
