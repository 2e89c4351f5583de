import Mathlib.Data.List.Nodup
import CocainePlugins.Node.Engine.Capacity

/-!
# Where an accepted request is

An accepted request is in the queue, in one channel of one slave, or finished:
it expired, or its channel was closed or dropped. `Ledger` accounts for it: the
accepted requests are, in some order, those of the queue, the expired ones and
those that ever got a channel. A request gets its channel and leaves the queue
in one move, except when `attach` throws after the registration: then the same
request is in both.
-/

namespace Cocaine.Node.Engine

open Framework Slave

/-- Where a request may be. -/
inductive Whereabouts where
  | queued
  | served (slave chan : Nat)
  | finished
deriving DecidableEq, Repr

def located (st : Engine) (e : Nat) : Whereabouts → Prop
  | .queued => e ∈ st.queue
  | .served i c => (e, i, c) ∈ st.placed ∧ c ∈ (st.machine i).channels
  | .finished => e ∈ st.expired ∨ ∃ i c, (e, i, c) ∈ st.placed ∧ c ∉ (st.machine i).channels

structure Ledger (st : Engine) : Prop where
  fresh : ∀ e ∈ st.admitted, e < st.arrived
  nodup : st.admitted.Nodup
  perm : st.admitted.Perm (st.queue ++ (st.expired ++ st.placed.map Prod.fst))
  /-- Every channel of a map was registered for a request. -/
  known : ∀ i, ∀ c ∈ (st.machine i).channels, (i, c) ∈ st.placed.map Prod.snd
  numbered : ∀ p ∈ st.placed, p.2.1 < st.born ∧ p.2.2 ≤ (st.machine p.2.1).counter
  distinct : (st.placed.map Prod.snd).Nodup

namespace Ledger

variable {st st' : Engine}

/-- No request moves; channels are closed and numbers grow. -/
theorem keep (h : Ledger st) (ha : st'.admitted = st.admitted) (hn : st.arrived ≤ st'.arrived)
    (hq : st'.queue = st.queue) (he : st'.expired = st.expired) (hp : st'.placed = st.placed)
    (hb : st.born ≤ st'.born) (hc : ∀ i, (st'.machine i).channels ⊆ (st.machine i).channels)
    (hk : ∀ i < st.born, (st.machine i).counter ≤ (st'.machine i).counter) : Ledger st' where
  fresh e hea := by
    rw [ha] at hea
    exact Nat.lt_of_lt_of_le (h.fresh e hea) hn
  nodup := by rw [ha]; exact h.nodup
  perm := by rw [ha, hq, he, hp]; exact h.perm
  known i c hci := by
    rw [hp]
    exact h.known i c (hc i hci)
  numbered p hpp := by
    rw [hp] at hpp
    obtain ⟨h₁, h₂⟩ := h.numbered p hpp
    exact ⟨Nat.lt_of_lt_of_le h₁ hb, Nat.le_trans h₂ (hk _ h₁)⟩
  distinct := by rw [hp]; exact h.distinct

theorem act (h : Ledger st) (ha : st'.admitted = st.admitted) (hn : st'.arrived = st.arrived)
    (hq : st'.queue = st.queue) (he : st'.expired = st.expired) (hp : st'.placed = st.placed)
    (hb : st'.born = st.born) {i : Nat} {a : Slave.Act} (hr : ∀ c, a ≠ .register c)
    (hm : ∀ j, st'.machine j = if j = i then (st.machine i).effect a else st.machine j) :
    Ledger st' := by
  refine h.keep ha (Nat.le_of_eq hn.symm) hq he hp (Nat.le_of_eq hb.symm) (fun j => ?_) fun j _ => ?_
  · rw [hm]
    split
    · rename_i hji
      rw [hji]
      exact (Machine.channels_effect hr).subset
    · exact List.Subset.refl _
  · rw [hm]
    split
    · rename_i hji
      rw [hji]
      exact Machine.counter_effect
    · exact Nat.le_refl _

theorem perform (h : Ledger st) (i : Nat) {a : Slave.Act} (hr : ∀ c, a ≠ .register c) :
    Ledger (st.perform i a) :=
  h.act rfl rfl rfl rfl rfl rfl hr (machine_perform st i · a)

/-- The head of the queue gets a channel that no request had. -/
theorem place (h : Ledger st) {i e : Nat} {q : List Nat} (hq : st.queue = e :: q) (hi : i < st.born) :
    Ledger (({ st with queue := q } : Engine).place i e) where
  fresh := h.fresh
  nodup := h.nodup
  perm := by
    have hp := h.perm
    rw [hq, List.cons_append] at hp
    show st.admitted.Perm (q ++ (st.expired ++ e :: st.placed.map Prod.fst))
    refine hp.trans ?_
    rw [← List.append_assoc, ← List.append_assoc]
    exact List.perm_middle.symm
  known j c hc := by
    rw [machine_place] at hc
    show (j, c) ∈ (i, (st.machine i).counter + 1) :: st.placed.map Prod.snd
    split at hc
    · rename_i hji
      subst hji
      by_cases hcc : c = (st.machine j).counter + 1
      · rw [hcc]
        exact List.mem_cons_self
      · refine List.mem_cons_of_mem _ (h.known j c ?_)
        have hc' : c ∈ if (st.machine j).counter + 1 ∈ (st.machine j).channels then
            (st.machine j).channels else ((st.machine j).counter + 1) :: (st.machine j).channels := hc
        split at hc'
        · exact hc'
        · exact (List.mem_cons.mp hc').resolve_left hcc
    · exact List.mem_cons_of_mem _ (h.known j c hc)
  numbered p hp := by
    have hk : ∀ j, (st.machine j).counter ≤
        ((({ st with queue := q } : Engine).place i e).machine j).counter := by
      intro j
      rw [machine_place]
      split
      · rename_i hji
        subst hji
        exact Nat.le_succ _
      · exact Nat.le_refl _
    rcases List.mem_cons.mp hp with rfl | hp
    · refine ⟨hi, ?_⟩
      show (st.machine i).counter + 1 ≤ ((({ st with queue := q } : Engine).place i e).machine i).counter
      rw [machine_place, if_pos rfl]
      exact Nat.le_refl _
    · obtain ⟨h₁, h₂⟩ := h.numbered p hp
      exact ⟨h₁, Nat.le_trans h₂ (hk _)⟩
  distinct := by
    refine List.nodup_cons.mpr ⟨fun hmem => ?_, h.distinct⟩
    obtain ⟨p, hp, heq⟩ := List.mem_map.mp hmem
    have hle := (h.numbered p hp).2
    rw [heq] at hle
    exact Nat.lt_irrefl _ hle

theorem drop (h : Ledger st) {e : Nat} {q : List Nat} (hq : st.queue = e :: q)
    (w : List (Nat × Msg)) :
    Ledger { st with queue := q, expired := e :: st.expired, wire := w } where
  fresh := h.fresh
  nodup := h.nodup
  perm := by
    have hp := h.perm
    rw [hq, List.cons_append] at hp
    exact hp.trans List.perm_middle.symm
  known := h.known
  numbered := h.numbered
  distinct := h.distinct

theorem accept (h : Ledger st) (ev : Event) : Ledger (st.arrive ev).push where
  fresh e he := by
    rcases List.mem_cons.mp he with rfl | he
    · exact Nat.lt_succ_self _
    · exact Nat.lt_succ_of_lt (h.fresh e he)
  nodup := List.nodup_cons.mpr ⟨fun hm => Nat.lt_irrefl _ (h.fresh _ hm), h.nodup⟩
  perm := by
    show (st.arrived :: st.admitted).Perm
      ((st.queue ++ [st.arrived]) ++ (st.expired ++ st.placed.map Prod.fst))
    rw [List.append_assoc, List.singleton_append]
    exact (h.perm.cons _).trans List.perm_middle.symm
  known := h.known
  numbered := h.numbered
  distinct := h.distinct

theorem spawn (h : Ledger st) : Ledger st.spawn := by
  refine h.keep rfl (Nat.le_refl _) rfl rfl rfl (Nat.le_succ _) (fun i => ?_) fun i hi => ?_
  · rw [machine_spawn]
    split
    · exact List.nil_subset _
    · exact List.Subset.refl _
  · rw [machine_spawn, if_neg (Nat.ne_of_lt hi)]

theorem move (h : Ledger st) (hpl : Pooled st) (hm : Move anchored st st') : Ledger st' := by
  obtain ⟨h1, h2, h3, h4, h5, h6⟩ := id h
  cases hm with
  | flow hf =>
    cases hf with
    | slave hq =>
      refine h.perform _ fun c hc => ?_
      rw [hc] at hq
      cases hq
    | _ => exact ⟨h1, h2, h3, h4, h5, h6⟩
  | attempt | leak =>
    exact h.act rfl rfl rfl rfl rfl rfl (a := .newChannel) (by simp) (machine_attempt st _ _ · _)
  | misplace hf => exact absurd rfl hf
  | place hq hi => exact h.place hq (hpl.lt _ hi)
  | drop hq => exact h.drop hq _
  | arrive | refuse => exact ⟨fun e he => Nat.lt_succ_of_lt (h1 e he), h2, h3, h4, h5, h6⟩
  | accept => exact h.accept _
  | spawn => exact h.spawn
  | doSeal | activate | revoked | cleanup => exact h.perform _ (by simp)
  | slave hi hx =>
    refine h.perform _ fun c hc => ?_
    rw [hc] at hx
    cases hx
  | condemn =>
    refine h.keep rfl (Nat.le_refl _) rfl rfl rfl (Nat.le_refl _) (fun j => ?_) fun j _ => ?_ <;>
      rw [machine_condemn]
    exact List.Subset.refl _
  | erase =>
    exact h.act rfl rfl rfl rfl rfl rfl (a := .terminate _ _) (by simp) (machine_eraseSlave st _ · _)
  | _ => exact ⟨h1, h2, h3, h4, h5, h6⟩

theorem start (p : Profile) : Ledger (start p) := by
  unfold Engine.start maybePublish
  split <;> constructor <;> simp [machine]

/-! ## Reading the ledger -/

section Places

variable {e i c : Nat} {w : Whereabouts}

theorem nodup_places (h : Ledger st) :
    (st.queue ++ (st.expired ++ st.placed.map Prod.fst)).Nodup :=
  h.perm.nodup_iff.mp h.nodup

theorem not_queued_expired (h : Ledger st) (hq : e ∈ st.queue) : e ∉ st.expired := fun hx =>
  (List.nodup_append.mp h.nodup_places).2.2 e hq e (List.mem_append_left _ hx) rfl

theorem not_queued_placed (h : Ledger st) (hq : e ∈ st.queue) : (e, i, c) ∉ st.placed := fun hp =>
  (List.nodup_append.mp h.nodup_places).2.2 e hq e
    (List.mem_append_right _ (List.mem_map_of_mem hp)) rfl

theorem not_expired_placed (h : Ledger st) (hx : e ∈ st.expired) : (e, i, c) ∉ st.placed := fun hp =>
  (List.nodup_append.mp (List.nodup_append.mp h.nodup_places).2.1).2.2 e hx e
    (List.mem_map_of_mem hp) rfl

/-- A request got at most one channel. -/
theorem unique_channel (h : Ledger st) {i' c' : Nat} (hp : (e, i, c) ∈ st.placed)
    (hp' : (e, i', c') ∈ st.placed) : i' = i ∧ c' = c := by
  have hnd : (st.placed.map Prod.fst).Nodup :=
    (List.nodup_append.mp (List.nodup_append.mp h.nodup_places).2.1).2.1
  simpa using List.inj_on_of_nodup_map hnd hp' hp rfl

theorem located_of_queued (h : Ledger st) (hq : e ∈ st.queue) (hw : st.located e w) :
    w = .queued := by
  cases w with
  | queued => rfl
  | served i c => exact absurd hw.1 (h.not_queued_placed hq)
  | finished =>
    rcases hw with hx | ⟨i, c, hp, -⟩
    · exact absurd hx (h.not_queued_expired hq)
    · exact absurd hp (h.not_queued_placed hq)

theorem located_of_expired (h : Ledger st) (hx : e ∈ st.expired) (hw : st.located e w) :
    w = .finished := by
  cases w with
  | queued => exact absurd hx (h.not_queued_expired hw)
  | served i c => exact absurd hw.1 (h.not_expired_placed hx)
  | finished => rfl

theorem located_of_placed (h : Ledger st) (hp : (e, i, c) ∈ st.placed) (hw : st.located e w) :
    w = if c ∈ (st.machine i).channels then .served i c else .finished := by
  cases w with
  | queued => exact absurd hp (h.not_queued_placed hw)
  | served i' c' =>
    obtain ⟨rfl, rfl⟩ := h.unique_channel hp hw.1
    rw [if_pos hw.2]
  | finished =>
    rcases hw with hx | ⟨i', c', hp', hc⟩
    · exact absurd hp (h.not_expired_placed hx)
    · obtain ⟨rfl, rfl⟩ := h.unique_channel hp hp'
      rw [if_neg hc]

theorem exactly_one (h : Ledger st) (he : e ∈ st.admitted) : ∃! w, st.located e w := by
  rcases List.mem_append.mp (h.perm.subset he) with hq | hr
  · exact ⟨.queued, hq, fun w => h.located_of_queued hq⟩
  · rcases List.mem_append.mp hr with hx | hm
    · exact ⟨.finished, .inl hx, fun w => h.located_of_expired hx⟩
    · obtain ⟨⟨e, i, c⟩, hp, rfl⟩ := List.mem_map.mp hm
      refine ⟨_, ?_, fun w => h.located_of_placed hp⟩
      split
      · rename_i hc
        exact ⟨hp, hc⟩
      · rename_i hc
        exact .inr ⟨i, c, hp, hc⟩

/-- A channel of a map belongs to one accepted request. -/
theorem exactly_one_request (h : Ledger st) (hc : c ∈ (st.machine i).channels) :
    ∃! e, e ∈ st.admitted ∧ st.located e (.served i c) := by
  obtain ⟨⟨e, p⟩, hp, rfl⟩ := List.mem_map.mp (h.known i c hc)
  have he : e ∈ st.admitted :=
    h.perm.symm.subset (List.mem_append_right _ (List.mem_append_right _ (List.mem_map_of_mem hp)))
  refine ⟨e, ⟨he, hp, hc⟩, fun e' he' => ?_⟩
  exact congrArg Prod.fst (List.inj_on_of_nodup_map h.distinct he'.2.1 hp rfl)

end Places

end Ledger

/-- In every run in which no injection throws after it registered its channel,
every accepted request is in exactly one place, and every channel of a slave's
map serves exactly one accepted request. -/
theorem conservation {st : Engine} (hr : engineSystem.Reachable Anchored st) :
    (∀ e ∈ st.admitted, ∃! w, st.located e w) ∧ st.queue.Nodup ∧
    ∀ i, ∀ c ∈ (st.machine i).channels, ∃! e, e ∈ st.admitted ∧ st.located e (.served i c) := by
  have h : Pooled st ∧ Ledger st := by
    refine reachable_induct (P := fun st => Pooled st ∧ Ledger st) hr anchored_covers ?_ ?_
    · intro p _
      exact ⟨Pooled.start p, Ledger.start p⟩
    · intro st st' ih hm
      obtain ⟨hpl, hle⟩ := ih
      exact ⟨hpl.move hm, hle.move hpl hm⟩
  exact ⟨fun e => h.2.exactly_one, (List.nodup_append.mp h.2.nodup_places).1,
    fun i c => h.2.exactly_one_request⟩

/-- The worker's session rejects the first attempt; the second one serves the request. -/
theorem conservation_retried : ∃ st, engineSystem.Reachable Anchored st ∧
    0 ∈ st.admitted ∧ st.located 0 (.served 0 3) ∧ ∃! w, st.located 0 w := by
  obtain ⟨st, hr, he, hc⟩ := engineSystem.exists_reachable Anchored
    (P := fun st => 0 ∈ st.admitted ∧ (0, 0, 3) ∈ st.placed ∧ 3 ∈ (st.machine 0).channels)
    (s := Engine.start {})
    [.enqueue {} false false, .slave 0 (.prepare false), .slave 0 (.token {}),
      .slave 0 (.refresh {} .spawned), .slave 0 (.ready 1 false), .handshake 0 false,
      .rebalanceEvents fun _ => { fault := some .fork },
      .enqueue {} false false]
    ⟨_, by decide, rfl⟩ (by decide +kernel)
  exact ⟨st, hr, he, hc, (conservation hr).1 0 he⟩

/-- `attach` throws: the request is served by the first slave and still queued. -/
theorem queued_and_served : ∃ st, engineSystem.Reachable System.Any st ∧
    ∃ e ∈ st.admitted, st.located e .queued ∧ st.located e (.served 0 2) :=
  engineSystem.exists_reachable System.Any
    (P := fun st => ∃ e ∈ st.admitted, e ∈ st.queue ∧ (e, 0, 2) ∈ st.placed ∧
      2 ∈ (st.machine 0).channels)
    (s := Engine.start {})
    [.enqueue {} false false, .slave 0 (.prepare false), .slave 0 (.token {}),
      .slave 0 (.refresh {} .spawned), .slave 0 (.ready 1 false), .handshake 0 false,
      .rebalanceEvents fun _ => { fault := some .attach }]
    ⟨_, by decide, rfl⟩ (by decide +kernel)

/-! ## The order of the queue -/

/-- What waits is the end of what was accepted. Lists of the past are newest first. -/
structure InLine (st : Engine) : Prop where
  sorted : st.admitted.Pairwise (· > ·)
  waiting : st.queue <:+ st.admitted.reverse
  inOrder : (st.placed.map Prod.fst).Pairwise (· > ·)

namespace InLine

variable {st st' : Engine}

/-- Whatever left the queue came before what is in it. -/
theorem lt (h : InLine st) (hl : Ledger st) {x : Nat} (hx : x ∈ st.expired ++ st.placed.map Prod.fst) :
    ∀ e ∈ st.queue, x < e := by
  obtain ⟨gone, hgone⟩ := h.waiting
  have hsorted := List.pairwise_reverse.mpr h.sorted
  have hmem := List.mem_reverse.mpr (hl.perm.symm.subset (List.mem_append_right _ hx))
  rw [← hgone] at hsorted hmem
  have hout : x ∉ st.queue := fun hq => (List.nodup_append.mp hl.nodup_places).2.2 x hq x hx rfl
  exact (List.pairwise_append.mp hsorted).2.2 x ((List.mem_append.mp hmem).resolve_right hout)

theorem move (h : InLine st) (hl : Ledger st) (hm : Move anchored st st') : InLine st' := by
  have htail {e : Nat} {q : List Nat} (hq : st.queue = e :: q) : q <:+ st.admitted.reverse :=
    (List.suffix_cons e q).trans (hq ▸ h.waiting)
  cases hm with
  | flow hf => cases hf <;> exact ⟨h.sorted, h.waiting, h.inOrder⟩
  | misplace hf => exact absurd rfl hf
  | @place i e q hq =>
    refine ⟨h.sorted, htail hq, List.pairwise_cons.mpr ⟨fun x hx => ?_, h.inOrder⟩⟩
    exact h.lt hl (List.mem_append_right _ hx) e (hq ▸ List.mem_cons_self)
  | drop hq => exact ⟨h.sorted, htail hq, h.inOrder⟩
  | @accept ev =>
    refine ⟨List.pairwise_cons.mpr ⟨hl.fresh, h.sorted⟩, ?_, h.inOrder⟩
    obtain ⟨gone, hgone⟩ := h.waiting
    refine ⟨gone, ?_⟩
    simp [push, arrive, ← hgone]
  | _ => exact ⟨h.sorted, h.waiting, h.inOrder⟩

theorem start (p : Profile) : InLine (start p) := by
  unfold Engine.start maybePublish
  split <;> exact ⟨.nil, List.suffix_refl _, .nil⟩

end InLine

/-- In the runs above, requests get their channels in the order of their arrival, each once, and
none is passed by: when a request expired or got a channel, every accepted one that came before it
did, too. -/
theorem served_in_order {st : Engine} (hr : engineSystem.Reachable Anchored st) :
    (st.placed.map Prod.fst).Pairwise (· > ·) ∧
    ∀ x ∈ st.expired ++ st.placed.map Prod.fst, ∀ e ∈ st.admitted, e < x →
      e ∈ st.expired ++ st.placed.map Prod.fst := by
  have h : Pooled st ∧ Ledger st ∧ InLine st := by
    refine reachable_induct (P := fun st => Pooled st ∧ Ledger st ∧ InLine st) hr anchored_covers ?_ ?_
    · intro p _
      exact ⟨Pooled.start p, Ledger.start p, InLine.start p⟩
    · rintro st st' ⟨hpl, hle, hin⟩ hm
      exact ⟨hpl.move hm, hle.move hpl hm, hin.move hle hm⟩
  obtain ⟨-, hl, h⟩ := h
  refine ⟨h.inOrder, fun x hx e he hlt => ?_⟩
  refine (List.mem_append.mp (hl.perm.subset he)).resolve_left fun hq => ?_
  exact Nat.lt_asymm hlt (h.lt hl hx e hq)

/-- The injection of the first request is rejected; it gets its channel before the second. -/
theorem served_in_order_retried : ∃ st, engineSystem.Reachable Anchored st ∧
    st.placed.map Prod.fst = [1, 0] ∧ (st.placed.map Prod.fst).Pairwise (· > ·) := by
  obtain ⟨st, hr, hp⟩ := engineSystem.exists_reachable Anchored
    (P := fun st => st.placed.map Prod.fst = [1, 0]) (s := Engine.start {})
    [.enqueue {} false false, .slave 0 (.prepare false), .slave 0 (.token {}),
      .slave 0 (.refresh {} .spawned), .slave 0 (.ready 1 false), .handshake 0 false,
      .rebalanceEvents fun _ => { fault := some .fork }, .enqueue {} false false]
    ⟨_, by decide, rfl⟩ (by decide +kernel)
  exact ⟨st, hr, hp, (served_in_order hr).1⟩

end Cocaine.Node.Engine
