import CocainePlugins.Unicat.Authority

/-!
# The answer to a request

The destructor of the completion state answers, and it answers `value` when no completion
is an error. The `catch` blocks answer as well, so a request that throws is answered twice,
and the first answer is about the handlers that there are, perhaps none. An entity whose
handler is dropped leaves no completion, and a put that did not take place leaves one that
is not an error.
-/

namespace Cocaine.Unicat

open Framework Unicorn

/-! ## What a completion says -/

theorem Task.report_refuse (t : Task) {ec : ErrorCode} (h : ec.failed = true) (opcode : Opcode) :
    (t.refuse ec opcode).report ≠ none := by
  simp [Completion.report, Task.refuse, Completion.hasException, Completion.hasErrorCode, h]

theorem Task.report_fail (t : Task) (x : Exception) : (t.fail x).report ≠ none := by
  simp [Completion.report, Task.fail, Completion.hasException]

theorem summary_eq_value {completions : List Completion} :
    summary completions = .value ↔ ∀ c ∈ completions, c.report = none := by
  rw [← List.filterMap_eq_nil_iff]
  unfold summary
  split
  · rename_i he
    simp [he]
  · rename_i he
    simpa using he

/-! ## Requests that go smoothly -/

/-- Nothing is thrown in the function. -/
def Slot.Calm (_ : Slot) (a : Slot.Label) : Prop := a.throws = false

/-- Nothing is thrown in the function, no handler is dropped, every put takes place. -/
def Slot.Label.smooth : Slot.Label → Bool
  | .drop _ | .reply _ (.put (.ok false)) => false
  | a => !a.throws

def Slot.Smooth (_ : Slot) (a : Slot.Label) : Prop := a.smooth = true

instance (s : Slot) (a : Slot.Label) : Decidable (s.Smooth a) :=
  inferInstanceAs (Decidable (a.smooth = true))

theorem Slot.Smooth.calm {s : Slot} {a : Slot.Label} (h : s.Smooth a) : s.Calm a := by
  unfold Slot.Smooth Slot.Label.smooth at h
  split at h
  · cases h
  · cases h
  · simpa [Slot.Calm] using h

/-- The entities that are still to be started. -/
def Frame.todo : Frame → List Url
  | .groups rest => rest.flatMap Group.urls
  | .entities g _ es rest =>
    (es.map fun e => ⟨g.scheme, g.serviceName, e⟩) ++ rest.flatMap Group.urls
  | .returned | .unwound _ | .caught => []

/-- An exception has left the function. -/
def Frame.raised : Frame → Bool
  | .groups _ | .entities _ _ _ _ | .returned => false
  | .unwound _ | .caught => true

/-- A task that is over has left an error, or its list is rewritten. -/
def Task.Told (r : Request) (completions : List Completion) (rewritten : List (Url × Metainfo))
    (t : Task) : Prop :=
  match t.stage with
  | .verifying _ _ | .reading => True
  | .writing m => ∃ m₀, m = alter r.op m₀ r.data
  | .finished =>
    (∃ c ∈ completions, c.report ≠ none) ∨ ∃ m, (t.url, alter r.op m r.data) ∈ rewritten

theorem Task.Told.mono {r : Request} {completions completions' : List Completion}
    {rewritten rewritten' : List (Url × Metainfo)} {t : Task} (h : t.Told r completions rewritten)
    (hc : completions ⊆ completions') (hw : rewritten ⊆ rewritten') :
    t.Told r completions' rewritten' := by
  unfold Task.Told at h ⊢
  split
  · trivial
  · trivial
  · rename_i hs
    rw [hs] at h
    exact h
  · rename_i hs
    rw [hs] at h
    rcases h with ⟨c, hm, hne⟩ | ⟨m, hm⟩
    · exact .inl ⟨c, hc hm, hne⟩
    · exact .inr ⟨m, hw hm⟩

theorem Replied.unfinished {op : Operation} {d : AlterData} {t : Task} {r : Reply} {e : Effect}
    (h : Replied op d t r e) : t.stage ≠ .finished := by
  cases h with
  | refused hs | verified hs | permitted hs | unread hs | faulted hs | altered hs | unwritten hs
  | written hs | lost hs =>
    rw [hs]
    simp

theorem Replied.told {q : Request} {t : Task} {r : Reply} {e : Effect}
    (h : Replied q.op q.data t r e) (hr : r ≠ .put (.ok false))
    {completions : List Completion} {rewritten : List (Url × Metainfo)}
    (ht : t.Told q completions rewritten) :
    Task.Told q (completions ++ e.completion.toList)
      ((e.written.map fun m => (t.url, m)).toList ++ rewritten) { t with stage := e.stage } := by
  have hfail : ∀ x, ∃ c ∈ completions ++ [t.fail x], c.report ≠ none :=
    fun x => ⟨t.fail x, by simp, t.report_fail x⟩
  cases h with
  | refused hs he opcode => exact .inl ⟨_, by simp, t.report_refuse he opcode⟩
  | verified hs he => trivial
  | permitted hs he => trivial
  | unread hs => exact .inl (hfail _)
  | faulted hs => exact .inl (hfail _)
  | altered hs => exact ⟨_, rfl⟩
  | unwritten hs => exact .inl (hfail _)
  | written hs hr =>
    unfold Task.Told at ht
    rw [hs] at ht
    obtain ⟨m, rfl⟩ := ht
    exact .inr ⟨m, by simp⟩
  | lost hs => exact absurd rfl hr

theorem Slot.idle_iff {s : Slot} : s.idle = true ↔ ∀ t ∈ s.tasks, t.stage = .finished := by
  simp [Slot.idle]

theorem map_url_set {tasks : List Task} {k : Nat} {t : Task} (hk : tasks[k]? = some t)
    (stage : Stage) : (tasks.set k { t with stage }).map Task.url = tasks.map Task.url := by
  obtain ⟨hlt, rfl⟩ := List.getElem?_eq_some_iff.mp hk
  rw [List.map_set]
  exact List.ext_getElem (by simp) fun i h₁ h₂ => by
    rw [List.getElem_set]
    split
    · rename_i hi
      subst hi
      simp
    · rfl

/-- A request in which nothing is thrown, at any time. -/
structure Answered (s : Slot) : Prop where
  calm : s.frame.raised = false
  silent : s.finalized = false → s.sent = []
  answered : s.finalized = true →
    s.frame = .returned ∧ s.idle = true ∧ s.sent = [summary s.completions]

/-- A request that goes smoothly, at any time. -/
structure Truthful (r : Request) (gs : List Group) (s : Slot) : Prop where
  /-- No entity is forgotten. -/
  url : ∀ u ∈ gs.flatMap Group.urls, u ∈ s.frame.todo ∨ u ∈ s.tasks.map Task.url
  task : ∀ t ∈ s.tasks, t.Told r s.completions s.rewritten

section Step

variable {r : Request} {gs : List Group} {s s' : Slot} {a : Slot.Label}

theorem Answered.move (h : Answered s) {frame : Frame} (tasks : List Task)
    (calls : List BackendCall) (hf : s.frame ≠ .returned) (hc : frame.raised = false) :
    Answered { s with frame, tasks, calls } where
  calm := hc
  silent := h.silent
  answered hn := absurd (h.answered hn).1 hf

theorem Answered.step (h : Answered s) (hok : s.Calm a) (hs : s.step r a = some s') :
    Answered s' := by
  cases Slot.stepped hs with
  | thrown calls hc ha =>
    rw [Slot.Calm, ha] at hok
    cases hok
  | group hf | entity hf | next hf | ret hf => exact h.move _ _ (by simp [hf]) rfl
  | @reply k t reply e hk he =>
    refine ⟨h.calm, h.silent, fun hn => ?_⟩
    -- A task that is answered is not over, so the answer was not sent.
    exact absurd (Slot.idle_iff.mp (h.answered hn).2.1 t (List.mem_of_getElem? hk)) he.unfinished
  | drop hk =>
    refine ⟨h.calm, h.silent, fun hn => ?_⟩
    obtain ⟨hf, hi, hsent⟩ := h.answered hn
    refine ⟨hf, Slot.idle_iff.mpr fun t' ht' => ?_, hsent⟩
    rcases List.mem_or_eq_of_mem_set ht' with ht' | rfl
    · exact Slot.idle_iff.mp hi t' ht'
    · rfl
  | finalize hf hi hn =>
    refine ⟨h.calm, by simp, fun _ => ⟨?_, hi, ?_⟩⟩
    · have hcalm := h.calm
      cases hfr : s.frame with
      | groups _ | entities _ _ _ _ =>
        rw [hfr] at hf
        cases hf
      | returned => rfl
      | unwound _ | caught =>
        rw [hfr] at hcalm
        cases hcalm
    · rw [h.silent hn]
  | handle hf =>
    have hcalm := h.calm
    rw [hf] at hcalm
    cases hcalm

theorem Truthful.move (h : Truthful r gs s) {frame : Frame} {tasks : List Task}
    {calls : List BackendCall}
    (hu : ∀ u, u ∈ s.frame.todo ∨ u ∈ s.tasks.map Task.url →
      u ∈ frame.todo ∨ u ∈ tasks.map Task.url)
    (ht : ∀ t ∈ tasks, t ∈ s.tasks ∨ t.Told r s.completions s.rewritten) :
    Truthful r gs { s with frame, tasks, calls } where
  url u hu' := hu u (h.url u hu')
  task t ht' := (ht t ht').elim (h.task t) id

theorem Truthful.step (h : Truthful r gs s) (ha : Answered s) (hok : s.Smooth a)
    (hs : s.step r a = some s') : Truthful r gs s' := by
  have hcalm := hok.calm
  cases Slot.stepped hs with
  | thrown calls hc ht =>
    rw [Slot.Calm, ht] at hcalm
    cases hcalm
  | group hf =>
    refine h.move ?_ fun t ht => .inl ht
    intro u hu
    rw [hf] at hu
    simpa [Frame.todo, Group.urls] using hu
  | entity hf =>
    refine h.move ?_ ?_
    · intro u hu
      rw [hf] at hu
      simp only [Frame.todo, List.map_cons, List.cons_append, List.mem_cons, List.map_append,
        List.map_nil, List.mem_append, List.not_mem_nil, or_false] at hu ⊢
      tauto
    · intro t ht
      rcases List.mem_append.mp ht with ht | ht
      · exact .inl ht
      · rw [List.mem_singleton.mp ht]
        exact .inr trivial
  | next hf | ret hf =>
    refine h.move ?_ fun t ht => .inl ht
    intro u hu
    rw [hf] at hu
    simpa [Frame.todo] using hu
  | @reply k t reply e hk he =>
    have hput : reply ≠ .put (.ok false) := by
      rintro rfl
      cases hok
    refine ⟨fun u hu => ?_, fun t' ht' => ?_⟩
    · have := h.url u hu
      rwa [← map_url_set hk e.stage] at this
    · rcases List.mem_or_eq_of_mem_set ht' with ht' | rfl
      · exact (h.task t' ht').mono (List.subset_append_left ..) (List.subset_append_right ..)
      · exact he.told hput (h.task t (List.mem_of_getElem? hk))
  | drop hk => cases hok
  | finalize hf hi hn => exact ⟨h.url, h.task⟩
  | handle hf =>
    have hraised := ha.calm
    rw [hf] at hraised
    cases hraised

/-- What the answer `value` means. -/
theorem Truthful.rewritten (h : Truthful r gs s) (ha : Answered s) (hv : .value ∈ s.sent) {u : Url}
    (hu : u ∈ gs.flatMap Group.urls) : ∃ m, (u, alter r.op m r.data) ∈ s.rewritten := by
  cases hn : s.finalized with
  | false =>
    rw [ha.silent hn] at hv
    cases hv
  | true =>
    obtain ⟨hf, hi, hsent⟩ := ha.answered hn
    rw [hsent, List.mem_singleton] at hv
    have hnone := summary_eq_value.mp hv.symm
    have hmem := h.url u hu
    rw [hf] at hmem
    obtain ⟨t, ht, rfl⟩ := List.mem_map.mp (hmem.resolve_left (by simp [Frame.todo]))
    have htold := h.task t ht
    unfold Task.Told at htold
    rw [Slot.idle_iff.mp hi t ht] at htold
    refine htold.resolve_left ?_
    rintro ⟨c, hc, hne⟩
    exact hne (hnone c hc)

/-- A request that can do nothing more is answered. -/
theorem Answered.finalized (h : Answered s) (hq : ∀ a, s.step r a = none) : s.finalized = true := by
  have hidle : s.idle = true := by
    rw [Slot.idle_iff]
    intro t ht
    obtain ⟨k, hk⟩ := List.mem_iff_getElem?.mp ht
    by_contra hne
    have := hq (.drop k)
    simp [Slot.step, hk, hne] at this
  have hcalm := h.calm
  cases hf : s.frame with
  | groups rest =>
    cases rest with
    | nil =>
      have := hq .leave
      simp [Slot.step, hf] at this
    | cons g rest =>
      have := hq (.group (.ok {}) none)
      simp [Slot.step, hf] at this
  | entities g i es rest =>
    cases es with
    | nil =>
      have := hq .leave
      simp [Slot.step, hf] at this
    | cons e es =>
      have := hq (.entity none)
      simp [Slot.step, hf] at this
  | returned =>
    have := hq .finalize
    simpa [Slot.step, hf, Frame.left, hidle] using this
  | unwound x | caught =>
    rw [hf] at hcalm
    cases hcalm

end Step

theorem answered {r : Request} {gs : List Group} (hgs : separateByScheme r.entities = .ok gs)
    {s : Slot} (hr : (slotSystem r).Reachable Slot.Calm s) : Answered s := by
  refine hr.induct (P := Answered) ?_ fun h hok hs => h.step hok hs
  rintro _ rfl
  have hf : (Slot.start r).frame = .groups gs := by simp [Slot.start, hgs]
  refine ⟨?_, fun _ => rfl, by simp [Slot.start]⟩
  rw [hf]
  rfl

theorem truthful {r : Request} {gs : List Group} (hgs : separateByScheme r.entities = .ok gs)
    {s : Slot} (hr : (slotSystem r).Reachable Slot.Smooth s) : Answered s ∧ Truthful r gs s := by
  refine hr.induct (P := fun s => Answered s ∧ Truthful r gs s) ?_
    fun h hok hs => ⟨h.1.step hok.calm hs, h.2.step h.1 hok hs⟩
  rintro _ rfl
  have hf : (Slot.start r).frame = .groups gs := by simp [Slot.start, hgs]
  refine ⟨answered hgs ⟨_, rfl, .refl⟩, fun u hu => ?_, by simp [Slot.start]⟩
  rw [hf]
  exact .inl hu

/-- A request in which nothing is thrown gets at most one answer, and one when it is over. If it
goes smoothly, the answer `value` says that the list of every entity was rewritten with the
alteration. -/
theorem slot_answers_truthfully {r : Request} {gs : List Group}
    (hgs : separateByScheme r.entities = .ok gs) {s : Slot}
    (hr : (slotSystem r).Reachable Slot.Calm s) :
    s.sent.length ≤ 1 ∧ ((∀ a, (slotSystem r).step s a = none) → s.sent.length = 1) ∧
    ((slotSystem r).Reachable Slot.Smooth s → .value ∈ s.sent → ∀ a ∈ r.entities, ∃ scheme m,
      schemeFromString a.scheme = .ok scheme ∧
      (⟨scheme, a.serviceName, a.entity⟩, alter r.op m r.data) ∈ s.rewritten) := by
  have h := answered hgs hr
  refine ⟨?_, ?_, ?_⟩
  · cases hn : s.finalized with
    | false => simp [h.silent hn]
    | true => simp [(h.answered hn).2.2]
  · intro hq
    simp [(h.answered (h.finalized hq)).2.2]
  · intro hsmooth hv a ha
    obtain ⟨scheme, hs, hu⟩ := mem_separateByScheme hgs ha
    obtain ⟨m, hm⟩ := (truthful hgs hsmooth).2.rewritten h hv hu
    exact ⟨scheme, m, hs, hm⟩

theorem slot_answers_truthfully_seizure : ∃ s, (slotSystem seizure).Reachable Slot.Smooth s ∧
    s.sent = [.value] ∧ ∃ m, (seizedUrl, alter seizure.op m seizure.data) ∈ s.rewritten := by
  obtain ⟨s, hr, hs⟩ := (slotSystem seizure).exists_reachable Slot.Smooth
    (P := fun s => s.sent = [.value])
    (seizureRun ++ [.reply 0 (.put (.ok true)), .leave, .leave, .finalize]) rfl (by decide +kernel)
  have hsep : separateByScheme seizure.entities =
      .ok [⟨.unicorn, defaultServiceName, ["/p".toList]⟩] := by decide +kernel
  obtain ⟨scheme, m, hscheme, hm⟩ :=
    (slot_answers_truthfully hsep (hr.mono fun _ _ h => h.calm)).2.2 hr (by simp [hs]) _
      (List.mem_singleton.mpr rfl)
  have hu : schemeFromString "unicorn".toList = .ok .unicorn := by decide +kernel
  rw [hu] at hscheme
  cases hscheme
  exact ⟨s, hr, hs, m, hm⟩

/-- An entity of a scheme that there is not. -/
def misspelt : Request := { seizure with entities := [⟨"unicron".toList, none, "/p".toList⟩] }

/-- The misspelt scheme gets a `value` and then an error, and nothing is rewritten. A put that
does not take place is answered with a `value` alone. -/
theorem slot_answers_falsely :
    (∃ s, (slotSystem misspelt).Reachable System.Any s ∧
      s.sent = [.error .uncaughtError "unordered_map::at".toList, .value] ∧ s.rewritten = []) ∧
    ∃ s, (slotSystem seizure).Reachable System.Any s ∧ s.sent = [.value] ∧ s.rewritten = [] :=
  ⟨(slotSystem misspelt).exists_reachable System.Any
      [.finalize, .handle] rfl (by decide +kernel),
    (slotSystem seizure).exists_reachable System.Any
      (seizureRun ++ [.reply 0 (.put (.ok false)), .leave, .leave, .finalize]) rfl
      (by decide +kernel)⟩

end Cocaine.Unicat
