import CocainePlugins.Unicat.Slot

/-!
# Who alters a list

The backend answers verifications as a policy says. Both of an entity's verifications ask
for the right to read, so a policy that lets an identity read lets it alter the list.
-/

namespace Cocaine.Unicat

open Framework Unicorn

/-- Which identity may read or write which entity. -/
def Policy := Access → Url → Identity → Bool

/-- The policy's answer to the verification that a task waits for. -/
def Policy.answer (p : Policy) (t : Task) : Option Bool :=
  match t.stage with
  | .verifying _ asked => some (p asked t.url t.identity)
  | _ => none

/-- Verifications are answered by the policy, for the access that was asked for. -/
def Policy.Answers (p : Policy) (s : Slot) : Slot.Label → Prop
  | .reply k (.verified ec) => (s.tasks[k]?.bind p.answer).all (ec.failed != ·) = true
  | _ => True

instance (p : Policy) (s : Slot) (a : Slot.Label) : Decidable (p.Answers s a) := by
  unfold Policy.Answers
  split <;> infer_instance

/-- The list that a call reads or writes, and for whom. -/
def BackendCall.touches : BackendCall → Option (Url × Identity)
  | .verify _ _ _ => none
  | .readMetainfo url i | .writeMetainfo url i _ _ => some (url, i)

/-- What the stage of a task tells of the policy. -/
def Task.Cleared (p : Policy) (t : Task) : Prop :=
  match t.stage with
  | .verifying .onVerifyRead asked => asked = .read
  | .verifying .onVerifyWrite asked => asked = .read ∧ p .read t.url t.identity = true
  | .reading | .writing _ => p .read t.url t.identity = true
  | .finished => True

theorem Replied.cleared {p : Policy} {op : Operation} {d : AlterData} {t : Task} {r : Reply}
    {e : Effect} (h : Replied op d t r e) (ht : t.Cleared p)
    (hr : ∀ ec, r = .verified ec → ∀ handler asked, t.stage = .verifying handler asked →
      ec.failed ≠ p asked t.url t.identity) :
    Task.Cleared p { t with stage := e.stage } ∧
      ∀ c ∈ e.calls, ∀ url i, c.touches = some (url, i) → p .read url i = true := by
  unfold Task.Cleared at ht
  cases h with
  | refused hs he opcode => exact ⟨trivial, by simp⟩
  | verified hs he =>
    rw [hs] at ht
    dsimp only at ht
    subst ht
    have hp := hr _ rfl _ _ hs
    rw [he] at hp
    exact ⟨⟨rfl, by simpa using hp⟩, by simp [BackendCall.touches]⟩
  | permitted hs he =>
    rw [hs] at ht
    exact ⟨ht.2, by simp [BackendCall.touches, ht.2]⟩
  | unread hs => exact ⟨trivial, by simp⟩
  | faulted hs =>
    rw [hs] at ht
    dsimp only at ht
    exact ⟨trivial, by simp [BackendCall.touches, ht]⟩
  | altered hs =>
    rw [hs] at ht
    exact ⟨ht, by simpa [BackendCall.touches] using ht⟩
  | unwritten hs => exact ⟨trivial, by simp⟩
  | written hs hr => exact ⟨trivial, by simp⟩
  | lost hs => exact ⟨trivial, by simp⟩

structure Slot.Cleared (p : Policy) (s : Slot) : Prop where
  task : ∀ t ∈ s.tasks, t.Cleared p
  call : ∀ c ∈ s.calls, ∀ url i, c.touches = some (url, i) → p .read url i = true

theorem Slot.Cleared.step {p : Policy} {r : Request} {s s' : Slot} {a : Slot.Label}
    (h : s.Cleared p) (hok : p.Answers s a) (hs : s.step r a = some s') : s'.Cleared p := by
  cases Slot.stepped hs with
  | thrown calls hc ha =>
    refine ⟨h.task, ?_⟩
    obtain rfl | ⟨url, i, rfl⟩ := hc
    · exact h.call
    · simpa [BackendCall.touches] using h.call
  | group hf => exact ⟨h.task, h.call⟩
  | entity hf =>
    refine ⟨?_, by simpa [BackendCall.touches] using h.call⟩
    intro t ht
    rcases List.mem_append.mp ht with ht | ht
    · exact h.task t ht
    · rw [List.mem_singleton.mp ht]
      rfl
  | next hf => exact ⟨h.task, h.call⟩
  | ret hf => exact ⟨h.task, h.call⟩
  | @reply k t reply e hk he =>
    have hstage : ∀ ec, reply = .verified ec → ∀ handler asked, t.stage = .verifying handler asked →
        ec.failed ≠ p asked t.url t.identity := by
      rintro ec rfl handler asked hst
      simpa [Policy.Answers, Policy.answer, hk, hst] using hok
    obtain ⟨htask, hcall⟩ := he.cleared (h.task t (List.mem_of_getElem? hk)) hstage
    refine ⟨?_, ?_⟩
    · intro t' ht'
      rcases List.mem_or_eq_of_mem_set ht' with ht' | rfl
      · exact h.task t' ht'
      · exact htask
    · intro c hc
      rcases List.mem_append.mp hc with hc | hc
      · exact hcall c hc
      · exact h.call c hc
  | drop hk =>
    refine ⟨?_, h.call⟩
    intro t' ht'
    rcases List.mem_or_eq_of_mem_set ht' with ht' | rfl
    · exact h.task t' ht'
    · trivial
  | finalize hf hi hn => exact ⟨h.task, h.call⟩
  | handle hf => exact ⟨h.task, h.call⟩

/-- Over a whole request, the lists that are read and written are those of entities that the
identity may read. -/
theorem Slot.cleared {p : Policy} {r : Request} {s : Slot}
    (hr : (slotSystem r).Reachable p.Answers s) : s.Cleared p := by
  refine hr.induct (P := Slot.Cleared p) ?_ fun hc hok hs => hc.step hok hs
  rintro _ rfl
  exact ⟨by simp [Slot.start], by simp [Slot.start]⟩

/-- If the policy lets write whoever it lets read, the list of an entity is read and
rewritten only for an identity that may read and write the entity. -/
theorem altered_by_writers {p : Policy}
    (hp : ∀ url i, p .read url i = true → p .write url i = true) {r : Request} {s : Slot}
    (hr : (slotSystem r).Reachable p.Answers s) {c : BackendCall} (hc : c ∈ s.calls) {url : Url}
    {i : Identity} (ht : c.touches = some (url, i)) :
    p .read url i = true ∧ p .write url i = true := by
  have hread := (Slot.cleared hr).call c hc url i ht
  exact ⟨hread, hp url i hread⟩

/-- Client 2 asks for the right to write `/p`. -/
def seizure : Request where
  op := .grant
  entities := [⟨"unicorn".toList, none, "/p".toList⟩]
  data := { cids := [2], uids := [], flags := Flags.both }

def seizedUrl : Url := ⟨.unicorn, defaultServiceName, "/p".toList⟩

/-- Up to the call of the write. -/
def seizureRun : List Slot.Label :=
  [.group (.ok { cids := [2] }) none, .entity none, .reply 0 (.verified .success),
    .reply 0 (.verified .success), .reply 0 (.value (.ok ⟨ownersList.toDyn, 0⟩) none)]

def openPolicy : Policy := fun _ _ _ => true

def readOnly : Policy := fun a _ _ => a == .read

theorem altered_by_writers_seizure : ∃ s,
    (slotSystem seizure).Reachable openPolicy.Answers s ∧
    .writeMetainfo seizedUrl { cids := [2] } 0 (alter .grant ownersList seizure.data) ∈ s.calls ∧
    openPolicy .write seizedUrl { cids := [2] } = true := by
  obtain ⟨s, hr, hc⟩ := (slotSystem seizure).exists_reachable openPolicy.Answers
    (P := fun s => .writeMetainfo seizedUrl { cids := [2] } 0
      (alter .grant ownersList seizure.data) ∈ s.calls)
    seizureRun rfl (by decide +kernel)
  exact ⟨s, hr, hc, (altered_by_writers (fun _ _ _ => rfl) hr hc rfl).2⟩

/-- The identity may only read, and the list is rewritten for it. -/
theorem altered_by_reader : readOnly .write seizedUrl { cids := [2] } = false ∧
    ∃ s, (slotSystem seizure).Reachable readOnly.Answers s ∧
      .writeMetainfo seizedUrl { cids := [2] } 0 (alter .grant ownersList seizure.data) ∈ s.calls :=
  ⟨rfl, (slotSystem seizure).exists_reachable readOnly.Answers
    seizureRun rfl (by decide +kernel)⟩

end Cocaine.Unicat
