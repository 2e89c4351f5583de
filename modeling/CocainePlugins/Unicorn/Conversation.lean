import CocainePlugins.Unicorn.Delivery
import CocainePlugins.Unicorn.Discipline

/-!
# The conversation of an operation without watches

Such an operation makes one request, waits for the reply and makes the next call, so
the replies it got determine its members and the call it made last (`Talk`). What it
reported in the end is that call, unless the scope was closed.
-/

namespace Cocaine.Unicorn

open Framework

/-- With these replies, newest first, the operation has these members and has made
this call. -/
inductive Talk (cmd : Command) : List (Query × Reply) → Action → Call → Prop where
  | start {c : Call} (h : (Action.init cmd).run = [c]) : Talk cmd [] (.init cmd) c
  | reply {l : List (Query × Reply)} {a : Action} {q : Query} {r : Reply} {c : Call}
    (h : Talk cmd l a (.request q false)) (hr : q.answers r = true)
    (hc : (a.onReply false r).2 = [c]) : Talk cmd ((q, r) :: l) (a.onReply false r).1 c

/-- The flag of the scope matters to the locks only. -/
theorem Action.onReply_closed {a : Action} (h : a.cmd.single = true) (closed : Bool) (r : Reply) :
    a.onReply closed r = a.onReply false r := by
  obtain ⟨cmd, depth, v, created⟩ := a
  cases cmd with
  | put | get | create | del | increment => cases r <;> rfl
  | _ => cases h

/-- How far the operation got with its last call. -/
structure Stage (m : Machine) (c : Call) : Prop where
  talk : Talk m.act.cmd m.replies m.act c
  pending : ∀ s ∈ m.outbox, c = .request s.query false
  ended : ∀ o, .invoked o ∈ m.log → m.pending = 0
  value : ∀ r, .invoked (.value r) ∈ m.log → c = .satisfy r
  error : ∀ e, .invoked (.error e) ∈ m.log → ∀ r, c ≠ .satisfy r
  thrown : m.deferred.isSome = true → ∀ r, c ≠ .satisfy r

namespace Stage

variable {m m' : Machine} {c : Call}

theorem handle (ht : Talk m.act.cmd m.replies m.act c) (ha : m.attached = false)
    (ho : m.outbox = []) (hd : m.deferred = none) (hi : ∀ o, .invoked o ∉ m.log)
    (hp : c.plain m.act.cmd = true) (l : Luck) : Stage (m.handle [c] l) c := by
  have hpend : m.pending = 0 := by simp [Machine.pending, ho, hd]
  have ha := Machine.answered ha hp l
  generalize m.handle [c] l = m' at ha ⊢
  cases ha with
  | @sent q hq =>
    have hn : ∀ o, .invoked o ∉ (m.send q none).log := by simpa using hi
    exact ⟨ht, by simp [ho], fun o h => absurd h (hn o), fun r h => absurd h (hn _),
      fun e h => absurd h (hn _), by simp [hd]⟩
  | invoked r hc =>
    exact ⟨ht, by simp [ho], fun _ _ => hpend, by simp [hi], by simp [hi], by simp [hd]⟩
  | failed e hc =>
    exact ⟨ht, by simp [ho], fun _ _ => hpend, by simp [hi], fun _ _ => hc, by simp [hd]⟩
  | silent hc =>
    exact ⟨ht, by simp [ho], fun o h => absurd h (hi o), fun r h => absurd h (hi _),
      fun e h => absurd h (hi _), by simp [hd]⟩

theorem start {cmd : Command} (hc : cmd.single = true) (l : Luck) :
    ∃ c, Stage (.start cmd l) c := by
  have ht : ∀ {c}, (Action.init cmd).run = [c] → Talk (Action.init cmd).cmd [] (.init cmd) c := by
    intro c hrun
    rw [Action.cmd_init]
    exact .start hrun
  rcases Machine.start_single hc l with ⟨e, heq, c, hrun, hn⟩ | ⟨q, heq, hrun, -⟩
  · rw [heq]
    exact ⟨c, ht hrun, by simp, by simp, by simp, by simp, fun _ => hn⟩
  · rw [heq]
    exact ⟨_, ht hrun, by simp, by simp, by simp, by simp, by simp⟩

theorem reply (h : Stage m c) (ho : Once m) {k : Nat} {s : Sent} (hk : m.outbox[k]? = some s)
    {r : Reply} (hr : s.query.answers r = true) (l : Luck) :
    ∃ c', Stage ({ m with outbox := m.outbox.eraseIdx k }.deliver s.query r l) c' := by
  have hs := List.mem_of_getElem? hk
  obtain ⟨c', hcalls, hp⟩ := Action.onReply_plain ho.cmd (ho.handled s hs) hr m.closed
  have hcmd := m.act.cmd_onReply m.closed r
  obtain ⟨hbox, hd, hpos⟩ := ho.alone hk
  have ht : Talk m.act.cmd ((s.query, r) :: m.replies) (m.act.onReply m.closed r).1 c' := by
    rw [Action.onReply_closed ho.cmd] at hcalls ⊢
    exact .reply (h.pending s hs ▸ h.talk) hr hcalls
  refine ⟨c', ?_⟩
  simp only [Machine.deliver, hcalls]
  refine handle ?_ ?_ ?_ ?_ (fun o hm => ?_) (by rw [hcmd]; exact hp) l
  · rw [hcmd]
    exact ht
  · exact ho.attached
  · exact hbox
  · exact hd
  · have := h.ended o (by simpa using hm)
    omega

theorem step {a : Label} (h : Stage m c) (ho : Once m) (hs : m.step a = some m') :
    ∃ c', Stage m' c' := by
  cases Machine.stepped hs with
  | reply hk hr => exact h.reply ho hk hr _
  | event hw => simp [ho.watchers] at hw
  | resume hk => simp [ho.running] at hk
  | @abort e l he =>
    have hpos : 0 < m.pending := by simp [Machine.pending, he]
    have hi : ∀ o, .invoked o ∉ m.log := fun o hm => by
      have := h.ended o hm
      omega
    have hp := ho.pending
    simp only [Machine.pending, he, Option.isSome_some, Bool.toNat_true] at hp
    have hbox : m.outbox = [] := by
      rw [← List.length_eq_zero_iff]
      omega
    refine ⟨c, ?_⟩
    have hd : { m with deferred := none }.attached = false := ho.attached
    rw [Machine.abort_of_detached hd]
    split
    · exact ⟨h.talk, h.pending, fun o hm => absurd hm (hi o), h.value, h.error, by simp⟩
    · exact ⟨h.talk, h.pending, by simp [Machine.pending, hbox], by simp [hi],
        fun _ _ => h.thrown (by simp [he]), by simp⟩
  | @close l =>
    have ha : m.onAbort l = (m, false) := by simp [Machine.onAbort, ho.attached]
    refine ⟨c, ?_⟩
    unfold Machine.close
    split
    · exact ⟨h.talk, h.pending, fun o hm => h.ended o (by simpa using hm),
        fun r hm => h.value r (by simpa using hm), fun e hm => h.error e (by simpa using hm), h.thrown⟩
    · simp only [ha]
      exact ⟨h.talk, h.pending, fun o hm => h.ended o (by simpa using hm),
        fun r hm => h.value r (by simpa using hm), fun e hm => h.error e (by simpa using hm), h.thrown⟩

end Stage

theorem Machine.stage {cmd : Command} (hc : cmd.single = true) {m : Machine}
    (hr : (operationSystem cmd).Reachable System.Any m) : ∃ c, Stage m c := by
  have h : Once m ∧ ∃ c, Stage m c := by
    refine hr.induct (P := fun m => Once m ∧ ∃ c, Stage m c) ?_ ?_
    · rintro m ⟨l, rfl⟩
      exact ⟨Once.start hc l, Stage.start hc l⟩
    · rintro m a m' ⟨ho, c, h⟩ _ hs
      exact ⟨ho.step hs, h.step ho hs⟩
  exact h.2

/-- Among the others: when the operation has reported something, everything it asked
for is answered, and its records are its conversation. -/
theorem Run.told {i : Nat} {cmd : Command} {t : Ztree Data} {h : List Served} {cl : Client}
    (hr : Run i cmd t h cl) (hc : cmd.single = true) {o : Outcome} (ho : .invoked o ∈ cl.op.log) :
    ∃ c, Talk cmd ((ownRecords i h).map fun e => (e.query, e.reply)) cl.op.act c ∧
      (∀ r, o = .value r → c = .satisfy r) ∧ (∀ e, o = .error e → ∀ r, c ≠ .satisfy r) := by
  obtain ⟨hreach, -⟩ := hr.reachable
  obtain ⟨c, hs⟩ := Machine.stage hc hreach
  have hpend : cl.machine.pending = 0 := hs.ended o ho
  have hbox : cl.inbox.filterMap Msg.sent = [] := by
    have : (cl.inbox.filterMap Msg.sent ++ cl.op.outbox).length = 0 := Nat.eq_zero_of_add_eq_zero_right hpend
    exact (List.append_eq_nil_iff.mp (List.length_eq_zero_iff.mp this)).1
  have hin : cl.inbox.filterMap Msg.answer = [] := by
    rw [List.filterMap_eq_nil_iff] at hbox ⊢
    intro msg hm
    cases msg with
    | reply s r => exact absurd (hbox _ hm) (by simp [Msg.sent])
    | event id w => rfl
  refine ⟨c, ?_, ?_, ?_⟩
  · rw [hr.replies, Client.replies, hin, ← hr.cmd_eq]
    exact hs.talk
  · rintro r rfl
    exact hs.value r ho
  · rintro e rfl
    exact hs.error e ho

end Cocaine.Unicorn
