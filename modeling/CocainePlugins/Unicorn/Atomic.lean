import CocainePlugins.Unicorn.Conversation
import CocainePlugins.Unicorn.Version

/-!
# The updates of `put` and `increment`

Each of the two makes at most one request that can change the node, and learns from
its reply whether it did. A `put` passes the user's version; an `increment` passes the
version of the value it has read, which still is the node's value when the version
still is the node's (`Follows`), as long as nobody deletes the node.
-/

namespace Cocaine.Unicorn

open Framework

/-! ## Their conversations -/

variable {l : List (Query × Reply)} {a : Action} {path : Str} {value : Value} {v : Int}

theorem PutT.talk {c : Call} (h : Talk (.put path value v) l a c) : a = .init (.put path value v) ∧
      ((l = [] ∧ PutT.run path value v = [c]) ∨
      (∃ rc stat, 0 ≤ v ∧ l = [(.put path (serialize value) v, .put rc stat)] ∧
        PutT.onPut path value rc stat = [c]) ∨
      ∃ stat rc data stat', 0 ≤ v ∧
        l = [(.get path, .get rc data stat'), (.put path (serialize value) v, .put .badVersion stat)] ∧
        PutT.onGet rc data stat' = [c]) := by
  induction h with
  | start h => exact ⟨rfl, .inl ⟨rfl, h⟩⟩
  | @reply l a q r c ht hr hc ih =>
    obtain ⟨rfl, ih⟩ := ih
    rcases ih with ⟨rfl, hrun⟩ | ⟨rc, stat, h0, rfl, hput⟩ | ⟨stat, rc, data, stat', h0, rfl, hget⟩
    · unfold PutT.run at hrun
      split at hrun
      · cases hrun
      · rename_i h0
        cases hrun
        cases r with
        | put rc stat => exact ⟨rfl, .inr (.inl ⟨rc, stat, Int.not_lt.mp h0, rfl, hc⟩)⟩
        | _ => cases hr
    · unfold PutT.onPut at hput
      split at hput
      · rename_i hrc
        subst hrc
        cases hput
        cases r with
        | get rc data stat' => exact ⟨rfl, .inr (.inr ⟨stat, rc, data, stat', h0, rfl, hc⟩)⟩
        | _ => cases hr
      · split at hput <;> cases hput
    · unfold PutT.onGet at hget
      split at hget
      · cases hget
      · split at hget <;> cases hget

theorem PutT.talk_satisfy {r : Response} (h : Talk (.put path value v) l a (.satisfy r)) :
    (∃ stat, 0 ≤ v ∧ l = [(.put path (serialize value) v, .put .ok stat)] ∧
      r = .put true ⟨value, stat.version⟩) ∨
    ∃ stat val stat', l = [(.get path, .get .ok (serialize val) stat'),
        (.put path (serialize value) v, .put .badVersion stat)] ∧
      r = .put false ⟨val, stat'.version⟩ := by
  obtain ⟨-, ⟨-, hrun⟩ | ⟨rc, stat, h0, hl, hput⟩ | ⟨stat, rc, data, stat', -, hl, hget⟩⟩ := PutT.talk h
  · unfold PutT.run at hrun
    split at hrun <;> cases hrun
  · unfold PutT.onPut at hput
    split at hput
    · cases hput
    · split at hput
      · cases hput
      · rename_i hrc
        obtain rfl : rc = .ok := by simpa using hrc
        cases hput
        exact .inl ⟨stat, h0, hl, rfl⟩
  · unfold PutT.onGet at hget
    split at hget
    · cases hget
    · rename_i hrc
      obtain rfl : rc = .ok := by simpa using hrc
      cases data with
      | packed val =>
        cases hget
        exact .inr ⟨stat, val, stat', hl, rfl⟩
      | raw => cases hget

/-- What follows from the value that was read: the new value and the call. -/
inductive IncrementT.Next (path : Str) (delta : Value) : Rc → Data → Stat → Value → Call → Prop where
  | absent (data : Data) (stat : Stat) : Next path delta .noNode data stat delta
      (.request (.create path (serialize delta) false false) false)
  | found (old : Value) (stat : Stat) : Next path delta .ok (.packed old) stat (sum old delta)
      (.request (.put path (serialize (sum old delta)) stat.version) false)
  | failed (rc : Rc) (data : Data) (stat : Stat) (e : Error) :
      Next path delta rc data stat delta (.throw e)

theorem IncrementT.next {delta v : Value} {rc : Rc} {data : Data} {stat : Stat}
    {c : Call} (h : onGet path delta rc data stat = (v, [c])) : Next path delta rc data stat v c := by
  unfold onGet at h
  split at h
  · rename_i hrc
    subst hrc
    cases h
    exact .absent _ _
  · split at h
    · cases h
      exact .failed _ _ _ _
    · rename_i hrc
      have hrc : rc = .ok := by simpa using hrc
      subst hrc
      split at h
      · cases h
        exact .failed _ _ _ _
      · rename_i old hold
        have hdata : data = .packed old := by
          cases data <;> cases hold
          rfl
        subst hdata
        split at h
        · cases h
          exact .failed _ _ _ _
        · split at h
          · cases h
            exact .failed _ _ _ _
          · cases h
            exact .found _ _

variable {delta : Value}

theorem IncrementT.talk {c : Call} (h : Talk (.increment path delta) l a c) :
    a.cmd = .increment path delta ∧
      ((l = [] ∧ a.value = delta ∧ IncrementT.run path delta = [c]) ∨
      (∃ rc data stat, l = [(.get path, .get rc data stat)] ∧
        Next path delta rc data stat a.value c) ∨
      (∃ data stat rc p, l = [(.create path (serialize delta) false false, .create rc p),
          (.get path, .get .noNode data stat)] ∧ IncrementT.onCreate delta rc = [c]) ∨
      ∃ old stat rc stat', l = [(.put path (serialize (sum old delta)) stat.version, .put rc stat'),
          (.get path, .get .ok (.packed old) stat)] ∧ IncrementT.onPut (sum old delta) rc stat' = [c]) := by
  induction h with
  | start h => exact ⟨rfl, .inl ⟨rfl, rfl, h⟩⟩
  | @reply l a q r c ht hr hc ih =>
    obtain ⟨cmd, depth, v, created⟩ := a
    obtain ⟨rfl, ih⟩ := ih
    refine ⟨Action.cmd_onReply _ _ _, ?_⟩
    rcases ih with ⟨rfl, hv, hrun⟩ | ⟨rc, data, stat, rfl, hn⟩ | ⟨data, stat, rc, p, rfl, h'⟩ |
      ⟨old, stat, rc, stat', rfl, h'⟩
    · dsimp only at hv
      subst hv
      unfold IncrementT.run at hrun
      split at hrun
      · cases hrun
        cases r with
        | get rc data stat => exact .inr (.inl ⟨rc, data, stat, rfl, next (Prod.ext rfl hc)⟩)
        | _ => cases hr
      · cases hrun
    · dsimp only at hn
      cases hn with
      | absent =>
        cases r with
        | create rc p => exact .inr (.inr (.inl ⟨data, stat, rc, p, rfl, hc⟩))
        | _ => cases hr
      | found old =>
        cases r with
        | put rc stat' => exact .inr (.inr (.inr ⟨old, stat, rc, stat', rfl, hc⟩))
        | _ => cases hr
    · unfold IncrementT.onCreate at h'
      split at h' <;> cases h'
    · unfold IncrementT.onPut at h'
      split at h' <;> cases h'

theorem IncrementT.talk_satisfy {r : Response} (h : Talk (.increment path delta) l a (.satisfy r)) :
    (∃ data stat p, l = [(.create path (serialize delta) false false, .create .ok p),
        (.get path, .get .noNode data stat)] ∧ r = .value ⟨delta, 0⟩) ∨
    ∃ old stat stat', l = [(.put path (serialize (sum old delta)) stat.version, .put .ok stat'),
        (.get path, .get .ok (.packed old) stat)] ∧
      r = .value ⟨sum old delta, stat'.version⟩ := by
  obtain ⟨-, ⟨-, -, hrun⟩ | ⟨rc, data, stat, -, hn⟩ | ⟨data, stat, rc, p, hl, h'⟩ |
    ⟨old, stat, rc, stat', hl, h'⟩⟩ := IncrementT.talk h
  · unfold IncrementT.run at hrun
    split at hrun <;> cases hrun
  · generalize a.value = v at hn
    cases hn
  · unfold IncrementT.onCreate at h'
    split at h'
    · cases h'
    · rename_i hrc
      obtain rfl : rc = .ok := by simpa using hrc
      cases h'
      exact .inl ⟨data, stat, p, hl, rfl⟩
  · unfold IncrementT.onPut at h'
    split at h'
    · cases h'
    · rename_i hrc
      obtain rfl : rc = .ok := by simpa using hrc
      cases h'
      exact .inr ⟨old, stat, stat', hl, rfl⟩

/-! ## The node between two requests -/

/-- The node is still there, and its value changed only together with its version. -/
def Follows (path : Str) (t t' : Ztree Data) : Prop :=
  ∀ n, t.node path = some n → ∃ n', t'.node path = some n' ∧ n.version ≤ n'.version ∧
    (n'.version = n.version → n'.data = n.data)

namespace Follows

variable {path : Str} {t t' t'' : Ztree Data}

theorem refl (path : Str) (t : Ztree Data) : Follows path t t := fun n hn => ⟨n, hn, le_rfl, fun _ => rfl⟩

theorem trans (h : Follows path t t') (h' : Follows path t' t'') : Follows path t t'' := by
  intro n hn
  obtain ⟨n', hn', hle, hd⟩ := h n hn
  obtain ⟨n'', hn'', hle', hd'⟩ := h' n' hn'
  refine ⟨n'', hn'', hle.trans hle', fun heq => ?_⟩
  rw [hd' (by omega), hd (by omega)]

theorem of_change (hc : Ztree.Change (t.node path) (t'.node path))
    (hk : t.node path ≠ none → t'.node path ≠ none) : Follows path t t' := by
  intro n hn
  rw [hn] at hc hk
  generalize t'.node path = o at hc hk
  cases hc with
  | same => exact ⟨n, rfl, le_rfl, fun _ => rfl⟩
  | died => exact absurd rfl (hk nofun)
  | set => exact ⟨_, rfl, Nat.le_succ _, fun h => absurd h (Nat.succ_ne_self _)⟩
  | children => exact ⟨_, rfl, le_rfl, fun _ => rfl⟩

end Follows

section

variable {i : Nat} {cmd : Command} {t : Ztree Data} {h : List Served} {c : Client} {path : Str}

/-- While nobody deletes the node, each request of a call finds what follows from
the earlier ones. -/
theorem Run.follows (hr : Run i cmd t h c)
    (hk : ∀ e ∈ h, i < e.calls → e.before.node path ≠ none → e.after.node path ≠ none) :
    (ownRecords i h).Pairwise (fun e e' => Follows path e'.after e.before) ∧
      ∀ e ∈ ownRecords i h, Follows path e.after t := by
  induction hr with
  | start l hh =>
    rw [ownRecords_eq_nil fun e he => (hh e he).1]
    simp
  | @other t h c client calls q f hr hc hi ih =>
    rw [List.forall_mem_cons] at hk
    obtain ⟨hp, hf⟩ := ih hk.2
    have hstep : Follows path t (answer t q f).1 := .of_change (answer_change t q f path) (hk.1 hi)
    rw [ownRecords_cons_of_ne hc]
    exact ⟨hp, fun e he => (hf e he).trans hstep⟩
  | @serve t h c calls s rest f hr hi ho hf ih =>
    rw [List.forall_mem_cons] at hk
    obtain ⟨hp, hfol⟩ := ih hk.2
    have hstep : Follows path t (answer t s.query f).1 :=
      .of_change (answer_change t s.query f path) (hk.1 hi)
    rw [ownRecords_cons_self rfl, List.pairwise_cons, List.forall_mem_cons]
    exact ⟨⟨hfol, hp⟩, .refl _ _, fun e he => (hfol e he).trans hstep⟩
  | move hr ha ih => exact ih hk

end

/-! ## Where an update took effect -/

/-- No request of the call changed anything. -/
def Untouched (i : Nat) (h : List Served) : Prop := ∀ e ∈ ownRecords i h, e.after = e.before

/-- This request of the call is the only one that changed something. -/
def Effect (i : Nat) (h : List Served) (e : Served) : Prop :=
  ∃ l₁ l₂, ownRecords i h = l₁ ++ e :: l₂ ∧ ∀ e' ∈ l₁ ++ l₂, e'.after = e'.before

/-- The integer that a node holds; a missing one counts as zero. -/
def number : Option (Znode Data) → Int
  | some ⟨.packed v, _, _, _, _⟩ => toInt64 v
  | _ => 0

/-- The node is missing or holds an integer. -/
def holdsInteger : Option (Znode Data) → Bool
  | some ⟨.packed v, _, _, _, _⟩ => isInteger v
  | some ⟨.raw, _, _, _, _⟩ => false
  | none => true

/-- The version that the request passes fits into the library's argument. -/
def Query.fits : Query → Bool
  | .put _ _ version => version < 2 ^ 31
  | _ => true

/-- No connection is lost, the versions that are passed fit, and nobody deletes the
node since the call was made. -/
structure Calm (i : Nat) (path : Str) (h : List Served) : Prop where
  connected : Connected i h
  version : ∀ e ∈ ownRecords i h, e.query.fits = true
  kept : ∀ e ∈ h, i < e.calls → e.before.node path ≠ none → e.after.node path ≠ none

/-- What a `put` may report. -/
structure PutAtomic (i : Nat) (path : Str) (value : Value) (v : Int) (h : List Served)
    (log : List Obs) : Prop where
  updated : ∀ cur, .invoked (.value (.put true cur)) ∈ log → ∃ e n, Effect i h e ∧
    e.before.node path = some n ∧ (n.version : Int) = v ∧
    e.after.node = Function.update e.before.node path
      (some { n with data := serialize value, version := n.version + 1 }) ∧
    cur = ⟨value, n.version + 1⟩
  refused : ∀ cur, .invoked (.value (.put false cur)) ∈ log → Untouched i h ∧
    ∃ e ∈ ownRecords i h, ∃ n, e.before.node path = some n ∧ n.data = serialize cur.value ∧
      (n.version : Int) = cur.version
  failed : ∀ err, .invoked (.error err) ∈ log → Untouched i h

/-- What an `increment` may report. -/
structure IncrementAtomic (i : Nat) (path : Str) (delta : Value) (h : List Served)
    (log : List Obs) : Prop where
  updated : ∀ cur, .invoked (.value (.value cur)) ∈ log → ∃ e, Effect i h e ∧
    (∃ n, e.after.node path = some n ∧ n.data = serialize cur.value ∧
      (n.version : Int) = cur.version) ∧
    (isInteger delta = true → holdsInteger (e.before.node path) = true →
      -2 ^ 63 ≤ number (e.before.node path) + toInt64 delta →
      number (e.before.node path) + toInt64 delta < 2 ^ 63 →
      number (e.after.node path) = number (e.before.node path) + toInt64 delta)
  failed : ∀ err, .invoked (.error err) ∈ log → Untouched i h

section

variable {i : Nat} {cmd : Command} {t : Ztree Data} {h : List Served} {c : Client} {path : Str}

theorem Calm.lt_of_put (hc : Calm i path h) {e : Served} (he : e ∈ ownRecords i h) {p : Str}
    {data : Data} (hq : e.query = .put p data v) : v < 2 ^ 31 := by
  have hf := hc.version e he
  rw [hq] at hf
  exact of_decide_eq_true hf

theorem map_eq_singleton {l : List Served} {q : Query} {r : Reply}
    (hl : l.map (fun e => (e.query, e.reply)) = [(q, r)]) :
    ∃ e, l = [e] ∧ e.query = q ∧ e.reply = r := by
  obtain ⟨e, rfl⟩ := List.length_eq_one_iff.mp (by simpa using congrArg List.length hl)
  simpa using hl

theorem map_eq_pair {l : List Served} {q q' : Query} {r r' : Reply}
    (hl : l.map (fun e => (e.query, e.reply)) = [(q, r), (q', r')]) :
    ∃ e e', l = [e, e'] ∧ (e.query = q ∧ e.reply = r) ∧ e'.query = q' ∧ e'.reply = r' := by
  obtain ⟨e, e', rfl⟩ := List.length_eq_two.mp (by simpa using congrArg List.length hl)
  simpa using hl

/-- The requests of a call change nothing if none of them does with its reply. -/
theorem untouched_of_replies (hr : Run i cmd t h c) (hc : Calm i path h)
    (hl : (ownRecords i h).map (fun e => (e.query, e.reply)) = l)
    (hsame : ∀ x ∈ l, ∀ u u' : Ztree Data, serve u x.1 = (u', x.2) → u' = u) : Untouched i h := by
  intro e he
  have hmem : (e.query, e.reply) ∈ l := hl ▸ List.mem_map_of_mem he
  exact hsame _ hmem _ _ (hc.connected.serve_eq hr he)

theorem put_untouched {call : Call} (hr : Run i cmd t h c) (hc : Calm i path h)
    (hl : (ownRecords i h).map (fun e => (e.query, e.reply)) = l)
    (ht : Talk (.put path value v) l a call) (hcall : ∀ cur, call ≠ .satisfy (.put true cur)) :
    Untouched i h := by
  obtain ⟨-, ⟨rfl, -⟩ | ⟨rc, stat, -, rfl, hput⟩ | ⟨stat, rc, data, stat', -, rfl, -⟩⟩ := PutT.talk ht
  · exact untouched_of_replies hr hc hl (by simp)
  · have hrc : rc ≠ .ok := by
      rintro rfl
      have : call = .satisfy (.put true ⟨value, stat.version⟩) := by simpa [PutT.onPut] using hput.symm
      exact hcall _ this
    refine untouched_of_replies hr hc hl (List.forall_mem_singleton.mpr fun u u' hs => ?_)
    exact serve_put_error hs hrc
  · exact untouched_of_replies hr hc hl (List.forall_mem_cons.mpr ⟨fun u u' hs => (serve_get hs).1,
      List.forall_mem_singleton.mpr fun u u' hs => serve_put_error hs nofun⟩)

theorem put_atomic (hr : Run i (.put path value v) t h c)
    (hc : Calm i path h) : PutAtomic i path value v h c.op.log := by
  refine ⟨fun cur ho => ?_, fun cur ho => ?_, fun err ho => ?_⟩
  · obtain ⟨call, ht, hv, -⟩ := hr.told rfl ho
    obtain rfl := hv _ rfl
    rcases PutT.talk_satisfy ht with ⟨stat, h0, hl, heq⟩ | ⟨_, _, _, -, heq⟩
    · cases heq
      obtain ⟨e, he, hq, hrep⟩ := map_eq_singleton hl
      have hmem : e ∈ ownRecords i h := he ▸ List.mem_singleton_self e
      have hs := hc.connected.serve_eq hr hmem
      rw [hq, hrep] at hs
      obtain ⟨n, hn, hexp, hnode, hver⟩ := serve_put_ok hs
      refine ⟨e, n, ⟨[], [], he, by simp⟩, hn, ?_, hnode, by rw [hver]⟩
      exact (expects_i32_iff h0 (hc.lt_of_put hmem hq)).mp hexp
    · cases heq
  · obtain ⟨call, ht, hv, -⟩ := hr.told rfl ho
    obtain rfl := hv _ rfl
    refine ⟨put_untouched hr hc rfl ht nofun, ?_⟩
    rcases PutT.talk_satisfy ht with ⟨_, -, -, heq⟩ | ⟨stat, val, stat', hl, heq⟩
    · cases heq
    · cases heq
      obtain ⟨e, e', he, ⟨hq, hrep⟩, -, -⟩ := map_eq_pair hl
      have hmem : e ∈ ownRecords i h := by simp [he]
      have hs := hc.connected.serve_eq hr hmem
      rw [hq, hrep] at hs
      obtain ⟨-, ⟨hrc, -⟩ | ⟨n, -, hn, hd, hst⟩⟩ := serve_get hs
      · cases hrc
      · exact ⟨e, hmem, n, hn, hd.symm, by rw [hst]; rfl⟩
  · obtain ⟨call, ht, -, hne⟩ := hr.told rfl ho
    exact put_untouched hr hc rfl ht fun cur => hne err rfl _

theorem increment_untouched {call : Call} (hr : Run i cmd t h c) (hc : Calm i path h)
    (hl : (ownRecords i h).map (fun e => (e.query, e.reply)) = l)
    (ht : Talk (.increment path delta) l a call) (hcall : ∀ r, call ≠ .satisfy r) :
    Untouched i h := by
  obtain ⟨-, ⟨rfl, -, -⟩ | ⟨rc, data, stat, rfl, -⟩ | ⟨data, stat, rc, p, rfl, h'⟩ |
    ⟨old, stat, rc, stat', rfl, h'⟩⟩ := IncrementT.talk ht
  · exact untouched_of_replies hr hc hl (by simp)
  · exact untouched_of_replies hr hc hl
      (List.forall_mem_singleton.mpr fun u u' hs => (serve_get hs).1)
  · have hrc : rc ≠ .ok := by
      rintro rfl
      exact hcall (.value ⟨delta, 0⟩) (by simpa [IncrementT.onCreate] using h'.symm)
    exact untouched_of_replies hr hc hl (List.forall_mem_cons.mpr
      ⟨fun u u' hs => serve_create_error hs hrc,
        List.forall_mem_singleton.mpr fun u u' hs => (serve_get hs).1⟩)
  · have hrc : rc ≠ .ok := by
      rintro rfl
      exact hcall (.value ⟨IncrementT.sum old delta, stat'.version⟩)
        (by simpa [IncrementT.onPut] using h'.symm)
    exact untouched_of_replies hr hc hl (List.forall_mem_cons.mpr
      ⟨fun u u' hs => serve_put_error hs hrc,
        List.forall_mem_singleton.mpr fun u u' hs => (serve_get hs).1⟩)

/-- The sum of two integers, if 64 bits hold it. -/
theorem IncrementT.sum_of_integers {old delta : Value} (ho : isInteger old = true)
    (hd : isInteger delta = true) (hlo : -2 ^ 63 ≤ toInt64 old + toInt64 delta)
    (hhi : toInt64 old + toInt64 delta < 2 ^ 63) :
    toInt64 (sum old delta) = toInt64 old + toInt64 delta := by
  have hnd : ∀ v, isInteger v = true → isDouble v = false := by
    rintro v hv
    cases v with
    | scalar s => cases s <;> first | rfl | cases hv
    | _ => cases hv
  rw [sum, hnd old ho, hnd delta hd]
  show i64 (toInt64 old + toInt64 delta) = _
  unfold i64
  rw [Int.bmod_eq_of_le] <;> omega

theorem increment_atomic (hr : Run i (.increment path delta) t h c)
    (hc : Calm i path h) : IncrementAtomic i path delta h c.op.log := by
  refine ⟨fun cur ho => ?_, fun err ho => ?_⟩
  · obtain ⟨call, ht, hv, -⟩ := hr.told rfl ho
    obtain rfl := hv _ rfl
    rcases IncrementT.talk_satisfy ht with ⟨data, stat, p, hl, heq⟩ | ⟨old, stat, stat', hl, heq⟩
    · cases heq
      obtain ⟨e, e', he, ⟨hq, hrep⟩, hq', hrep'⟩ := map_eq_pair hl
      have hs := hc.connected.serve_eq hr (e := e) (by simp [he])
      have hs' := hc.connected.serve_eq hr (e := e') (by simp [he])
      rw [hq, hrep] at hs
      rw [hq', hrep'] at hs'
      obtain ⟨hp, hnone, hsome⟩ := serve_create_ok hs
      obtain rfl : p = path := hp
      refine ⟨e, ⟨[], [e'], he, by simpa using (serve_get hs').1⟩, ⟨_, hsome, rfl, rfl⟩, ?_⟩
      intro _ _ _ _
      rw [hnone, hsome]
      simp [number, serialize]
    · cases heq
      obtain ⟨e, e', he, ⟨hq, hrep⟩, hq', hrep'⟩ := map_eq_pair hl
      have hmem : e ∈ ownRecords i h := by simp [he]
      have hs := hc.connected.serve_eq hr hmem
      have hs' := hc.connected.serve_eq hr (e := e') (by simp [he])
      rw [hq, hrep] at hs
      rw [hq', hrep'] at hs'
      obtain ⟨n, hn, hexp, hnode, hver⟩ := serve_put_ok hs
      obtain ⟨hsame, ⟨hrc, -⟩ | ⟨n', -, hn', hd, hst⟩⟩ := serve_get hs'
      · cases hrc
      -- The version that was read is the node's again, so its value is the one that was read.
      have hf : Follows path e'.after e.before := by
        have hp := (hr.follows hc.kept).1
        rw [he] at hp
        exact (List.pairwise_cons.mp hp).1 e' (List.mem_singleton_self e')
      have hold : n.data = .packed old := by
        have hv : (n.version : Int) = stat.version :=
          (expects_i32_iff (by rw [hst]; simp [Znode.stat]) (hc.lt_of_put hmem hq)).mp hexp
        obtain ⟨n'', hn'', -, hdata⟩ := hf n' (by rw [hsame, hn'])
        rw [hn] at hn''
        cases hn''
        rw [hst] at hv
        rw [hdata (Int.ofNat.inj hv), ← hd]
      have hafter : e.after.node path = some { n with
          data := serialize (IncrementT.sum old delta), version := n.version + 1 } := by
        rw [hnode, Function.update_self]
      refine ⟨e, ⟨[], [e'], he, by simpa using hsame⟩, ⟨_, hafter, rfl, by rw [hver]; rfl⟩, ?_⟩
      obtain ⟨ndata, nversion, ncversion, nchildren, nephemeral⟩ := n
      dsimp only at hold
      subst hold
      rw [hn, hafter]
      exact fun hd ho hlo hhi => IncrementT.sum_of_integers ho hd hlo hhi
  · obtain ⟨call, ht, -, hne⟩ := hr.told rfl ho
    exact increment_untouched hr hc rfl ht fun r => hne err rfl r

end

/-- Among any calls and any requests of others: what a `put` or an `increment`
reports is what it did, at one moment. -/
theorem update_atomic {w : World} (hr : worldSystem.Reachable System.Any w) {i : Nat} {c : Client}
    (hi : w.clients[i]? = some c) {path : Str} (hc : Calm i path w.history) :
    (∀ value v, c.op.act.cmd = .put path value v →
      PutAtomic i path value v w.history c.op.log) ∧
    (∀ delta, c.op.act.cmd = .increment path delta →
      IncrementAtomic i path delta w.history c.op.log) := by
  have hrun := World.run hr hi
  refine ⟨fun value v hcmd => ?_, fun delta hcmd => ?_⟩
  · rw [hcmd] at hrun
    exact put_atomic hrun hc
  · rw [hcmd] at hrun
    exact increment_atomic hrun hc

/-- An `increment` reads 5; before it writes, a `put` stores 9, so it fails. The next
`increment` stores 11. -/
theorem update_atomic_race : ∃ w c c', worldSystem.Reachable System.Any w ∧
    w.clients[0]? = some c ∧ Untouched 0 w.history ∧
    w.clients[2]? = some c' ∧ .invoked (.value (.value ⟨.int 11, 2⟩)) ∈ c'.op.log ∧
    ∃ e, Effect 2 w.history e ∧ number (e.after.node "/n".toList) = 11 := by
  obtain ⟨w, hr, ⟨c, hc, hcmd, herr⟩, ⟨c', hc', hcmd', hinv⟩, hconn, hfit, hkept⟩ :=
    worldSystem.exists_reachable System.Any
    (P := fun w =>
      (∃ c : Client, c ∈ w.clients[0]? ∧ c.op.act.cmd = .increment "/n".toList (.int 2) ∧
        .invoked (.error ⟨.versionNotAllowed, "failed to put new node value"⟩) ∈ c.op.log) ∧
      (∃ c : Client, c ∈ w.clients[2]? ∧ c.op.act.cmd = .increment "/n".toList (.int 2) ∧
        .invoked (.value (.value ⟨.int 11, 2⟩)) ∈ c.op.log) ∧
      (∀ e ∈ w.history, e.reply.rc.isFault = false) ∧
      (∀ e ∈ w.history, e.query.fits = true) ∧
      ∀ e ∈ w.history, e.before.node "/n".toList ≠ none → e.after.node "/n".toList ≠ none)
    [.run (.increment "/n".toList (.int 2)) {}, .run (.put "/n".toList (.int 9) 0) {},
      .serve 0 none, .serve 1 none, .move 1 (.deliver {}), .move 0 (.deliver {}), .serve 0 none,
      .move 0 (.deliver {}), .run (.increment "/n".toList (.int 2)) {}, .serve 2 none,
      .move 2 (.deliver {}), .serve 2 none, .move 2 (.deliver {})]
    (s := { tree := sampleTree }) ⟨rfl, rfl⟩ (by decide +kernel)
  have hcalm : ∀ i, Calm i "/n".toList w.history := fun i =>
    ⟨fun e he => hconn e (mem_ownRecords.mp he).1, fun e he => hfit e (mem_ownRecords.mp he).1,
      fun e he _ => hkept e he⟩
  have h0 := ((update_atomic hr hc (hcalm 0)).2 _ hcmd).failed _ herr
  obtain ⟨e, he, ⟨n, hn, hd, -⟩, -⟩ := ((update_atomic hr hc' (hcalm 2)).2 _ hcmd').updated _ hinv
  refine ⟨w, c, c', hr, hc, h0, hc', hinv, e, he, ?_⟩
  obtain ⟨data, version, cversion, children, ephemeral⟩ := n
  dsimp only at hd
  subst hd
  rw [hn]
  rfl

end Cocaine.Unicorn
