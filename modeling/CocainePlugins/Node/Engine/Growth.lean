import Mathlib.Order.Bounds.Basic
import CocainePlugins.Framework.Double
import CocainePlugins.Node.Engine.Capacity
import CocainePlugins.Node.Engine.Population

/-!
# The growth of a pool

Without a queue limit and without a manual target `rebalance_slaves` spawns the
slaves that lack for the queue. It takes the sum of the loads from the channels
of the pool, and the sum is accumulated in an `int`: what it loses there the
pool seems to have vacant. `grown_iff` says when the pool gets the size that the
queue needs.
-/

namespace Cocaine.Node.Engine

open Framework Slave

variable {st : Engine}

def totalLoad (st : Engine) : Nat := (st.pool.map st.load).sum

theorem poolVacant_eq (h : st.totalLoad ≤ st.pool.length * st.profile.concurrency)
    (hlt : st.pool.length * st.profile.concurrency < 2 ^ 53) :
    st.poolVacant = st.pool.length * st.profile.concurrency - st.totalLoad +
      lost32 st.totalLoad := by
  rw [poolVacant, poolPressure, u64, Nat.mod_eq_of_lt (by omega), totalLoad]
  exact sub64_accumulate32 h (by omega)

/-- The quotient of `lack` is one of doubles. -/
theorem lack_double (hc : 0 < st.profile.concurrency) (hc' : st.profile.concurrency < 2 ^ 53)
    (hq : st.queue.length < 2 ^ 53) (hv : st.poolVacant ≤ st.queue.length) {y : ℚ}
    (hy : Nearest 53 (((st.queue.length - st.poolVacant : Nat) : ℚ) / st.profile.concurrency) y) :
    st.lack = ⌈y⌉₊ := by
  rw [lack, if_neg (Nat.not_lt_of_le hv), hy.ceil_div hc (by omega) hc']

/-- So many slaves lack if the queue is longer than what all but one of them and the
vacant channels can take. -/
theorem le_lack_iff (hc : 0 < st.profile.concurrency) {k : Nat} (hk : 0 < k) :
    k ≤ st.lack ↔ st.poolVacant + (k - 1) * st.profile.concurrency < st.queue.length := by
  unfold lack
  split
  · constructor <;> intro h <;> omega
  · rw [Nat.le_div_iff_mul_le hc]
    obtain ⟨k, rfl⟩ : ∃ j, k = j + 1 := ⟨k - 1, by omega⟩
    rw [Nat.add_sub_cancel, Nat.succ_mul]
    omega

/-- The size that `rebalance_slaves` gives the pool when it returns. -/
theorem length_automatic (hs : st.stopped = false) (hf : st.failed = false)
    (hb : st.backoff = false) (hm : st.poolTarget = 0) (hl : st.profile.queueLimit = 0)
    {env : Supply} (hret : (st.rebalanceSlaves env).2 = false) :
    (st.rebalanceSlaves env).1.pool.length =
      if st.profile.poolLimit ≤ st.pool.length then st.pool.length
      else max st.pool.length st.boundedTarget := by
  have hpool : st.afterTarget.pool = st.pool := by
    obtain ⟨b, l, heq⟩ := st.afterTarget_eq
    rw [heq]
  have hfail : st.afterTarget.failed = false := by
    rw [afterTarget, if_neg (by simp [dividesByZero, hl]), if_pos ⟨hm, hl⟩]
    exact hf
  unfold rebalanceSlaves at hret ⊢
  simp only [hs, hfail, hb, hm, Bool.or_self, Bool.false_eq_true, if_false, Nat.lt_irrefl] at hret ⊢
  split
  · rw [hpool]
  · rename_i hlt
    rw [if_neg hlt] at hret
    obtain ⟨k, -, hg, hk⟩ := st.afterTarget.spawnLoop_grown
      (st.boundedTarget - st.pool.length) env.fails
    rw [hg.length, hk hret, hpool]
    omega

/-- The code never spawns more slaves than the queue needs. -/
theorem add_lack_le (hc : 0 < st.profile.concurrency)
    (hload : st.totalLoad ≤ st.pool.length * st.profile.concurrency)
    (hvacant : st.poolVacant = st.pool.length * st.profile.concurrency - st.totalLoad +
      lost32 st.totalLoad) {n : Nat} (hle : st.pool.length ≤ n)
    (hneed : st.queue.length + st.totalLoad ≤ n * st.profile.concurrency) :
    st.pool.length + st.lack ≤ n := by
  rcases Nat.eq_zero_or_pos st.lack with hzero | hpos
  · omega
  · have hq := (le_lack_iff hc hpos).mp (Nat.le_refl _)
    have hlt : (st.pool.length + (st.lack - 1)) * st.profile.concurrency <
        n * st.profile.concurrency := by
      rw [Nat.add_mul]
      omega
    have := Nat.lt_of_mul_lt_mul_right hlt
    omega

/-- So many slaves are there in the end if the queue, and what the sum of the loads
loses, is more than one slave less can take. -/
theorem le_add_lack_iff (hc : 0 < st.profile.concurrency)
    (hload : st.totalLoad ≤ st.pool.length * st.profile.concurrency)
    (hvacant : st.poolVacant = st.pool.length * st.profile.concurrency - st.totalLoad +
      lost32 st.totalLoad) {m : Nat} (hlt : st.pool.length < m) :
    m ≤ st.pool.length + st.lack ↔
      (m - 1) * st.profile.concurrency + lost32 st.totalLoad < st.totalLoad + st.queue.length := by
  obtain ⟨k, rfl⟩ := Nat.exists_eq_add_of_lt hlt
  have hiff : k + 1 ≤ st.lack ↔ _ := le_lack_iff hc (Nat.succ_pos k)
  rw [Nat.add_sub_cancel, Nat.add_mul]
  rw [Nat.succ_sub_one] at hiff
  omega

theorem bounded_eq_iff {size lack limit n : Nat} (hlt : size < limit) (hle : max size 1 ≤ n)
    (hu : size + lack ≤ n) : max size (max 1 (min (size + lack) limit)) = min n limit ↔
      min n limit ≤ max size 1 ∨ min n limit ≤ size + lack := by
  omega

/-- When the pool gets the size that the queue needs. -/
theorem grown_iff (hm : st.poolTarget = 0) (hl : st.profile.queueLimit = 0)
    (hc : 0 < st.profile.concurrency) (hlt : st.pool.length < st.profile.poolLimit)
    (hload : st.totalLoad ≤ st.pool.length * st.profile.concurrency)
    (hsmall : st.pool.length * st.profile.concurrency < 2 ^ 53) {n : Nat}
    (hle : max st.pool.length 1 ≤ n)
    (hneed : st.queue.length + st.totalLoad ≤ n * st.profile.concurrency) :
    max st.pool.length st.boundedTarget = min n st.profile.poolLimit ↔
      min n st.profile.poolLimit ≤ max st.pool.length 1 ∨
      (min n st.profile.poolLimit - 1) * st.profile.concurrency + lost32 st.totalLoad <
        st.totalLoad + st.queue.length := by
  have htarget : st.boundedTarget = max 1 (min (st.pool.length + st.lack) st.profile.poolLimit) := by
    rw [boundedTarget, target, hm, hl, if_neg (Nat.lt_irrefl 0), if_neg (Nat.lt_irrefl 0)]
  have hvacant := poolVacant_eq hload hsmall
  have hsize : st.pool.length ≤ n := Nat.le_trans (Nat.le_max_left ..) hle
  rw [htarget, bounded_eq_iff hlt hle (add_lack_le hc hload hvacant hsize hneed)]
  refine or_congr_right' fun hgrows => le_add_lack_iff hc hload hvacant ?_
  exact Nat.lt_of_le_of_lt (Nat.le_max_left ..) (Nat.lt_of_not_le hgrows)

/-- For a running engine that waits for no backoff, without a manual target and
without a queue limit: let `n` be the least size that is not smaller than the old
one and leaves a channel for each request of the queue. A call that returns, as it
does unless a construction throws, brings the pool to `n`, bounded by the limit, if
and only if the pool is at its limit already, or needs no new slave, or one slave
less would be too few even if the loads were smaller by what their sum loses in an
`int`. -/
theorem automatic_growth (hs : st.stopped = false) (hf : st.failed = false)
    (hb : st.backoff = false) (hm : st.poolTarget = 0) (hl : st.profile.queueLimit = 0)
    (hc : 0 < st.profile.concurrency) (hp : 0 < st.profile.poolLimit)
    (hload : ∀ i ∈ st.pool, st.load i ≤ st.profile.concurrency)
    (hc' : st.profile.concurrency < 2 ^ 53) (hq : st.queue.length < 2 ^ 53)
    (hsmall : st.pool.length * st.profile.concurrency < 2 ^ 53) (env : Supply) {n : Nat}
    (hn : IsLeast {n | max st.pool.length 1 ≤ n ∧
      st.queue.length + st.totalLoad ≤ n * st.profile.concurrency} n) :
    ((st.rebalanceSlaves env).2 = true ↔ ∃ k, env.fails = some k ∧ k < st.demand) ∧
    ((st.rebalanceSlaves env).2 = false →
      ((st.rebalanceSlaves env).1.pool.length =
          (if st.profile.poolLimit ≤ st.pool.length then st.pool.length
          else min n st.profile.poolLimit) ↔
        st.profile.poolLimit ≤ st.pool.length ∨
        min n st.profile.poolLimit ≤ max st.pool.length 1 ∨
        (min n st.profile.poolLimit - 1) * st.profile.concurrency + lost32 st.totalLoad <
          st.totalLoad + st.queue.length)) ∧
    (st.poolVacant ≤ st.queue.length → ∀ y : ℚ,
      Nearest 53 (((st.queue.length - st.poolVacant : Nat) : ℚ) / st.profile.concurrency) y →
        st.lack = ⌈y⌉₊) := by
  refine ⟨rebalanceSlaves_throws hp env, fun hret => ?_, fun hv y hy => lack_double hc hc' hq hv hy⟩
  rw [length_automatic hs hf hb hm hl hret]
  split
  · rename_i hfull
    exact iff_of_true rfl (.inl hfull)
  · rename_i hroom
    rw [or_iff_right hroom]
    exact grown_iff hm hl hc (Nat.lt_of_not_le hroom) (sum_load_le hload) hsmall hn.1.1 hn.1.2

/-- A slave that serves two requests, and three more in the queue. -/
def busy : Engine where
  profile := { queueLimit := 0, concurrency := 2 }
  pool := [0]
  born := 1
  queue := [2, 3, 4]
  workers := fun _ => { machine := { channels := [2, 3] } }

theorem automatic_growth_busy : (busy.rebalanceSlaves {}).1.pool.length = 3 := by
  have hn : IsLeast {n | max busy.pool.length 1 ≤ n ∧
      busy.queue.length + busy.totalLoad ≤ n * busy.profile.concurrency} 3 := by
    refine ⟨by decide, fun n h => ?_⟩
    have h : 3 + 2 ≤ n * 2 := h.2
    omega
  obtain ⟨-, hsize, -⟩ := automatic_growth rfl rfl rfl rfl rfl (by decide) (by decide)
    (by decide) (by decide) (by decide) (by decide) {} hn
  exact (hsize (by decide)).mpr (.inr (.inr (by decide)))

/-- A slave whose channels are all in use, and a request in the queue. -/
def crowded (channels : List Nat) : Engine where
  profile := { queueLimit := 0, concurrency := channels.length }
  pool := [0]
  born := 1
  queue := [0]
  workers := fun _ => { machine := { channels := channels } }

variable {channels : List Nat}

/-- An `int` does not count so many channels: the slave seems to be vacant. -/
theorem lack_crowded (h : channels.length = 2 ^ 31) :
    (crowded channels).lack = 0 := by
  have hload : (crowded channels).totalLoad = 2 ^ 31 := h
  have hcapacity : (crowded channels).pool.length * (crowded channels).profile.concurrency =
      2 ^ 31 := by
    show 1 * channels.length = 2 ^ 31
    rw [h, Nat.one_mul]
  have hvacant : (crowded channels).poolVacant = 2 ^ 32 := by
    rw [poolVacant_eq (by omega) (by omega), hcapacity, hload]
    decide
  rw [lack, hvacant]
  rfl

theorem length_crowded (h : channels.length = 2 ^ 31) :
    ((crowded channels).rebalanceSlaves {}).2 = false ∧
      ((crowded channels).rebalanceSlaves {}).1.pool.length = 1 := by
  have hret : ((crowded channels).rebalanceSlaves {}).2 = false := by
    refine Bool.eq_false_iff.mpr fun ht => ?_
    obtain ⟨k, hk, -⟩ := (rebalanceSlaves_throws (Nat.succ_pos 9) {}).mp ht
    cases hk
  have htarget : (crowded channels).boundedTarget = 1 := by
    show max 1 (min (1 + (crowded channels).lack) 10) = 1
    rw [lack_crowded h]
    rfl
  refine ⟨hret, ?_⟩
  rw [length_automatic rfl rfl rfl rfl rfl hret, htarget]
  rfl

theorem isLeast_crowded (h : channels.length = 2 ^ 31) :
    IsLeast {n | max (crowded channels).pool.length 1 ≤ n ∧
      (crowded channels).queue.length + (crowded channels).totalLoad ≤
        n * (crowded channels).profile.concurrency} 2 := by
  constructor
  · show 1 ≤ 2 ∧ 1 + channels.length ≤ 2 * channels.length
    omega
  · intro n hn
    have hneed : 1 + channels.length ≤ n * channels.length := hn.2
    rw [h] at hneed
    omega

theorem load_crowded (channels : List Nat) :
    (∀ i ∈ (crowded channels).pool,
      (crowded channels).load i ≤ (crowded channels).profile.concurrency) ∧
    (crowded channels).profile.poolLimit = 10 :=
  ⟨fun _ _ => Nat.le_refl channels.length, rfl⟩

def overcrowded : Engine := crowded (List.range (2 ^ 31))

/-- The queue needs a second slave, and none is spawned. -/
theorem growth_missed :
    ((∀ i ∈ overcrowded.pool, overcrowded.load i ≤ overcrowded.profile.concurrency) ∧
      overcrowded.profile.poolLimit = 10) ∧
    IsLeast {n | max overcrowded.pool.length 1 ≤ n ∧
      overcrowded.queue.length + overcrowded.totalLoad ≤ n * overcrowded.profile.concurrency} 2 ∧
    (overcrowded.rebalanceSlaves {}).2 = false ∧
    (overcrowded.rebalanceSlaves {}).1.pool.length = 1 := by
  unfold overcrowded
  exact ⟨load_crowded _, isLeast_crowded List.length_range, length_crowded List.length_range⟩

end Cocaine.Node.Engine
