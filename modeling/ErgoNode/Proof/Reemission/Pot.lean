import ErgoNode.Proof.Reemission.Issued

/-!
# What the re-emission contract holds

A part of each emission goes to the contract, and from some height on miners claim from it. The income of
the miners is covered by the emission as long as they have not claimed more than was collected.
-/

namespace ErgoNode.ReemissionRules
open Lib Lib.Overflowing Finset

/-! ### One block -/

section Block
variable {settings : ReemissionSettings} {height : Nat}

def charged (emission : Nat) : Nat :=
  if emission ≥ 15 * coinsInOneErg then 12 * coinsInOneErg else emission - minReward

def emissionOf (height : Nat) : Nat := if height = 0 then 0 else epochReward ((height - fixedRatePeriod) / reductionPeriod)

def reemissionOf (settings : ReemissionSettings) (height : Nat) : Nat :=
  if settings.activationHeight ≤ height then charged (emissionOf height) else 0

theorem charged_le (emission : Nat) : charged emission ≤ emission := by
  unfold charged
  split
  · simp only [coinsInOneErg] at *
    omega
  · exact Nat.sub_le ..

theorem emissionOf_le (height : Nat) : emissionOf height ≤ initialReward := by
  unfold emissionOf epochReward
  split
  · exact Nat.zero_le _
  · split
    · decide
    · exact Nat.sub_le ..

theorem emissionAtHeight_eq (below : height < 2 ^ 32) : emissionAtHeight height = pure (emissionOf height) := by
  rcases Nat.eq_zero_or_pos height with rfl | positive
  · rfl
  · rw [emissionOf, if_neg (Nat.ne_of_gt positive)]
    rcases Nat.lt_or_ge fixedRatePeriod height with after | fixed
    · obtain ⟨blocks, rfl⟩ := Nat.exists_eq_add_of_lt after
      rw [Nat.add_assoc] at below ⊢
      rw [emissionAtHeight_after (Nat.succ_pos blocks) below, Nat.add_sub_cancel_left]
    · rw [emissionAtHeight_fixed positive fixed, Nat.sub_eq_zero_of_le fixed, Nat.zero_div]
      rfl

theorem reemissionForHeight_eq (below : height < 2 ^ 32) :
    (new settings).reemissionForHeight height = pure (reemissionOf settings height) := by
  have word : emissionOf height < u64 := (emissionOf_le height).trans_lt (by decide)
  have sum : 12 * coinsInOneErg + minReward = 15 * coinsInOneErg := by decide
  have charge : (new settings).basicChargeAmount = 12 * coinsInOneErg := rfl
  have threshold : add u64 (new settings).basicChargeAmount minReward = pure (15 * coinsInOneErg) := by
    rw [charge, add_eq (by decide), sum]
  rw [reemissionForHeight, emissionAtHeight_eq below, pure_bind, threshold, pure_bind]
  unfold reemissionOf charged
  by_cases active : settings.activationHeight ≤ height
  · by_cases large : emissionOf height ≥ 15 * coinsInOneErg
    · rw [if_pos ⟨active, large⟩, if_pos active, if_pos large]
      rfl
    · rw [if_neg fun both => large both.2, if_pos active, if_neg large]
      by_cases above : emissionOf height > minReward
      · rw [if_pos ⟨active, above⟩, sub_eq above.le word]
      · rw [if_neg fun both => above both.2, Nat.sub_eq_zero_of_le (Nat.not_lt.mp above)]
  · rw [if_neg fun both => active both.1, if_neg fun both => active both.1, if_neg active]

theorem minerRewardAtHeight_eq (below : height < 2 ^ 32) :
    (new settings).minerRewardAtHeight height = pure (emissionOf height - reemissionOf settings height) := by
  rw [minerRewardAtHeight, emissionAtHeight_eq below, pure_bind, reemissionForHeight_eq below, pure_bind]

theorem minReward_le_emissionOf (positive : 0 < height) : minReward ≤ emissionOf height := by
  rw [emissionOf, if_neg (Nat.ne_of_gt positive), epochReward]
  split
  · exact Nat.le_refl _
  · next above =>
      simp only [initialReward, minReward, coinsInOneErg] at above ⊢
      omega

theorem reemissionOf_le : reemissionOf settings height ≤ emissionOf height := by
  unfold reemissionOf
  split
  · exact charged_le _
  · exact Nat.zero_le _

theorem minReward_le_rest (positive : 0 < height) : minReward ≤ emissionOf height - reemissionOf settings height := by
  have least := minReward_le_emissionOf positive
  unfold reemissionOf charged
  split
  · split
    · next large =>
        simp only [minReward, coinsInOneErg] at large ⊢
        omega
    · omega
  · exact least

theorem totalMinerIncomeAtHeight_eq (below : height < 2 ^ 32) : (new settings).totalMinerIncomeAtHeight height =
    pure (emissionOf height - reemissionOf settings height + (new settings).claimableReemissionAtHeight height) := by
  have claimable : (new settings).claimableReemissionAtHeight height ≤ 3 * coinsInOneErg := by
    unfold claimableReemissionAtHeight
    split
    · exact Nat.le_refl _
    · exact Nat.zero_le _
  have emission := emissionOf_le height
  rw [totalMinerIncomeAtHeight, minerRewardAtHeight_eq below, pure_bind, add_eq]
  simp only [initialReward, coinsInOneErg, u64] at *
  omega

end Block

/-! ### All blocks -/

section Sums
variable {height : Nat}

/-- What the contract has collected after so many blocks. -/
def collected (settings : ReemissionSettings) (height : Nat) : Nat := ∑ i ∈ range height, reemissionOf settings (i + 1)

def claimed (settings : ReemissionSettings) (height : Nat) : Nat :=
  ∑ i ∈ range height, (new settings).claimableReemissionAtHeight (i + 1)

theorem claimed_mainnet : claimed .mainnet height = (height - 2080799) * (3 * coinsInOneErg) := by
  unfold claimed
  induction height with
  | zero => rfl
  | succ height ih =>
      rw [sum_range_succ, ih, claimableReemissionAtHeight]
      by_cases started : height + 1 ≥ 2080800
      · rw [if_pos (show height + 1 ≥ (new .mainnet).settings.reemissionStartHeight from started),
          show height + 1 - 2080799 = height - 2080799 + 1 by omega, Nat.add_mul, Nat.one_mul]
        rfl
      · rw [if_neg (show ¬ height + 1 ≥ (new .mainnet).settings.reemissionStartHeight from started),
          Nat.sub_eq_zero_of_le (by omega), Nat.sub_eq_zero_of_le (by omega), Nat.zero_mul]

def chargedOfEpoch (epoch : Nat) : Nat := charged (epochReward epoch)

theorem reemissionOf_mainnet {blocks : Nat} (active : 251617 ≤ blocks) :
    reemissionOf .mainnet (fixedRatePeriod + blocks) = chargedOfEpoch (blocks / reductionPeriod) := by
  have reached : ReemissionSettings.mainnet.activationHeight ≤ fixedRatePeriod + blocks := by
    simp only [ReemissionSettings.mainnet, fixedRatePeriod]
    omega
  rw [reemissionOf, if_pos reached, emissionOf, if_neg (by unfold fixedRatePeriod; omega), Nat.add_sub_cancel_left]
  rfl

theorem reemissionOf_mainnet_late (late : 2080800 ≤ height) : reemissionOf .mainnet height = 0 := by
  obtain ⟨blocks, rfl⟩ := Nat.exists_eq_add_of_le (show fixedRatePeriod ≤ height by unfold fixedRatePeriod; omega)
  have epochs : 24 ≤ blocks / reductionPeriod := by
    rw [Nat.le_div_iff_mul_le (by decide)]
    simp only [fixedRatePeriod, reductionPeriod] at late ⊢
    omega
  have minimal : epochReward (blocks / reductionPeriod) = minReward := by
    rw [epochReward, if_pos]
    exact (show initialReward - minReward ≤ 24 * rewardReduction by decide).trans (Nat.mul_le_mul_right _ epochs)
  rw [reemissionOf_mainnet (by simp only [fixedRatePeriod] at late; omega), chargedOfEpoch, minimal]
  rfl

theorem sum_of_zero {f : Nat → Nat} {first rest all total : Nat} (zero : ∑ i ∈ range first, f i = 0)
    (sum : ∑ j ∈ range rest, f (first + j) = total) (length : first + rest = all) : ∑ i ∈ range all, f i = total := by
  rw [← length, sum_range_add, zero, Nat.zero_add, sum]

theorem collected_mainnet_start : collected .mainnet 2080799 = 14476596 * coinsInOneErg := by
  have before : ∑ i ∈ range 777216, reemissionOf .mainnet (i + 1) = 0 := by
    refine sum_eq_zero fun i below => if_neg ?_
    have small := mem_range.mp below
    simp only [ReemissionSettings.mainnet]
    omega
  have active : ∀ j ∈ range 1303583,
      reemissionOf .mainnet (777216 + j + 1) = chargedOfEpoch ((251617 + j) / reductionPeriod) := by
    intro j _
    rw [show 777216 + j + 1 = fixedRatePeriod + (251617 + j) by simp only [fixedRatePeriod]; omega]
    exact reemissionOf_mainnet (Nat.le_add_right ..)
  -- The blocks from the end of the fixed period on, with those before the activation taken off.
  have parts := sum_steps_from chargedOfEpoch (show 57217 ≤ reductionPeriod by decide)
    (show reductionPeriod * 3 + 57217 + 1303583 = reductionPeriod * 24 by unfold reductionPeriod; omega)
  have values : reductionPeriod • ∑ i ∈ range 24, chargedOfEpoch i =
      reductionPeriod • ∑ i ∈ range 3, chargedOfEpoch i + 57217 • chargedOfEpoch 3 + 14476596 * coinsInOneErg := by
    simp [sum_range_succ, chargedOfEpoch, charged, epochReward, coinsInOneErg, minReward, reductionPeriod, initialReward,
      rewardReduction]
  have start : reductionPeriod * 3 + 57217 = 251617 := by unfold reductionPeriod; omega
  rw [values, start, add_right_inj] at parts
  exact sum_of_zero before ((sum_congr rfl active).trans parts) (by omega)

theorem collected_of_nothing {settings : ReemissionSettings} {start : Nat} (late : start ≤ height)
    (nothing : ∀ after, start < after → reemissionOf settings after = 0) :
    collected settings height = collected settings start := by
  obtain ⟨blocks, rfl⟩ := Nat.exists_eq_add_of_le late
  have zero : ∀ i ∈ range blocks, reemissionOf settings (start + i + 1) = 0 := fun i _ => nothing _ (by omega)
  rw [collected, sum_range_add, sum_eq_zero zero, Nat.add_zero, collected]

theorem collected_mainnet (late : 2080799 ≤ height) : collected .mainnet height = 14476596 * coinsInOneErg := by
  rw [collected_of_nothing late fun _ after => reemissionOf_mainnet_late after, collected_mainnet_start]

theorem claimed_le_collected_iff : claimed .mainnet height ≤ collected .mainnet height ↔ height ≤ 6906331 := by
  rw [claimed_mainnet]
  rcases Nat.lt_or_ge height 2080799 with early | late
  · rw [Nat.sub_eq_zero_of_le early.le, Nat.zero_mul]
    exact iff_of_true (Nat.zero_le _) (by omega)
  · rw [collected_mainnet late]
    simp only [coinsInOneErg]
    omega

end Sums

/-- Each block's emission is split between its miner and the contract, of which at least the minimal reward is the
miner's, without an overflow. The income of all miners together is covered by what was emitted up to a height exactly
until the contract is empty. -/
theorem minerIncome_covered_iff (height : Nat) (below : height < 2 ^ 32) :
    (∀ settings, ∀ i ≤ height, 0 < i →
      ((new settings).minerRewardAtHeight i).value + ((new settings).reemissionForHeight i).value =
          (emissionAtHeight i).value ∧
        minReward ≤ ((new settings).minerRewardAtHeight i).value ∧
        ((new settings).totalMinerIncomeAtHeight i).overflowed = false) ∧
    (∑ i ∈ range height, ((new .mainnet).totalMinerIncomeAtHeight (i + 1)).value ≤ emissionSum height ↔
      height ≤ 6906331) := by
  refine ⟨fun settings i le positive => ?_, ?_⟩
  · have small : i < 2 ^ 32 := Nat.lt_of_le_of_lt le below
    rw [minerRewardAtHeight_eq small, reemissionForHeight_eq small, emissionAtHeight_eq small,
      totalMinerIncomeAtHeight_eq small]
    exact ⟨Nat.sub_add_cancel reemissionOf_le, minReward_le_rest positive, rfl⟩
  · have income : ∀ i ∈ range height, ((new .mainnet).totalMinerIncomeAtHeight (i + 1)).value =
        emissionOf (i + 1) - reemissionOf .mainnet (i + 1) + (new .mainnet).claimableReemissionAtHeight (i + 1) := by
      intro i inside
      have small := mem_range.mp inside
      rw [totalMinerIncomeAtHeight_eq (by omega), value_pure]
    have emission : emissionSum height = ∑ i ∈ range height, emissionOf (i + 1) := by
      refine sum_congr rfl fun i inside => ?_
      have small := mem_range.mp inside
      rw [emissionAtHeight_eq (by omega), value_pure]
    have split : ∑ i ∈ range height, (emissionOf (i + 1) - reemissionOf .mainnet (i + 1)) + collected .mainnet height =
        ∑ i ∈ range height, emissionOf (i + 1) := by
      rw [collected, ← sum_add_distrib]
      exact sum_congr rfl fun i _ => Nat.sub_add_cancel reemissionOf_le
    rw [sum_congr rfl income, sum_add_distrib, emission, ← split, Nat.add_le_add_iff_left]
    exact claimed_le_collected_iff

/-- At the first claim beyond what was collected. -/
theorem minerIncome_uncovered :
    ¬ ∑ i ∈ range 6906332, ((new .mainnet).totalMinerIncomeAtHeight (i + 1)).value ≤ emissionSum 6906332 :=
  fun covered => absurd ((minerIncome_covered_iff 6906332 (by decide)).2.mp covered) (by decide)

end ErgoNode.ReemissionRules
