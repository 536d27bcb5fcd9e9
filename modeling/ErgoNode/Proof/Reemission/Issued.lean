import ErgoNode.Consensus.Reemission
import ErgoNode.Lib.Run
import Mathlib.Algebra.Group.Action.Defs
import Mathlib.Algebra.Order.BigOperators.Group.Finset

/-!
# The coins issued

An epoch's step comes one block before the full epochs of the closed form end, so from the first step on
the closed form counts a reduction too little for each of them, until both reach the total supply.
-/

namespace ErgoNode.ReemissionRules
open Lib Lib.Overflowing Finset

/-! ### The emission -/

def epochReward (epoch : Nat) : Nat :=
  if epoch * rewardReduction ≥ initialReward - minReward then minReward
  else initialReward - epoch * rewardReduction

theorem emissionAtHeight_fixed {height : Nat} (positive : 0 < height) (le : height ≤ fixedRatePeriod) :
    emissionAtHeight height = pure initialReward := by
  rw [emissionAtHeight, if_neg (Nat.ne_of_gt positive), if_pos le]

theorem emissionAtHeight_after {blocks : Nat} (positive : 0 < blocks) (small : fixedRatePeriod + blocks < 2 ^ 32) :
    emissionAtHeight (fixedRatePeriod + blocks) = pure (epochReward (blocks / reductionPeriod)) := by
  have scaled : blocks / reductionPeriod * rewardReduction < u64 := by
    simp only [fixedRatePeriod, reductionPeriod, rewardReduction, coinsInOneErg, u64] at small ⊢
    omega
  rw [emissionAtHeight, if_neg (by omega), if_neg (by omega), sub_eq (Nat.le_add_right ..) (by unfold u64; omega),
    pure_bind, Nat.add_sub_cancel_left]
  dsimp only
  rw [mul_eq scaled, pure_bind, epochReward]
  split
  · rfl
  · next below =>
      rw [sub_eq (by omega) (by decide)]

def emissionSum (height : Nat) : Nat := ∑ i ∈ range height, (emissionAtHeight (i + 1)).value

theorem emissionSum_mono {height height' : Nat} (le : height ≤ height') : emissionSum height ≤ emissionSum height' :=
  sum_le_sum_of_subset (range_subset_range.mpr le)

theorem emissionSum_fixed {height : Nat} (le : height ≤ fixedRatePeriod) :
    emissionSum height = height * initialReward := by
  have each : ∀ i ∈ range height, (emissionAtHeight (i + 1)).value = initialReward := by
    intro i below
    have small := mem_range.mp below
    rw [emissionAtHeight_fixed (Nat.succ_pos i) (by omega), value_pure]
  rw [emissionSum, sum_congr rfl each, sum_const, card_range, smul_eq_mul]

/-- The block at which an epoch steps counts for the next one. -/
theorem emissionSum_after (epochs blocks : Nat) (part : blocks < reductionPeriod)
    (small : fixedRatePeriod + (reductionPeriod * epochs + blocks) < 2 ^ 32) :
    emissionSum (fixedRatePeriod + (reductionPeriod * epochs + blocks)) + initialReward =
      fixedRatePeriod * initialReward + reductionPeriod * ∑ i ∈ range epochs, epochReward i +
        (blocks + 1) * epochReward epochs := by
  have each : ∀ j ∈ range (reductionPeriod * epochs + blocks),
      (emissionAtHeight (fixedRatePeriod + j + 1)).value = epochReward ((j + 1) / reductionPeriod) := by
    intro j below
    have within := mem_range.mp below
    rw [Nat.add_assoc, emissionAtHeight_after (Nat.succ_pos j) (by omega), value_pure]
  have first : epochReward (0 / reductionPeriod) = initialReward := by decide
  have steps := sum_steps epochReward epochs (show blocks + 1 ≤ reductionPeriod from part)
  rw [← Nat.add_assoc, sum_range_succ', first, smul_eq_mul, smul_eq_mul] at steps
  have fixed := emissionSum_fixed (Nat.le_refl fixedRatePeriod)
  rw [emissionSum] at fixed ⊢
  rw [sum_range_add, fixed, sum_congr rfl each, Nat.add_assoc, steps, Nat.add_assoc]

/-! ### The closed form -/

theorem fullEpochsReward_eq {epochs : Nat} (le : epochs ≤ 24) :
    fullEpochsReward epochs = pure (reductionPeriod * ∑ i ∈ range epochs, epochReward i) := by
  have each : ∀ n < 25, fullEpochsReward n = pure (reductionPeriod * ∑ i ∈ range n, epochReward i) := by
    decide +kernel
  exact each epochs (by omega)

theorem sum_epochReward_le {epochs : Nat} (le : epochs ≤ 24) :
    ∑ i ∈ range epochs, epochReward i ≤ 1800 * coinsInOneErg := by
  have each : ∀ n < 25, ∑ i ∈ range n, epochReward i ≤ 1800 * coinsInOneErg := by decide +kernel
  exact each epochs (by omega)

theorem epochReward_eq {epochs : Nat} (le : epochs ≤ 24) :
    epochReward epochs = initialReward - epochs * rewardReduction := by
  unfold epochReward
  split
  case isTrue low =>
    simp only [initialReward, minReward, rewardReduction, coinsInOneErg] at low ⊢
    omega
  case isFalse => rfl

theorem epochs_lt_word {epochs blocks : Nat} (before : epochs < 24) (part : blocks < reductionPeriod) :
    fixedRatePeriod * initialReward + reductionPeriod * ∑ i ∈ range epochs, epochReward i +
      blocks * epochReward epochs < u64 := by
  have most := sum_epochReward_le (Nat.le_of_lt before)
  have partReward : blocks * epochReward epochs ≤ 64800 * initialReward := by
    apply Nat.mul_le_mul (Nat.le_of_lt part)
    rw [epochReward_eq (Nat.le_of_lt before)]
    exact Nat.sub_le ..
  simp only [fixedRatePeriod, initialReward, reductionPeriod, coinsInOneErg, u64] at most partReward ⊢
  omega

theorem issuedAfterFixed_epochs {epochs blocks : Nat} (before : epochs < 24) (part : blocks < reductionPeriod) :
    issuedAfterFixed (fixedRatePeriod + (reductionPeriod * epochs + blocks)) =
      pure (fixedRatePeriod * initialReward + reductionPeriod * ∑ i ∈ range epochs, epochReward i +
        blocks * epochReward epochs) := by
  have full : (reductionPeriod * epochs + blocks) / reductionPeriod = epochs := by
    rw [Nat.mul_add_div (by decide), Nat.div_eq_of_lt part, Nat.add_zero]
  have epochsOf : (initialReward - minReward) / rewardReduction = 24 := by decide
  have remaining : reductionPeriod * epochs + blocks - epochs * reductionPeriod = blocks := by
    rw [Nat.mul_comm, Nat.add_sub_cancel_left]
  have atMinimum : reductionPeriod * epochs + blocks - (24 * reductionPeriod + blocks) = 0 := by
    apply Nat.sub_eq_zero_of_le
    apply Nat.add_le_add_right
    rw [Nat.mul_comm]
    exact Nat.mul_le_mul_right _ (Nat.le_of_lt before)
  -- Each step of the source stays within the word.
  have heightFits : fixedRatePeriod + (reductionPeriod * epochs + blocks) < u64 := by
    simp only [fixedRatePeriod, reductionPeriod, u64] at part ⊢
    omega
  have blocksFit := Nat.lt_of_le_of_lt (Nat.le_add_left _ fixedRatePeriod) heightFits
  have fullFits : epochs * reductionPeriod < u64 := by
    rw [Nat.mul_comm]
    exact Nat.lt_of_le_of_lt (Nat.le_add_right _ blocks) blocksFit
  have beforeMinFits : 24 * reductionPeriod + blocks < u64 := by
    simp only [reductionPeriod, u64] at part ⊢
    omega
  have reductionLe : epochs * rewardReduction ≤ initialReward := by
    simp only [initialReward, rewardReduction, coinsInOneErg]
    omega
  have totalFits := epochs_lt_word before part
  have epochsFit := Nat.lt_of_le_of_lt (Nat.le_add_right _ _) totalFits
  have partFits := Nat.lt_of_le_of_lt (Nat.le_add_left _ _) totalFits
  rw [issuedAfterFixed, mul_eq (by decide), pure_bind, sub_eq (Nat.le_add_right ..) heightFits, pure_bind,
    Nat.add_sub_cancel_left]
  dsimp only
  rw [full, epochsOf, Nat.min_eq_left (Nat.le_of_lt before), mul_eq fullFits, pure_bind, if_pos before,
    sub_eq (by rw [Nat.mul_comm]; exact Nat.le_add_right ..) blocksFit, pure_bind, pure_bind, remaining,
    Nat.min_eq_left (Nat.le_of_lt part), mul_eq (by decide), pure_bind, add_eq beforeMinFits, pure_bind, atMinimum,
    fullEpochsReward_eq (Nat.le_of_lt before), pure_bind]
  rw [mul_eq (Nat.lt_of_le_of_lt reductionLe (by decide)), pure_bind, sub_eq reductionLe (by decide), pure_bind,
    ← epochReward_eq (Nat.le_of_lt before), mul_eq partFits, pure_bind, mul_eq (by decide), pure_bind]
  rw [add_eq epochsFit, pure_bind, add_eq totalFits, pure_bind, Nat.zero_mul, add_eq (by rwa [Nat.add_zero]),
    Nat.add_zero]

theorem issuedAfterFixed_minimum {blocks : Nat} (small : fixedRatePeriod + (reductionPeriod * 24 + blocks) < u64) :
    issuedAfterFixed (fixedRatePeriod + (reductionPeriod * 24 + blocks)) =
      (do
        let minimumTotal ← mul u64 blocks minReward
        add u64 (102405600 * coinsInOneErg) minimumTotal) := by
  have full : min ((reductionPeriod * 24 + blocks) / reductionPeriod) 24 = 24 := by
    rw [Nat.mul_add_div (by decide)]
    exact Nat.min_eq_right (Nat.le_add_right ..)
  have epochsOf : (initialReward - minReward) / rewardReduction = 24 := by decide
  have atMinimum : reductionPeriod * 24 + blocks - (24 * reductionPeriod + 0) = blocks := by
    rw [Nat.mul_comm, Nat.add_zero, Nat.add_sub_cancel_left]
  rw [issuedAfterFixed, mul_eq (by decide), pure_bind, sub_eq (Nat.le_add_right ..) small, pure_bind,
    Nat.add_sub_cancel_left]
  dsimp only
  rw [epochsOf, full, mul_eq (b := reductionPeriod) (by decide), pure_bind, if_neg (Nat.lt_irrefl 24), pure_bind,
    pure_bind, add_eq (by decide), pure_bind, atMinimum, fullEpochsReward_eq le_rfl, pure_bind,
    mul_eq (b := rewardReduction) (by decide), pure_bind, sub_eq (by decide) (by decide), pure_bind,
    mul_eq (a := 0) (by decide), pure_bind]
  have issued : fixedRatePeriod * initialReward + reductionPeriod * ∑ i ∈ range 24, epochReward i + 0 *
      (initialReward - 24 * rewardReduction) = 102405600 * coinsInOneErg := by
    simp [sum_range_succ, epochReward, fixedRatePeriod, initialReward, rewardReduction, minReward, reductionPeriod,
      coinsInOneErg]
  have epochs : fixedRatePeriod * initialReward + reductionPeriod * ∑ i ∈ range 24, epochReward i =
      102405600 * coinsInOneErg := by rw [← issued, Nat.zero_mul, Nat.add_zero]
  refine bind_congr fun minimumTotal => ?_
  rw [add_eq (by rw [epochs]; decide), pure_bind, add_eq (by rw [issued]; decide), pure_bind, issued]

/-! ### The comparison -/

theorem issued_fixed {height : Nat} (positive : 0 < height) (le : height ≤ fixedRatePeriod) :
    issuedCoinsAfterHeight height = pure (emissionSum height) := by
  have bound : height * initialReward ≤ fixedRatePeriod * initialReward := Nat.mul_le_mul_right _ le
  have below : fixedRatePeriod * initialReward ≤ totalSupply := by decide
  rw [issuedCoinsAfterHeight, if_neg (Nat.ne_of_gt positive), if_pos le,
    mul_eq (Nat.lt_of_le_of_lt (bound.trans below) (by decide)), pure_bind]
  dsimp only
  rw [Nat.min_eq_left (bound.trans below), emissionSum_fixed le]

/-- One reduction too little is counted for each full epoch. -/
theorem issued_epochs {epochs blocks : Nat} (before : epochs < 24) (part : blocks < reductionPeriod)
    (positive : 0 < reductionPeriod * epochs + blocks) :
    issuedCoinsAfterHeight (fixedRatePeriod + (reductionPeriod * epochs + blocks)) =
      pure (min (emissionSum (fixedRatePeriod + (reductionPeriod * epochs + blocks)) + epochs * rewardReduction)
        totalSupply) := by
  have sum := emissionSum_after epochs _ part
    (by simp only [fixedRatePeriod, reductionPeriod] at part ⊢; omega)
  have reward := epochReward_eq (Nat.le_of_lt before)
  have reduction : epochs * rewardReduction ≤ initialReward := by
    simp only [rewardReduction, initialReward, coinsInOneErg]
    omega
  have whole : epochReward epochs + epochs * rewardReduction = initialReward := by
    rw [reward, Nat.sub_add_cancel reduction]
  have value : fixedRatePeriod * initialReward + reductionPeriod * ∑ i ∈ range epochs, epochReward i +
      blocks * epochReward epochs =
        emissionSum (fixedRatePeriod + (reductionPeriod * epochs + blocks)) + epochs * rewardReduction := by
    apply Nat.add_right_cancel (m := epochReward epochs)
    rw [Nat.add_assoc (emissionSum _), Nat.add_comm (epochs * rewardReduction), whole, sum, Nat.succ_mul,
      Nat.add_assoc _ (blocks * _)]
  rw [issuedCoinsAfterHeight, if_neg (by omega), if_neg (by omega), issuedAfterFixed_epochs before part, pure_bind,
    value]

theorem issued_minimum {blocks : Nat} (small : fixedRatePeriod + (reductionPeriod * 24 + blocks) < u64) :
    issuedCoinsAfterHeight (fixedRatePeriod + (reductionPeriod * 24 + blocks)) =
      (do
        let minimumTotal ← mul u64 blocks minReward
        let total ← add u64 (102405600 * coinsInOneErg) minimumTotal
        pure (min total totalSupply)) := by
  have nonzero : fixedRatePeriod + (reductionPeriod * 24 + blocks) ≠ 0 := by
    unfold fixedRatePeriod
    omega
  have above : ¬ fixedRatePeriod + (reductionPeriod * 24 + blocks) ≤ fixedRatePeriod := by
    unfold reductionPeriod
    omega
  rw [issuedCoinsAfterHeight, if_neg nonzero, if_neg above, issuedAfterFixed_minimum small, bind_assoc]

theorem value_issued_minimum {blocks : Nat} (small : fixedRatePeriod + (reductionPeriod * 24 + blocks) < u64) :
    (issuedCoinsAfterHeight (fixedRatePeriod + (reductionPeriod * 24 + blocks))).value =
      min ((102405600 * coinsInOneErg + blocks * minReward) % u64) totalSupply := by
  rw [issued_minimum small, value_bind, value_bind, value_pure, value_mul, value_add, Nat.add_mod_mod]

theorem emissionSum_before_supply : emissionSum 1719770 < totalSupply := by
  have sum := emissionSum_after 18 27770 (by decide) (by decide)
  have value : fixedRatePeriod * initialReward + reductionPeriod * ∑ i ∈ range 18, epochReward i +
      (27770 + 1) * epochReward 18 < totalSupply + initialReward := by
    simp [sum_range_succ, epochReward, fixedRatePeriod, initialReward, rewardReduction, minReward, reductionPeriod,
      totalSupply, coinsInOneErg]
  have height : fixedRatePeriod + (reductionPeriod * 18 + 27770) = 1719770 := by decide
  rw [← sum, height] at value
  exact Nat.lt_of_add_lt_add_right value

theorem supply_le_emissionSum : totalSupply ≤ emissionSum 1719771 := by
  have sum := emissionSum_after 18 27771 (by decide) (by decide)
  have value : totalSupply + initialReward ≤ fixedRatePeriod * initialReward +
      reductionPeriod * ∑ i ∈ range 18, epochReward i + (27771 + 1) * epochReward 18 := by
    simp [sum_range_succ, epochReward, fixedRatePeriod, initialReward, rewardReduction, minReward, reductionPeriod,
      totalSupply, coinsInOneErg]
  have height : fixedRatePeriod + (reductionPeriod * 18 + 27771) = 1719771 := by decide
  rw [← sum, height] at value
  exact Nat.le_of_add_le_add_right value

theorem supply_le_emissionSum_iff {height : Nat} : totalSupply ≤ emissionSum height ↔ 1719771 ≤ height := by
  constructor
  · intro reached
    by_contra before
    have below := emissionSum_mono (show height ≤ 1719770 by omega)
    exact Nat.not_lt_of_le (reached.trans below) emissionSum_before_supply
  · exact fun after => supply_le_emissionSum.trans (emissionSum_mono after)

theorem min_add_eq_iff {sum more supply : Nat} :
    min (sum + more) supply = min supply sum ↔ more = 0 ∨ supply ≤ sum := by
  omega

theorem issued_epochs_iff {epochs blocks : Nat} (before : epochs < 24) (part : blocks < reductionPeriod)
    (positive : 0 < reductionPeriod * epochs + blocks) :
    (issuedCoinsAfterHeight (fixedRatePeriod + (reductionPeriod * epochs + blocks))).value =
        min totalSupply (emissionSum (fixedRatePeriod + (reductionPeriod * epochs + blocks))) ↔
      epochs = 0 ∨ 1719771 ≤ fixedRatePeriod + (reductionPeriod * epochs + blocks) := by
  have reduction : epochs * rewardReduction = 0 ↔ epochs = 0 := by simp [rewardReduction, coinsInOneErg]
  rw [issued_epochs before part positive, value_pure, min_add_eq_iff, supply_le_emissionSum_iff, reduction]

theorem issued_minimum_iff {blocks : Nat} (small : fixedRatePeriod + (reductionPeriod * 24 + blocks) < u64) :
    (issuedCoinsAfterHeight (fixedRatePeriod + (reductionPeriod * 24 + blocks))).value =
        min totalSupply (emissionSum (fixedRatePeriod + (reductionPeriod * 24 + blocks))) ↔
      totalSupply ≤ (102405600 * coinsInOneErg + blocks * minReward) % u64 := by
  have late : 1719771 ≤ fixedRatePeriod + (reductionPeriod * 24 + blocks) := by
    simp only [fixedRatePeriod, reductionPeriod]
    omega
  rw [value_issued_minimum small, Nat.min_eq_left (supply_le_emissionSum_iff.mpr late), min_eq_right_iff]

def lateIssued (height : Nat) : Nat := 102405600 * coinsInOneErg + (height - 2080800) * minReward

theorem issued_fits {height : Nat} (below : height < 2 ^ 32) :
    lateIssued height < u64 ∧ totalSupply ≤ lateIssued height := by
  simp only [lateIssued, totalSupply, coinsInOneErg, minReward, u64]
  omega

theorem exists_epochs {height : Nat} (after : fixedRatePeriod < height) :
    (∃ epochs blocks, epochs < 24 ∧ blocks < reductionPeriod ∧ 0 < reductionPeriod * epochs + blocks ∧
      height = fixedRatePeriod + (reductionPeriod * epochs + blocks)) ∨
    ∃ blocks, height = fixedRatePeriod + (reductionPeriod * 24 + blocks) := by
  rcases Nat.lt_or_ge height (fixedRatePeriod + reductionPeriod * 24) with before | late
  · have split := Nat.div_add_mod (height - fixedRatePeriod) reductionPeriod
    have epochs : (height - fixedRatePeriod) / reductionPeriod < 24 := by
      rw [Nat.div_lt_iff_lt_mul (by decide)]
      omega
    refine .inl ⟨(height - fixedRatePeriod) / reductionPeriod, (height - fixedRatePeriod) % reductionPeriod, epochs, ?_⟩
    exact ⟨Nat.mod_lt _ (by decide), by omega, by omega⟩
  · exact .inr ⟨height - fixedRatePeriod - reductionPeriod * 24, by omega⟩

theorem issued_eq_sum_iff {height : Nat} (word : height < u64) :
    (issuedCoinsAfterHeight height).value = min totalSupply (emissionSum height) ↔
      height < 590400 ∨ 1719771 ≤ height ∧ (height < 2 ^ 32 ∨ totalSupply ≤ lateIssued height % u64) := by
  rcases Nat.lt_or_ge fixedRatePeriod height with after | fixed
  · rcases exists_epochs after with ⟨epochs, blocks, before, part, positive, rfl⟩ | ⟨blocks, rfl⟩
    · rw [issued_epochs_iff before part positive]
      simp only [fixedRatePeriod, reductionPeriod] at part positive ⊢
      omega
    · have blocksAfter : fixedRatePeriod + (reductionPeriod * 24 + blocks) - 2080800 = blocks := by
        simp only [fixedRatePeriod, reductionPeriod]
        omega
      have late : ¬ fixedRatePeriod + (reductionPeriod * 24 + blocks) < 590400 ∧
          1719771 ≤ fixedRatePeriod + (reductionPeriod * 24 + blocks) := by
        simp only [fixedRatePeriod, reductionPeriod]
        omega
      have same : 102405600 * coinsInOneErg + blocks * minReward =
          lateIssued (fixedRatePeriod + (reductionPeriod * 24 + blocks)) := by
        rw [lateIssued, blocksAfter]
      rw [issued_minimum_iff word, same]
      constructor
      · exact fun enough => .inr ⟨late.2, .inr enough⟩
      · rintro (early | ⟨-, small | enough⟩)
        · exact absurd early late.1
        · obtain ⟨fits, enough⟩ := issued_fits small
          rwa [Nat.mod_eq_of_lt fits]
        · exact enough
  · have early : height < 590400 := Nat.lt_of_le_of_lt fixed (by decide)
    refine iff_of_true ?_ (.inl early)
    have below : emissionSum height ≤ totalSupply := by
      rw [emissionSum_fixed fixed]
      exact (Nat.mul_le_mul_right _ fixed).trans (by decide)
    rw [Nat.min_eq_right below]
    rcases Nat.eq_zero_or_pos height with rfl | positive
    · rfl
    · rw [issued_fixed positive fixed, value_pure]

/-! ### Overflows -/

theorem emissionAtHeight_exact {height : Nat} (below : height < 2 ^ 32) :
    (emissionAtHeight height).overflowed = false := by
  rcases Nat.eq_zero_or_pos height with rfl | positive
  · rfl
  · rcases Nat.lt_or_ge fixedRatePeriod height with after | fixed
    · obtain ⟨blocks, rfl⟩ := Nat.exists_eq_add_of_lt after
      rw [Nat.add_assoc] at below ⊢
      rw [emissionAtHeight_after (Nat.succ_pos blocks) below, overflowed_pure]
    · rw [emissionAtHeight_fixed positive fixed, overflowed_pure]

theorem issuedCoinsAfterHeight_exact {height : Nat} (below : height < 2 ^ 32) :
    (issuedCoinsAfterHeight height).overflowed = false := by
  rcases Nat.eq_zero_or_pos height with rfl | positive
  · rfl
  · rcases Nat.lt_or_ge fixedRatePeriod height with after | fixed
    · rcases exists_epochs after with ⟨epochs, blocks, before, part, above, rfl⟩ | ⟨blocks, rfl⟩
      · rw [issued_epochs before part above, overflowed_pure]
      · have few : blocks * minReward < u64 - 102405600 * coinsInOneErg := by
          simp only [minReward, coinsInOneErg, u64]
          omega
        rw [issued_minimum (Nat.lt_trans below (by decide)), mul_eq (by omega), pure_bind, add_eq (by omega), pure_bind,
          overflowed_pure]
    · rw [issued_fixed positive fixed, overflowed_pure]

theorem issuedCoins_eq_sum (height : Nat) (word : height < u64) :
    ((issuedCoinsAfterHeight height).value = min totalSupply (emissionSum height) ↔
        height < 590400 ∨ 1719771 ≤ height ∧ (height < 2 ^ 32 ∨ totalSupply ≤ lateIssued height % u64)) ∧
      (height < 2 ^ 32 → (issuedCoinsAfterHeight height).overflowed = false ∧
        ∀ i ≤ height, (emissionAtHeight i).overflowed = false) :=
  ⟨issued_eq_sum_iff word,
    fun below => ⟨issuedCoinsAfterHeight_exact below, fun _ le => emissionAtHeight_exact (Nat.lt_of_le_of_lt le below)⟩⟩

/-- The last block of the first reduction period. -/
theorem issuedCoins_eq_sum_firstPeriod :
    (issuedCoinsAfterHeight 590399).value = min totalSupply (emissionSum 590399) :=
  (issuedCoins_eq_sum 590399 (by decide)).1.mpr (.inl (by decide))

/-- The first block of the second reduction period. -/
theorem issuedCoins_above_sum :
    (issuedCoinsAfterHeight 590400).value ≠ min totalSupply (emissionSum 590400) := by
  intro same
  have iff := @issued_eq_sum_iff 590400 (by decide)
  have condition := iff.mp same
  omega

end ErgoNode.ReemissionRules
