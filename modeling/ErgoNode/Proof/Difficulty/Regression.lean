import ErgoNode.Proof.Difficulty.Compact
import ErgoNode.Lib.Regression
import Mathlib.Algebra.Order.Floor.Semifield
import Mathlib.Tactic.Linarith

/-!
# The target of a new epoch
-/

namespace ErgoNode.DifficultyAdjustment
open Lib.Floating Lib.Regression

/-! ### The slope -/

structure Regular (headers : List HeaderForDifficulty) : Prop where
  two : 2 ≤ headers.length
  heights : headers.Pairwise fun a b => a.height < b.height
  timestamps : headers.Pairwise fun a b => a.timestamp < b.timestamp

section Slope
variable {headers : List HeaderForDifficulty}

theorem foldl_add (headers : List HeaderForDifficulty) (sums : RegressionSums) :
    headers.foldl RegressionSums.add sums =
      ⟨sums.x + (headers.map fun h => (h.height.toNat : ℚ)).sum,
        sums.y + (headers.map fun h => (h.timestamp.toNat : ℚ)).sum,
        sums.xy + (headers.map fun h => (h.height.toNat : ℚ) * h.timestamp.toNat).sum,
        sums.x2 + (headers.map fun h => (h.height.toNat : ℚ) * h.height.toNat).sum⟩ := by
  induction headers generalizing sums with
  | nil => simp
  | cons header rest ih => simp [ih, RegressionSums.add, add_assoc]

theorem regressionSums_eq (headers : List HeaderForDifficulty) : regressionSums headers =
    ⟨(headers.map fun h => (h.height.toNat : ℚ)).sum, (headers.map fun h => (h.timestamp.toNat : ℚ)).sum,
      (headers.map fun h => (h.height.toNat : ℚ) * h.timestamp.toNat).sum,
      (headers.map fun h => (h.height.toNat : ℚ) * h.height.toNat).sum⟩ := by
  simp [regressionSums, foldl_add]

def points (y : HeaderForDifficulty → Nat) (headers : List HeaderForDifficulty) : List (ℤ × ℤ) :=
  headers.map fun h => (h.height.toNat, y h)

theorem cast_spread (y : HeaderForDifficulty → Nat) (headers : List HeaderForDifficulty) :
    ((spread (points y headers) : ℤ) : ℚ) =
      headers.length * (headers.map fun h => (h.height.toNat : ℚ) * y h).sum -
        (headers.map fun h => (h.height.toNat : ℚ)).sum * (headers.map fun h => (y h : ℚ)).sum := by
  refine Eq.trans (spread_map (Int.castRingHom ℚ) (points y headers)).symm ?_
  simp [spread, points, Function.comp_def]

theorem denominator_eq (headers : List HeaderForDifficulty) :
    denominator headers = ((spread (points (fun h => h.height.toNat) headers) : ℤ) : ℚ) := by
  rw [denominator, regressionSums_eq, cast_spread]

theorem slope_eq (headers : List HeaderForDifficulty) :
    slope headers = ((spread (points (fun h => h.timestamp.toNat) headers) : ℤ) : ℚ) / denominator headers := by
  rw [slope, regressionSums_eq, cast_spread]

theorem spread_points_pos {y : HeaderForDifficulty → Nat} (regular : Regular headers)
    (rising : headers.Pairwise fun a b => y a < y b) : 0 < spread (points y headers) := by
  apply spread_pos _ (by simpa [points] using regular.two)
  rw [points, List.pairwise_map]
  refine (List.Pairwise.and regular.heights rising).imp ?_
  rintro a b ⟨height, above⟩
  exact ⟨Int.ofNat_lt.mpr height, Int.ofNat_lt.mpr above⟩

theorem one_le_denominator (regular : Regular headers) : 1 ≤ denominator headers := by
  have positive := spread_points_pos regular (y := fun h => h.height.toNat) regular.heights
  rw [denominator_eq]
  exact_mod_cast positive

theorem slope_pos (regular : Regular headers) : 0 < slope headers := by
  have positive := spread_points_pos regular (y := fun h => h.timestamp.toNat) regular.timestamps
  rw [slope_eq]
  exact div_pos (by exact_mod_cast positive) (lt_of_lt_of_le one_pos (one_le_denominator regular))

end Slope

/-! ### The adjusted target -/

section Target
variable {adjuster : DifficultyAdjustment} {s s' : ℚ} {target : Nat}

def interval (adjuster : DifficultyAdjustment) : ℚ := adjuster.targetIntervalMs.toNat

def divisor (adjuster : DifficultyAdjustment) (s : ℚ) : Nat := ⌊1000 * min 2 (adjuster.interval / s)⌋₊

def multiplier (adjuster : DifficultyAdjustment) (s : ℚ) : Nat := ⌊1000 / max (1 / 2) (adjuster.interval / s)⌋₊

theorem interval_nonneg (adjuster : DifficultyAdjustment) : 0 ≤ adjuster.interval := Nat.cast_nonneg _

theorem adjustTarget_of_fast (positive : 0 < s) (fast : s < adjuster.interval) :
    adjustTarget (adjuster.clamped s) target = target * 1000 / adjuster.divisor s := by
  have above : 1 < adjuster.interval / s := (one_lt_div positive).mpr fast
  have clamp : adjuster.clamped s = min 2 (adjuster.interval / s) := by
    rw [clamped, if_neg positive.ne', maxDifficultyChange, min_comm, ← interval]
    exact max_eq_right (le_min (by norm_num) (by linarith))
  rw [adjustTarget, clamp, if_pos (lt_min one_lt_two above), divisor, mul_comm 1000]

theorem adjustTarget_of_slow (positive : 0 < s) (slow : adjuster.interval ≤ s) :
    adjustTarget (adjuster.clamped s) target = target * adjuster.multiplier s / 1000 := by
  have below : adjuster.interval / s ≤ 1 := (div_le_one positive).mpr slow
  have clamp : adjuster.clamped s = max (1 / 2) (adjuster.interval / s) := by
    rw [clamped, if_neg positive.ne', maxDifficultyChange]
    congr 1
    exact min_eq_left (le_trans below one_le_two)
  rw [adjustTarget, clamp, if_neg (not_lt.mpr (max_le (by norm_num) below)), multiplier]

theorem divisor_bounds (positive : 0 < s) (fast : s < adjuster.interval) :
    1000 ≤ adjuster.divisor s ∧ adjuster.divisor s ≤ 2000 := by
  have above : 1 < adjuster.interval / s := (one_lt_div positive).mpr fast
  constructor
  · apply Nat.le_floor
    have least := le_min one_le_two above.le
    push_cast
    linarith
  · apply Nat.floor_le_of_le
    have most := min_le_left 2 (adjuster.interval / s)
    push_cast
    linarith

theorem multiplier_bounds (positive : 0 < s) (slow : adjuster.interval ≤ s) :
    1000 ≤ adjuster.multiplier s ∧ adjuster.multiplier s ≤ 2000 := by
  have below : adjuster.interval / s ≤ 1 := (div_le_one positive).mpr slow
  have least := le_max_left (1 / 2) (adjuster.interval / s)
  have most : max (1 / 2) (adjuster.interval / s) ≤ 1 := max_le (by norm_num) below
  constructor
  · apply Nat.le_floor
    rw [le_div_iff₀ (by linarith)]
    push_cast
    linarith
  · apply Nat.floor_le_of_le
    rw [div_le_iff₀ (by linarith)]
    push_cast
    linarith

theorem divisor_anti (positive : 0 < s) (le : s ≤ s') : adjuster.divisor s' ≤ adjuster.divisor s := by
  have ratio := div_le_div_of_nonneg_left adjuster.interval_nonneg positive le
  exact Nat.floor_mono (mul_le_mul_of_nonneg_left (min_le_min_left 2 ratio) (by norm_num))

theorem multiplier_mono (positive : 0 < s) (le : s ≤ s') : adjuster.multiplier s ≤ adjuster.multiplier s' := by
  have ratio := div_le_div_of_nonneg_left adjuster.interval_nonneg positive le
  have least := le_max_left (1 / 2) (adjuster.interval / s')
  exact Nat.floor_mono (div_le_div_of_nonneg_left (by norm_num) (by linarith) (max_le_max_left _ ratio))

theorem adjustTarget_mono (positive : 0 < s) (le : s ≤ s') :
    adjustTarget (adjuster.clamped s) target ≤ adjustTarget (adjuster.clamped s') target := by
  have positive' := positive.trans_le le
  rcases lt_or_ge s adjuster.interval with fast | slow
  · obtain ⟨thousand, -⟩ := divisor_bounds positive fast
    rw [adjustTarget_of_fast positive fast]
    rcases lt_or_ge s' adjuster.interval with fast' | slow'
    · rw [adjustTarget_of_fast positive' fast']
      exact Nat.div_le_div_left (divisor_anti positive le) (by have := divisor_bounds positive' fast'; omega)
    · obtain ⟨thousand', -⟩ := multiplier_bounds positive' slow'
      rw [adjustTarget_of_slow positive' slow']
      calc target * 1000 / adjuster.divisor s ≤ target * 1000 / 1000 := Nat.div_le_div_left thousand (by decide)
        _ ≤ target * adjuster.multiplier s' / 1000 := Nat.div_le_div_right (Nat.mul_le_mul_left _ thousand')
  · rw [adjustTarget_of_slow positive slow, adjustTarget_of_slow positive' (slow.trans le)]
    exact Nat.div_le_div_right (Nat.mul_le_mul_left _ (multiplier_mono positive le))

/-- The scaled target before the division that rounds it. -/
def exactTarget (adjuster : DifficultyAdjustment) (s : ℚ) (target : Nat) : ℚ :=
  if s < adjuster.interval then target * 1000 / adjuster.divisor s else target * adjuster.multiplier s / 1000

theorem adjustTarget_eq_floor (positive : 0 < s) :
    adjustTarget (adjuster.clamped s) target = ⌊adjuster.exactTarget s target⌋₊ := by
  unfold exactTarget
  split
  case isTrue fast =>
    rw [adjustTarget_of_fast positive fast, ← Nat.floor_div_eq_div (K := ℚ)]
    push_cast
    rfl
  case isFalse slow =>
    rw [adjustTarget_of_slow positive (not_lt.mp slow), ← Nat.floor_div_eq_div (K := ℚ)]
    push_cast
    rfl

theorem exactTarget_bounds (positive : 0 < s) :
    (target : ℚ) / 2 ≤ adjuster.exactTarget s target ∧ adjuster.exactTarget s target ≤ 2 * target := by
  have nonneg : (0 : ℚ) ≤ target := Nat.cast_nonneg _
  unfold exactTarget
  split
  case isTrue fast =>
    obtain ⟨low, high⟩ := divisor_bounds positive fast
    have low' : (1000 : ℚ) ≤ adjuster.divisor s := by exact_mod_cast low
    have high' : (adjuster.divisor s : ℚ) ≤ 2000 := by exact_mod_cast high
    constructor
    · rw [le_div_iff₀ (by linarith)]
      nlinarith
    · rw [div_le_iff₀ (by linarith)]
      nlinarith
  case isFalse slow =>
    obtain ⟨low, high⟩ := multiplier_bounds positive (not_lt.mp slow)
    have low' : (1000 : ℚ) ≤ adjuster.multiplier s := by exact_mod_cast low
    have high' : (adjuster.multiplier s : ℚ) ≤ 2000 := by exact_mod_cast high
    constructor <;> nlinarith

/-- The target scaled by the clamped adjustment can be written in the compact form. -/
def InFormat (adjuster : DifficultyAdjustment) (s : ℚ) (target : Nat) : Prop :=
  2 ^ 16 ≤ adjuster.exactTarget s target ∧ adjuster.exactTarget s target < compactLimit

structure Follows (adjuster : DifficultyAdjustment) (s : ℚ) (target next : Nat) : Prop where
  bounds : ∃ v : ℚ, target / 2 ≤ v ∧ v ≤ 2 * target ∧ next ≤ v ∧ (v - next) * 2 ^ 15 < v
  fast : s < adjuster.interval → next ≤ target
  slow : adjuster.interval < s → target ≤ next

def nextTarget (adjuster : DifficultyAdjustment) (s : ℚ) (target : Nat) : Nat :=
  nbitsToTarget (targetToNbits (adjustTarget (adjuster.clamped s) target))

theorem long_of_inFormat (positive : 0 < s) (format : adjuster.InFormat s target) :
    2 ^ 16 ≤ adjustTarget (adjuster.clamped s) target ∧ adjustTarget (adjuster.clamped s) target < compactLimit := by
  have nonneg : 0 ≤ adjuster.exactTarget s target := le_trans (by norm_num) format.1
  rw [adjustTarget_eq_floor positive]
  exact ⟨Nat.le_floor (by exact_mod_cast format.1), (Nat.floor_lt nonneg).mpr format.2⟩

/-- Rounding to a whole number first adds nothing to the error of the compact form. -/
theorem near_of_floor {v : ℚ} (nonneg : 0 ≤ v) (long : 2 ^ 16 ≤ ⌊v⌋₊) (fits : ⌊v⌋₊ < compactLimit) :
    (nbitsToTarget (targetToNbits ⌊v⌋₊) : ℚ) ≤ v ∧ (v - nbitsToTarget (targetToNbits ⌊v⌋₊)) * 2 ^ 15 < v := by
  rw [decode_targetToNbits long fits]
  have kept : (cut 256 (scale ⌊v⌋₊) ⌊v⌋₊ : ℚ) ≤ v := le_trans (Nat.cast_le.mpr (cut_le ..)) (Nat.floor_le nonneg)
  have unit : ((256 ^ scale ⌊v⌋₊ : Nat) : ℚ) * 2 ^ 15 ≤ cut 256 (scale ⌊v⌋₊) ⌊v⌋₊ := by
    exact_mod_cast pow_scale_le long
  have close : v < cut 256 (scale ⌊v⌋₊) ⌊v⌋₊ + (256 ^ scale ⌊v⌋₊ : Nat) := by
    calc v < (⌊v⌋₊ : ℚ) + 1 := Nat.lt_floor_add_one v
      _ ≤ _ := by exact_mod_cast lt_cut_add (by decide) (scale ⌊v⌋₊) ⌊v⌋₊
  exact ⟨kept, by linarith⟩

theorem adjustTarget_le (positive : 0 < s) (fast : s < adjuster.interval) :
    adjustTarget (adjuster.clamped s) target ≤ target := by
  rw [adjustTarget_of_fast positive fast]
  calc target * 1000 / adjuster.divisor s ≤ target * 1000 / 1000 :=
        Nat.div_le_div_left (divisor_bounds positive fast).1 (by decide)
    _ = target := Nat.mul_div_cancel target (by decide)

theorem le_adjustTarget (positive : 0 < s) (slow : adjuster.interval ≤ s) :
    target ≤ adjustTarget (adjuster.clamped s) target := by
  rw [adjustTarget_of_slow positive slow]
  calc target = target * 1000 / 1000 := (Nat.mul_div_cancel target (by decide)).symm
    _ ≤ target * adjuster.multiplier s / 1000 :=
        Nat.div_le_div_right (Nat.mul_le_mul_left _ (multiplier_bounds positive slow).1)

theorem follows_of_inFormat {nbits : UInt32} (positive : 0 < s) (format : adjuster.InFormat s (nbitsToTarget nbits)) :
    adjuster.Follows s (nbitsToTarget nbits) (adjuster.nextTarget s (nbitsToTarget nbits)) where
  bounds := by
    obtain ⟨long, fits⟩ := long_of_inFormat positive format
    obtain ⟨half, double⟩ := @exactTarget_bounds adjuster s (nbitsToTarget nbits) positive
    rw [adjustTarget_eq_floor positive] at long fits
    have near := near_of_floor (le_trans (by norm_num) format.1) long fits
    rw [nextTarget, adjustTarget_eq_floor positive]
    exact ⟨adjuster.exactTarget s (nbitsToTarget nbits), half, double, near⟩
  fast fast := by
    obtain ⟨long, fits⟩ := long_of_inFormat positive format
    rw [nextTarget, decode_targetToNbits long fits]
    exact Nat.le_trans (cut_le ..) (adjustTarget_le positive fast)
  slow slow := by
    obtain ⟨long, fits⟩ := long_of_inFormat positive format
    obtain ⟨word, j, small, eq⟩ := exists_word nbits
    have above : nbitsToTarget nbits ≤ adjustTarget (adjuster.clamped s) (nbitsToTarget nbits) :=
      le_adjustTarget positive slow.le
    rw [nextTarget, decode_targetToNbits long fits]
    rw [eq] at above long ⊢
    exact (exponent_scale long).le_cut_of_word (by decide) (by decide) small above

theorem nextTarget_mono (positive : 0 < s) (le : s ≤ s') (format : adjuster.InFormat s target)
    (format' : adjuster.InFormat s' target) : adjuster.nextTarget s target ≤ adjuster.nextTarget s' target := by
  obtain ⟨long, fits⟩ := long_of_inFormat positive format
  obtain ⟨long', fits'⟩ := long_of_inFormat (positive.trans_le le) format'
  rw [nextTarget, nextTarget, decode_targetToNbits long fits, decode_targetToNbits long' fits']
  exact (exponent_scale long).cut_mono (exponent_scale long') (by decide) (by decide) (adjustTarget_mono positive le)

theorem inFormat_of_follows {nbits : UInt32} (positive : 0 < s) (nonzero : nbitsToTarget nbits ≠ 0)
    (follows : adjuster.Follows s (nbitsToTarget nbits) (adjuster.nextTarget s (nbitsToTarget nbits))) :
    adjuster.InFormat s (nbitsToTarget nbits) := by
  obtain ⟨half, double⟩ : _ ∧ _ := exactTarget_bounds positive
  have known : (0 : ℚ) < nbitsToTarget nbits := Nat.cast_pos.mpr (Nat.pos_of_ne_zero nonzero)
  have below : (nbitsToTarget nbits : ℚ) < compactLimit := Nat.cast_lt.mpr (nbitsToTarget_lt nbits)
  obtain ⟨v, low, high, kept, close⟩ := follows.bounds
  rw [nextTarget, adjustTarget_eq_floor positive] at kept close
  rw [InFormat]
  generalize adjuster.exactTarget s (nbitsToTarget nbits) = exact at half double kept close ⊢
  have nonneg : 0 ≤ exact := by linarith
  have next : nbitsToTarget (targetToNbits ⌊exact⌋₊) ≠ 0 := by
    intro zero
    rw [zero] at close
    push_cast at close
    linarith
  constructor
  · by_contra short
    have small : ⌊exact⌋₊ < 2 ^ 16 := (Nat.floor_lt nonneg).mpr (by exact_mod_cast not_le.mp short)
    have whole : ⌊exact⌋₊ ≠ 0 := by
      intro zero
      rw [zero] at next
      exact next (by decide)
    have grown : (⌊exact⌋₊ : ℚ) * 256 ≤ nbitsToTarget (targetToNbits ⌊exact⌋₊) := by
      exact_mod_cast le_decode_encode_of_short whole small
    have one : (1 : ℚ) ≤ ⌊exact⌋₊ := by exact_mod_cast Nat.one_le_iff_ne_zero.mpr whole
    have near := Nat.lt_floor_add_one exact
    linarith
  · by_contra large
    apply next
    apply decode_encode_of_large (Nat.le_floor (not_lt.mp large))
    rw [Nat.floor_lt nonneg]
    push_cast
    linarith

end Target

/-! ### The adjustment -/

def lastTarget (headers : List HeaderForDifficulty) : Nat :=
  (headers.getLast?.map fun header => nbitsToTarget header.nBits).getD 0

variable {adjuster : DifficultyAdjustment} {headers headers' : List HeaderForDifficulty}

theorem linearRegressionDifficulty_eq (regular : Regular headers) : ∃ nBits,
    lastTarget headers = nbitsToTarget nBits ∧ adjuster.linearRegressionDifficulty headers =
      .ok (targetToNbits (adjustTarget (adjuster.clamped (slope headers)) (nbitsToTarget nBits))) := by
  have two := regular.two
  have nonempty : headers ≠ [] := by
    rintro rfl
    exact absurd two (by decide)
  have one := one_le_denominator regular
  have spreads : ¬ |denominator headers| < epsilon := by
    rw [abs_of_pos (by linarith), epsilon]
    norm_num
    linarith
  refine ⟨(headers.getLast nonempty).nBits, ?_, ?_⟩
  · simp [lastTarget, List.getLast?_eq_some_getLast nonempty]
  · rw [linearRegressionDifficulty, dif_neg (by omega), if_neg spreads]

theorem regression_target (adjuster : DifficultyAdjustment) (regular : Regular headers) (regular' : Regular headers')
    (nonzero : lastTarget headers ≠ 0) (same : lastTarget headers' = lastTarget headers) :
    ∃ nBits nBits', adjuster.linearRegressionDifficulty headers = .ok nBits ∧
      adjuster.linearRegressionDifficulty headers' = .ok nBits' ∧
      (adjuster.Follows (slope headers) (lastTarget headers) (nbitsToTarget nBits) ∧
          adjuster.Follows (slope headers') (lastTarget headers') (nbitsToTarget nBits') ∧
          (slope headers ≤ slope headers' → nbitsToTarget nBits ≤ nbitsToTarget nBits') ↔
        adjuster.InFormat (slope headers) (lastTarget headers) ∧
          adjuster.InFormat (slope headers') (lastTarget headers')) := by
  obtain ⟨last, eq, ran⟩ := @linearRegressionDifficulty_eq adjuster headers regular
  obtain ⟨last', eq', ran'⟩ := @linearRegressionDifficulty_eq adjuster headers' regular'
  have positive := slope_pos regular
  have positive' := slope_pos regular'
  refine ⟨_, _, ran, ran', ?_⟩
  rw [eq, eq'] at same
  rw [eq, eq', ← same]
  rw [eq] at nonzero
  have nonzero' : nbitsToTarget last' ≠ 0 := same ▸ nonzero
  constructor
  · rintro ⟨follows, follows', -⟩
    rw [same] at follows ⊢
    exact ⟨inFormat_of_follows positive nonzero follows, same ▸ inFormat_of_follows positive' nonzero' follows'⟩
  · rintro ⟨format, format'⟩
    refine ⟨follows_of_inFormat positive format, follows_of_inFormat positive' format', fun le => ?_⟩
    exact nextTarget_mono positive le format format'

def minuteApart (nBits : UInt32) : List HeaderForDifficulty := [⟨1, 1000, nBits⟩, ⟨2, 61000, nBits⟩]

theorem regular_minuteApart (nBits : UInt32) : Regular (minuteApart nBits) where
  two := le_rfl
  heights := by simp [minuteApart]
  timestamps := by simp [minuteApart]

theorem regression_target_minuteApart :
    ∃ nBits nBits', new.linearRegressionDifficulty (minuteApart 0x1b0404cb) = .ok nBits ∧
      new.linearRegressionDifficulty (minuteApart 0x1b0404cb) = .ok nBits' ∧
      (new.Follows (slope (minuteApart 0x1b0404cb)) (lastTarget (minuteApart 0x1b0404cb)) (nbitsToTarget nBits) ∧
          new.Follows (slope (minuteApart 0x1b0404cb)) (lastTarget (minuteApart 0x1b0404cb)) (nbitsToTarget nBits') ∧
          (slope (minuteApart 0x1b0404cb) ≤ slope (minuteApart 0x1b0404cb) →
            nbitsToTarget nBits ≤ nbitsToTarget nBits') ↔
        new.InFormat (slope (minuteApart 0x1b0404cb)) (lastTarget (minuteApart 0x1b0404cb)) ∧
          new.InFormat (slope (minuteApart 0x1b0404cb)) (lastTarget (minuteApart 0x1b0404cb))) :=
  regression_target new (regular_minuteApart _) (regular_minuteApart _) (by decide +kernel) rfl

/-- From a target of two, and the blocks too fast. -/
theorem regression_leaves_bounds : Regular (minuteApart 0x03000002) ∧ lastTarget (minuteApart 0x03000002) = 2 ∧
    new.linearRegressionDifficulty (minuteApart 0x03000002) = .ok 0x03010000 ∧
    ¬ new.Follows (slope (minuteApart 0x03000002)) 2 (nbitsToTarget 0x03010000) := by
  refine ⟨regular_minuteApart _, by decide +kernel, by decide +kernel, fun follows => ?_⟩
  obtain ⟨v, -, high, low, -⟩ := follows.bounds
  have decoded : nbitsToTarget 0x03010000 = 65536 := by decide +kernel
  rw [decoded] at low
  push_cast at high low
  linarith

end ErgoNode.DifficultyAdjustment
