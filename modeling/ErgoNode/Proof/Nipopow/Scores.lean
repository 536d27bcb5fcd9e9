import ErgoNode.Consensus.Nipopow
import Mathlib.Order.Bounds.Basic
import Mathlib.Tactic.IntervalCases

/-!
# Scores of chains of superblocks

The loop over the levels stops at the first one with too few superblocks, and all higher ones have too few
as well.
-/

namespace ErgoNode.Proof.Nipopow
open Lib

section Scores
variable {levels : List Nat} {m : Int32} {level left : Nat} {best : Int64}

def superblocks (levels : List Nat) (level : Nat) : Nat := (levels.filter fun l => l ≥ level).length

def ScoreFits (levels : List Nat) (level : Nat) : Prop :=
  level ≤ 63 ∧ (2 ^ level * superblocks levels level < 2 ^ 63 ∨ superblocks levels level ≤ 1)

theorem superblocks_le (levels : List Nat) (level : Nat) : superblocks levels level ≤ levels.length :=
  List.length_filter_le ..

theorem superblocks_zero (levels : List Nat) : superblocks levels 0 = levels.length := by
  simp [superblocks]

theorem superblocks_anti (levels : List Nat) : Antitone (superblocks levels) := by
  intro low high le
  refine (List.monotone_filter_right levels fun l => ?_).length_le
  simp only [decide_eq_true_eq]
  exact le.trans

theorem asUsize_le_iff {count : Nat} (memory : count < 2 ^ 63) :
    m.toInt64.toUInt64.toNat ≤ count ↔ 0 ≤ m.toInt ∧ m.toInt ≤ count := by
  have value := BitVec.toInt_eq_toNat_cond m.toInt64.toBitVec
  have below := m.toInt64.toBitVec.isLt
  rw [Int64.toInt_toBitVec, Int32.toInt_toInt64] at value
  rw [Int64.toNat_toBitVec] at value below
  split at value <;> omega

theorem value_bestArgFromChecked (left level : Nat) (best : Int64) :
    (bestArgFromChecked levels m left level best).value = bestArgFrom levels m left level best := by
  induction left generalizing level best with
  | zero => rfl
  | succ left ih =>
      rw [bestArgFromChecked, bestArgFrom]
      dsimp only
      split
      · exact ih ..
      · rfl

theorem value_bestArgChecked (levels : List Nat) (m : Int32) : (bestArgChecked levels m).value = bestArg levels m := by
  unfold bestArgChecked bestArg
  split
  · rfl
  · exact value_bestArgFromChecked ..

theorem bestArgFromChecked_exact (memory : levels.length < 2 ^ 63) (left level : Nat) (best : Int64) :
    (bestArgFromChecked levels m left level best).overflowed = false ↔
      ∀ mu, level ≤ mu → mu < level + left → m.toInt64.toUInt64.toNat ≤ superblocks levels mu →
        ScoreFits levels mu := by
  induction left generalizing level best with
  | zero =>
      refine iff_of_true rfl fun mu low high => ?_
      omega
  | succ left ih =>
      rw [bestArgFromChecked]
      split
      · next enough =>
          have few : superblocks levels level < 2 ^ 63 := Nat.lt_of_le_of_lt (superblocks_le levels level) memory
          rw [Overflowing.overflowed_bind, Overflowing.overflowed_bind, ← Bool.or_assoc, Bool.or_eq_false_iff]
          refine (and_congr (Overflowing.shl_times_exact few) (ih ..)).trans ?_
          constructor
          · rintro ⟨first, later⟩ mu low high more
            rcases Nat.eq_or_lt_of_le low with rfl | above
            · exact first
            · exact later mu above (by omega) more
          · intro all
            exact ⟨all level le_rfl (by omega) enough, fun mu low high => all mu (by omega) (by omega)⟩
      · next few =>
          refine iff_of_true rfl fun mu low _ enough => ?_
          exact absurd (enough.trans (superblocks_anti levels low)) few

theorem bestArgChecked_exact (memory : levels.length < 2 ^ 63) :
    (bestArgChecked levels m).overflowed = false ↔
      levels = [] ∨ ∀ mu, 1 ≤ mu → mu ≤ 256 → m.toInt64.toUInt64.toNat ≤ superblocks levels mu →
        ScoreFits levels mu := by
  unfold bestArgChecked
  split
  · next empty => exact iff_of_true rfl (.inl (List.isEmpty_iff.mp empty))
  · next some =>
      rw [List.isEmpty_iff] at some
      rw [bestArgFromChecked_exact memory, or_iff_right some]
      simp only [Nat.reduceAdd, Nat.lt_succ_iff]

/-! ### The greatest score -/

theorem toInt_max (a b : Int64) : (max a b).toInt = max a.toInt b.toInt := by
  change (if a ≤ b then b else a).toInt = _
  simp only [Int64.le_iff_toInt_le, max_def]
  split <;> rfl

def levelScore (levels : List Nat) (level : Nat) : Int64 :=
  (1 : Int64) <<< Int64.ofNat level * Int64.ofNat (superblocks levels level)

def scoresFrom (levels : List Nat) (m : Int32) (level : Nat) : Set ℤ :=
  {score | ∃ mu, level ≤ mu ∧ m.toInt ≤ superblocks levels mu ∧ score = ((2 ^ mu * superblocks levels mu : Nat) : ℤ)}

theorem scoresFrom_eq (enough : m.toInt ≤ superblocks levels level) : scoresFrom levels m level =
    insert ((2 ^ level * superblocks levels level : Nat) : ℤ) (scoresFrom levels m (level + 1)) := by
  ext score
  constructor
  · rintro ⟨mu, low, more, rfl⟩
    rcases Nat.eq_or_lt_of_le low with rfl | above
    · exact .inl rfl
    · exact .inr ⟨mu, above, more, rfl⟩
  · rintro (rfl | ⟨mu, above, more, rfl⟩)
    · exact ⟨level, le_rfl, enough, rfl⟩
    · exact ⟨mu, by omega, more, rfl⟩

theorem scoresFrom_eq_empty (few : ¬ m.toInt ≤ superblocks levels level) : scoresFrom levels m level = ∅ := by
  refine Set.eq_empty_of_forall_notMem ?_
  rintro score ⟨mu, low, more, -⟩
  have fewer := superblocks_anti levels low
  omega

theorem isGreatest_insert_insert {a b x : ℤ} {s : Set ℤ} (greatest : IsGreatest (insert (max a b) s) x) :
    IsGreatest (insert a (insert b s)) x := by
  obtain ⟨member, bound⟩ := greatest
  constructor
  · rcases member with rfl | there
    · rcases max_choice a b with left | right
      · exact .inl left
      · exact .inr (.inl right)
    · exact .inr (.inr there)
  · rintro y (rfl | rfl | there)
    · exact (le_max_left ..).trans (bound (.inl rfl))
    · exact (le_max_right ..).trans (bound (.inl rfl))
    · exact bound (.inr there)

section Greatest
variable (positive : 1 ≤ m.toInt)
  (fits : ∀ mu, m.toInt ≤ superblocks levels mu → 2 ^ mu * superblocks levels mu < 2 ^ 63)
include positive fits

theorem lt_of_enough (enough : m.toInt ≤ superblocks levels level) : level < 63 := by
  have some : 0 < superblocks levels level := by omega
  have bit := Nat.lt_of_le_of_lt (Nat.le_mul_of_pos_right (2 ^ level) some) (fits level enough)
  exact (Nat.pow_lt_pow_iff_right (by decide)).mp bit

theorem bestArgFrom_isGreatest (memory : levels.length < 2 ^ 63) (left level : Nat) (best : Int64)
    (far : 63 ≤ level + left) :
    IsGreatest (insert best.toInt (scoresFrom levels m level)) (bestArgFrom levels m left level best).toInt := by
  have few (mu : Nat) : superblocks levels mu < 2 ^ 63 := Nat.lt_of_le_of_lt (superblocks_le levels mu) memory
  have alone (level : Nat) (best : Int64) (none : ¬ m.toInt ≤ superblocks levels level) :
      IsGreatest (insert best.toInt (scoresFrom levels m level)) best.toInt := by
    rw [scoresFrom_eq_empty none, LawfulSingleton.insert_empty_eq]
    exact isGreatest_singleton
  induction left generalizing level best with
  | zero =>
      refine alone level best fun enough => ?_
      have near := lt_of_enough positive fits enough
      omega
  | succ left ih =>
      rw [bestArgFrom]
      split
      · next reached =>
          have enough := ((asUsize_le_iff (few level)).mp reached).2
          have score : (levelScore levels level).toInt = ((2 ^ level * superblocks levels level : Nat) : ℤ) :=
            Overflowing.toInt_shl_times (by omega) (fits level enough)
          have later := ih (level + 1) (max best (levelScore levels level)) (by omega)
          rw [toInt_max] at later
          rw [scoresFrom_eq enough, ← score]
          exact isGreatest_insert_insert later
      · next missed =>
          refine alone level best fun enough => missed ?_
          exact (asUsize_le_iff (few level)).mpr ⟨by omega, enough⟩

end Greatest

theorem bestArg_isGreatest (positive : 1 ≤ m.toInt)
    (fits : ∀ mu, m.toInt ≤ superblocks levels mu → 2 ^ mu * superblocks levels mu < 2 ^ 63)
    (memory : levels.length < 2 ^ 63) :
    IsGreatest {score | ∃ mu, (mu = 0 ∨ m.toInt ≤ superblocks levels mu) ∧
      score = ((2 ^ mu * superblocks levels mu : Nat) : ℤ)} (bestArg levels m).toInt := by
  have whole : (Int64.ofNat levels.length).toInt = ((2 ^ 0 * superblocks levels 0 : Nat) : ℤ) := by
    rw [superblocks_zero, Nat.pow_zero, Nat.one_mul]
    exact Int64.toInt_ofNat_of_lt memory
  have scores : {score | ∃ mu, (mu = 0 ∨ m.toInt ≤ superblocks levels mu) ∧
      score = ((2 ^ mu * superblocks levels mu : Nat) : ℤ)} =
      insert (Int64.ofNat levels.length).toInt (scoresFrom levels m 1) := by
    ext score
    rw [whole]
    constructor
    · rintro ⟨mu, counted, rfl⟩
      rcases Nat.eq_zero_or_pos mu with rfl | above
      · exact .inl rfl
      · exact .inr ⟨mu, above, counted.resolve_left (by omega), rfl⟩
    · rintro (rfl | ⟨mu, -, enough, rfl⟩)
      · exact ⟨0, .inl rfl, rfl⟩
      · exact ⟨mu, .inr enough, rfl⟩
  rw [scores]
  unfold bestArg
  split
  · next empty =>
      rw [List.isEmpty_iff] at empty
      have none : ¬ m.toInt ≤ superblocks levels 1 := by
        rw [empty]
        exact Int.not_le_of_gt positive
      rw [scoresFrom_eq_empty none, LawfulSingleton.insert_empty_eq, empty]
      exact isGreatest_singleton
  · exact bestArgFrom_isGreatest positive fits memory 256 1 _ (by decide)

theorem bestArg_exact_iff (levels : List Nat) (m : Int32) (memory : levels.length < 2 ^ 63) :
    ((bestArgChecked levels m).overflowed = false ∧
        (1 ≤ m.toInt → (∀ mu, m.toInt ≤ superblocks levels mu → 2 ^ mu * superblocks levels mu < 2 ^ 63) →
          IsGreatest {score | ∃ mu, (mu = 0 ∨ m.toInt ≤ superblocks levels mu) ∧
            score = ((2 ^ mu * superblocks levels mu : Nat) : ℤ)} (bestArgChecked levels m).value.toInt)) ↔
      levels = [] ∨ m.toInt < 0 ∨ ∀ mu, 1 ≤ mu → mu ≤ 256 → m.toInt ≤ superblocks levels mu →
        mu ≤ 63 ∧ (2 ^ mu * superblocks levels mu < 2 ^ 63 ∨ superblocks levels mu ≤ 1) := by
  have few (mu : Nat) : superblocks levels mu < 2 ^ 63 := Nat.lt_of_le_of_lt (superblocks_le levels mu) memory
  rw [value_bestArgChecked, and_iff_left (fun positive fits => bestArg_isGreatest positive fits memory),
    bestArgChecked_exact memory]
  refine or_congr_right ?_
  simp only [asUsize_le_iff (few _), ScoreFits]
  constructor
  · intro exact
    rcases Int.lt_or_le m.toInt 0 with negative | nonneg
    · exact .inl negative
    · exact .inr fun mu low high enough => exact mu low high ⟨nonneg, enough⟩
  · rintro (negative | exact) mu low high ⟨nonneg, enough⟩
    · omega
    · exact exact mu low high enough

end Scores

theorem bestArg_exact_iff_threeSecond :
    (bestArgChecked [0, 2, 2, 0, 2] 3).overflowed = false ∧
      (1 ≤ (3 : Int32).toInt →
        (∀ mu, (3 : Int32).toInt ≤ superblocks [0, 2, 2, 0, 2] mu → 2 ^ mu * superblocks [0, 2, 2, 0, 2] mu < 2 ^ 63) →
          IsGreatest {score | ∃ mu, (mu = 0 ∨ (3 : Int32).toInt ≤ superblocks [0, 2, 2, 0, 2] mu) ∧
            score = ((2 ^ mu * superblocks [0, 2, 2, 0, 2] mu : Nat) : ℤ)}
              (bestArgChecked [0, 2, 2, 0, 2] 3).value.toInt) := by
  refine (bestArg_exact_iff [0, 2, 2, 0, 2] 3 (by decide)).mpr (.inr (.inr ?_))
  intro mu _ _ enough
  have second : mu ≤ 2 := by
    by_contra above
    have fewer : superblocks [0, 2, 2, 0, 2] mu ≤ 0 := superblocks_anti [0, 2, 2, 0, 2] (not_le.mp above)
    have three : (3 : Int) ≤ superblocks [0, 2, 2, 0, 2] mu := enough
    omega
  interval_cases mu <;> decide

/-- A proof that asks for no superblocks has enough of them at the levels beyond the word. -/
theorem bestArg_overflows : ¬ (bestArgChecked [0] 0).overflowed = false := by
  intro exact
  have fit := ((bestArgChecked_exact (by decide)).mp exact).resolve_left (by decide)
  have inside : 64 ≤ 63 := (fit 64 (by decide) (by decide) (by decide)).1
  omega

end ErgoNode.Proof.Nipopow
