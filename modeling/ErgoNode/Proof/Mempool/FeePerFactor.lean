import ErgoNode.Consensus.Reemission
import ErgoNode.Mempool.Pool
import Mathlib.Algebra.Order.Ring.Nat

/-!
# Weights and the supply of coins

A fee is multiplied by 1024 in a signed 64-bit number before it is divided by the size, and the quotients are
added up along the ancestors.
-/

namespace ErgoNode.Proof.Mempool
open Lib ErgoNode.Mempool

theorem new_feePerFactor (txId : Bytes) (fee size created : Nat) :
    (WeightedTxId.new txId fee size created).weight = (feePerFactor fee size).value := by
  unfold WeightedTxId.new feePerFactor
  dsimp only
  split <;> rfl

section Single
variable {fee size : Nat}

theorem overflowed_feePerFactor (small : fee < 2 ^ 63) (positive : 1 ≤ size) :
    (feePerFactor fee size).overflowed = false ↔ fee * 1024 < 2 ^ 63 := by
  have factor : (1024 : Int64).toInt = 1024 := by decide
  rw [feePerFactor, if_neg (by omega), Overflowing.overflowed_bind, Overflowing.overflowed_pure, Bool.or_false,
    Overflowing.times, decide_eq_false_iff_not, Int64.toInt_ofNat_of_lt small, factor]
  omega

theorem toInt_feePerFactor (fits : fee * 1024 < 2 ^ 63) (positive : 1 ≤ size) (small : size < 2 ^ 63) :
    (feePerFactor fee size).value.toInt = (fee * 1024 / size : Nat) := by
  have factor : (1024 : Int64).toInt = 1024 := by decide
  have product : (Int64.ofNat fee * 1024).toInt = (fee * 1024 : Nat) := by
    rw [Int64.toInt_mul, Int64.toInt_ofNat_of_lt (by omega), factor]
    exact Int.bmod_eq_of_le (by omega) (by omega)
  have quotient : fee * 1024 / size ≤ fee * 1024 := Nat.div_le_self ..
  rw [feePerFactor, if_neg (by omega), Overflowing.value_bind, Overflowing.value_pure]
  change (Int64.ofNat fee * 1024 / Int64.ofNat size).toInt = _
  rw [Int64.toInt_div, product, Int64.toInt_ofNat_of_lt small, ← Int.ofNat_tdiv]
  generalize fee * 1024 / size = weight at quotient ⊢
  exact Int.bmod_eq_of_le (by omega) (by omega)

end Single

/-- A fee with the size of its transaction. -/
abbrev FeeAndSize := Nat × Nat

def FeeAndSize.weight (entry : FeeAndSize) : Overflowing Int64 := feePerFactor entry.1 entry.2

def FeeAndSize.exactWeight (entry : FeeAndSize) : Nat := entry.1 * 1024 / entry.2

/-- The weights of a family, those that new transactions get, are exact, grow with the fee, and add up, and
nothing overflows. -/
structure ExactWeights (family : List FeeAndSize) : Prop where
  computed : ∀ entry ∈ family, ∀ txId created,
    (WeightedTxId.new txId entry.1 entry.2 created).weight = entry.weight.value
  single : ∀ entry ∈ family, entry.weight.overflowed = false ∧ entry.weight.value.toInt = entry.exactWeight
  monotone : ∀ entry ∈ family, ∀ less ≤ entry.1, (feePerFactor less entry.2).value ≤ entry.weight.value
  total : ∃ total, (family.map fun entry => entry.weight.value).foldlM Overflowing.plus 0 = pure total ∧
    total.toInt = (family.map FeeAndSize.exactWeight).sum

variable {family : List FeeAndSize}

theorem sum_toInt (value : ∀ entry ∈ family, entry.weight.value.toInt = entry.exactWeight) :
    ((family.map fun entry => entry.weight.value).map Int64.toInt).sum =
      ((family.map FeeAndSize.exactWeight).sum : Nat) := by
  induction family with
  | nil => rfl
  | cons entry rest ih =>
      simp only [List.map_cons, List.sum_cons, Nat.cast_add]
      rw [value entry List.mem_cons_self, ih fun other member => value other (List.mem_cons_of_mem entry member)]

/-- Within the supply of coins the weights of a family are right exactly if each fee times 1024 and the sum of
the quotients stay below 2^63. A descendant is listed once for each way that leads up from it. -/
theorem exactWeights_iff (supply : ∀ entry ∈ family, entry.1 ≤ ReemissionRules.totalSupply)
    (sizes : ∀ entry ∈ family, 1 ≤ entry.2 ∧ entry.2 < 2 ^ 63) :
    ExactWeights family ↔
      (∀ entry ∈ family, entry.1 * 1024 < 2 ^ 63) ∧ (family.map FeeAndSize.exactWeight).sum < 2 ^ 63 := by
  have small : ∀ entry ∈ family, entry.1 < 2 ^ 63 := by
    intro entry member
    have most : ReemissionRules.totalSupply < 2 ^ 63 := by decide
    exact Nat.lt_of_le_of_lt (supply entry member) most
  constructor
  · intro exactly
    refine ⟨fun entry member => ?_, ?_⟩
    · exact (overflowed_feePerFactor (small entry member) (sizes entry member).1).mp (exactly.single entry member).1
    · obtain ⟨total, -, value⟩ := exactly.total
      have bounded := total.toInt_lt
      omega
  · rintro ⟨fits, sum⟩
    have value : ∀ entry ∈ family, entry.weight.value.toInt = entry.exactWeight := fun entry member =>
      toInt_feePerFactor (fits entry member) (sizes entry member).1 (sizes entry member).2
    refine ⟨fun entry _ txId created => new_feePerFactor txId entry.1 entry.2 created,
      fun entry member => ⟨?_, value entry member⟩, fun entry member less le => ?_, ?_⟩
    · exact (overflowed_feePerFactor (small entry member) (sizes entry member).1).mpr (fits entry member)
    · have below : less * 1024 < 2 ^ 63 := Nat.lt_of_le_of_lt (Nat.mul_le_mul_right _ le) (fits entry member)
      rw [Int64.le_iff_toInt_le, value entry member,
        toInt_feePerFactor below (sizes entry member).1 (sizes entry member).2]
      exact Int.ofNat_le.mpr (Nat.div_le_div_right (Nat.mul_le_mul_right _ le))
    · have same := sum_toInt value
      have nonneg : ∀ d ∈ family.map fun entry => entry.weight.value, 0 ≤ d.toInt := by
        refine List.forall_mem_map.mpr fun entry member => ?_
        rw [value entry member]
        exact Int.natCast_nonneg _
      obtain ⟨total, added, result⟩ := @Overflowing.foldlM_plus 0 _ (by decide) nonneg (by
        rw [same]
        exact Int.zero_add _ ▸ Int.ofNat_lt.mpr sum)
      refine ⟨total, added, ?_⟩
      rw [result, same]
      exact Int.zero_add _

/-- A transaction of 300 bytes with a fee of 0.001 coins, and its child. -/
theorem exactWeights_two : ExactWeights [(1000000, 300), (5, 200)] :=
  (exactWeights_iff (by decide) (by decide)).mpr ⟨by decide, by decide⟩

/-- A fee of 2^53, less than a tenth of all coins: the weight of a single byte is negative. -/
theorem exactWeights_fails : ¬ ∀ family : List FeeAndSize, (family.map Prod.fst).sum ≤ ReemissionRules.totalSupply →
    (∀ entry ∈ family, 1 ≤ entry.2 ∧ entry.2 < 2 ^ 63) → ExactWeights family := by
  intro all
  have single := (all [(2 ^ 53, 1)] (by decide) (by decide)).single (2 ^ 53, 1) List.mem_cons_self
  exact absurd single.1 (by decide)

end ErgoNode.Proof.Mempool
