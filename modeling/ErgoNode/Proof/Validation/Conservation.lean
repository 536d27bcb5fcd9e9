import ErgoNode.Lib.Except
import ErgoNode.Lib.Wrapping
import ErgoNode.Consensus.TxValidation
import ErgoNode.Proof.Sample

/-!
# Conservation

What the boxes of a transaction hold in all, and when the sums that validation compares are these
totals. A total that does not fit 64 bits comes out small, and boxes that hold more than the inputs
pass.
-/

namespace ErgoNode.Proof.Validation
open Lib

section Conservation
variable {tx : Transaction} {inputBoxes boxes : List ErgoBox} {isCoinbase : Bool} {tokenId : TokenId}

/-! ### ERG -/

def ergAmounts (boxes : List ErgoBox) : List Nat := boxes.map ErgoBox.value

def ergTotal (boxes : List ErgoBox) : Nat := (ergAmounts boxes).sum

theorem validateErgConservation_eq : validateErgConservation tx inputBoxes =
    if wrappingSum (2 ^ 64) (ergAmounts tx.outputs) > wrappingSum (2 ^ 64) (ergAmounts inputBoxes) then
      .error (.insufficientFunds (wrappingSum (2 ^ 64) (ergAmounts inputBoxes))
        (wrappingSum (2 ^ 64) (ergAmounts tx.outputs)))
    else .ok (wrappingSum (2 ^ 64) (ergAmounts inputBoxes) - wrappingSum (2 ^ 64) (ergAmounts tx.outputs)) := by
  simp only [wrappingSum_eq]
  rfl

/-- The fee is what the outputs leave of the inputs, and there is one when they leave anything; no addition
wraps around. -/
def ErgConserved (tx : Transaction) (inputBoxes : List ErgoBox) : Prop :=
  (∀ fee, validateErgConservation tx inputBoxes = .ok fee ↔
    ergTotal tx.outputs ≤ ergTotal inputBoxes ∧ fee = ergTotal inputBoxes - ergTotal tx.outputs) ∧
  Unwrapped (2 ^ 64) (ergAmounts inputBoxes) ∧ Unwrapped (2 ^ 64) (ergAmounts tx.outputs)

theorem ergConserved_iff (tx : Transaction) (inputBoxes : List ErgoBox) :
    ErgConserved tx inputBoxes ↔ ergTotal inputBoxes < 2 ^ 64 ∧ ergTotal tx.outputs < 2 ^ 64 := by
  unfold ErgConserved
  rw [unwrapped_iff (by decide), unwrapped_iff (by decide)]
  refine ⟨And.right, fun fits => ⟨fun fee => ?_, fits⟩⟩
  have inputs : wrappingSum (2 ^ 64) (ergAmounts inputBoxes) = ergTotal inputBoxes := by
    rw [wrappingSum_eq]
    exact Nat.mod_eq_of_lt fits.1
  have outputs : wrappingSum (2 ^ 64) (ergAmounts tx.outputs) = ergTotal tx.outputs := by
    rw [wrappingSum_eq]
    exact Nat.mod_eq_of_lt fits.2
  rw [validateErgConservation_eq, inputs, outputs]
  split
  · next more => simp [Nat.not_le.mpr more]
  · next enough => simp [Nat.not_lt.mp enough, eq_comm]

/-! ### Tokens -/

def tokenAmounts (boxes : List ErgoBox) (tokenId : TokenId) : List Nat :=
  ((tokensOf boxes).filter (·.tokenId = tokenId)).map Token.amount

def tokenTotal (boxes : List ErgoBox) (tokenId : TokenId) : Nat := (tokenAmounts boxes tokenId).sum

theorem tokenAmount_eq : tokenAmount boxes tokenId = wrappingSum (2 ^ 64) (tokenAmounts boxes tokenId) :=
  (wrappingSum_eq _).symm

theorem tokenTotal_eq_zero (missing : tokenId ∉ (tokensOf boxes).map Token.tokenId) : tokenTotal boxes tokenId = 0 := by
  have none : (tokensOf boxes).filter (·.tokenId = tokenId) = [] := by
    refine List.filter_eq_nil_iff.mpr fun token member => ?_
    rw [decide_eq_true_iff]
    rintro rfl
    exact missing (List.mem_map_of_mem member)
  rw [tokenTotal, tokenAmounts, none]
  rfl

def Mintable (isCoinbase : Bool) (inputBoxes : List ErgoBox) (tokenId : TokenId) : Prop :=
  isCoinbase = false ∧ inputBoxes.head?.map ErgoBox.boxId = some tokenId

theorem validateTokenConservation_eq_ok : validateTokenConservation tx inputBoxes isCoinbase = .ok () ↔
    ∀ tokenId ∈ (tokensOf tx.outputs).map Token.tokenId,
      tokenAmount tx.outputs tokenId ≤ tokenAmount inputBoxes tokenId ∨ Mintable isCoinbase inputBoxes tokenId := by
  unfold validateTokenConservation
  rw [forM_eq_ok]
  refine forall₂_congr fun tokenId _ => ?_
  cases isCoinbase with
  | true => simp [Mintable]
  | false =>
      rw [if_neg Bool.false_ne_true]
      dsimp only
      split
      · next more => simp [Mintable, Nat.not_le.mpr more.1, more.2]
      · next enough =>
          rw [not_and_or, not_lt, not_not] at enough
          simpa [Mintable] using enough

/-- No token is created but the mintable one, and every transaction that creates no other is accepted; no
addition wraps around. -/
def TokensConserved (tx : Transaction) (inputBoxes : List ErgoBox) (isCoinbase : Bool) : Prop :=
  (validateTokenConservation tx inputBoxes isCoinbase = .ok () ↔ ∀ tokenId,
    tokenTotal tx.outputs tokenId ≤ tokenTotal inputBoxes tokenId ∨ Mintable isCoinbase inputBoxes tokenId) ∧
  ∀ tokenId, Unwrapped (2 ^ 64) (tokenAmounts inputBoxes tokenId) ∧ Unwrapped (2 ^ 64) (tokenAmounts tx.outputs tokenId)

theorem tokensConserved_iff (tx : Transaction) (inputBoxes : List ErgoBox) (isCoinbase : Bool) :
    TokensConserved tx inputBoxes isCoinbase ↔
      ∀ tokenId, tokenTotal inputBoxes tokenId < 2 ^ 64 ∧ tokenTotal tx.outputs tokenId < 2 ^ 64 := by
  have unwrapped (tokenId : TokenId) :
      (Unwrapped (2 ^ 64) (tokenAmounts inputBoxes tokenId) ∧ Unwrapped (2 ^ 64) (tokenAmounts tx.outputs tokenId)) ↔
        tokenTotal inputBoxes tokenId < 2 ^ 64 ∧ tokenTotal tx.outputs tokenId < 2 ^ 64 := by
    rw [unwrapped_iff (by decide), unwrapped_iff (by decide)]
    rfl
  unfold TokensConserved
  rw [forall_congr' unwrapped]
  refine ⟨And.right, fun fits => ⟨?_, fits⟩⟩
  have exact (boxes : List ErgoBox) (tokenId : TokenId) (small : tokenTotal boxes tokenId < 2 ^ 64) :
      tokenAmount boxes tokenId = tokenTotal boxes tokenId := by
    rw [tokenAmount_eq, wrappingSum_eq]
    exact Nat.mod_eq_of_lt small
  rw [validateTokenConservation_eq_ok]
  constructor
  · intro accepted tokenId
    by_cases output : tokenId ∈ (tokensOf tx.outputs).map Token.tokenId
    · have checked := accepted tokenId output
      rwa [exact _ _ (fits tokenId).1, exact _ _ (fits tokenId).2] at checked
    · rw [tokenTotal_eq_zero output]
      exact .inl (Nat.zero_le _)
  · intro conserved tokenId _
    rw [exact _ _ (fits tokenId).1, exact _ _ (fits tokenId).2]
    exact conserved tokenId

end Conservation

/-! ### Samples -/

section Samples
open Sample

def valuedBox (n : UInt8) (value : Nat) : ErgoBox := { sampleBox n with value }

def tokenBox (n : UInt8) (amount : Nat) : ErgoBox := { sampleBox n with tokens := some [⟨.filled 9, amount⟩] }

def inflatingTx : Transaction :=
  ⟨.filled 5, [⟨.filled 1, [], []⟩], none,
    [valuedBox 2 (2 ^ 63 - 1), valuedBox 3 (2 ^ 63 - 1), valuedBox 4 1000002]⟩

theorem inflatingTx_not_conserved : ¬ ErgConserved inflatingTx [valuedBox 1 1000000] := by
  intro conserved
  have passed := (conserved.1 0).mp (by decide)
  exact absurd passed.1 (by decide)

def copyingTx : Transaction :=
  ⟨.filled 5, [⟨.filled 1, [], []⟩], none,
    [tokenBox 2 (2 ^ 63 - 1), tokenBox 3 (2 ^ 63 - 1), tokenBox 4 3]⟩

theorem copyingTx_not_conserved : ¬ TokensConserved copyingTx [tokenBox 1 5] false := by
  intro conserved
  have passed := conserved.1.mp (by decide) (.filled 9)
  exact absurd passed (by unfold Mintable; decide)

end Samples
end ErgoNode.Proof.Validation
