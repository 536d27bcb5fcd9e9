import ErgoNode.Proof.Validation.Sequential

/-!
# Checkpoint mode

Up to the checkpoint a block passes whenever full validation accepts it, with the same created boxes.
But its change spends nothing: it is the full change only where the block has no inputs.
-/

namespace ErgoNode.Proof.Validation
open Lib Ledger Node FullBlockValidator

variable (sr : SigmaRust) (interpreter : Interpreter) {validator other : FullBlockValidator}
variable {verifier : TxVerifier} {lookup : BoxId → Option ErgoBox}

structure TracksAlike (full checked : TxLoop) : Prop where
  spentInBlock : checked.spentInBlock = full.spentInBlock
  createdBoxes : checked.createdBoxes = full.createdBoxes
  createdInBlock : checked.createdInBlock = full.createdInBlock
  spentBoxes : checked.spentBoxes = []

theorem TracksAlike.step {full checked next : TxLoop} {entry : Transaction × Nat}
    (alike : TracksAlike full checked)
    (ran : validateTransaction sr interpreter validator verifier false lookup full entry = .ok next) :
    ∃ after, validateTransaction sr interpreter other verifier true lookup checked entry = .ok after ∧
      TracksAlike next after := by
  obtain ⟨tx, idx⟩ := entry
  simp only [validateTransaction, Except.bind_ok_eq_ok, Except.pure_eq_ok] at ran
  obtain ⟨_, distinct, _, fresh, ⟨inputBoxes, totalCost⟩, -, rfl⟩ := ran
  rw [← alike.spentInBlock] at fresh
  refine ⟨⟨checked.totalCost, checked.spentBoxes, checked.createdBoxes ++ createdBoxesOf tx,
    checked.spentInBlock ++ tx.inputs.map Input.boxId, checked.createdInBlock.insertAll tx.outputs⟩, ?_, ?_⟩
  · simp [validateTransaction, distinct, fresh]
  · rw [alike.spentInBlock, alike.createdBoxes, alike.createdInBlock, alike.spentBoxes]
    exact ⟨rfl, rfl, rfl, rfl⟩

section Block
variable {block : FullBlock} {parent : Header} {lastHeaders : List Header} {cost checkpoint : Nat}
variable {change : ValidatedStateChange}

theorem validateBlock_checkpoint (below : block.height ≤ checkpoint)
    (accepted : { validator with checkpoint := none }.validateBlock sr interpreter block parent lookup
      lastHeaders = .ok (cost, change)) :
    ∃ checkedCost, { validator with checkpoint := some checkpoint }.validateBlock sr interpreter block parent
      lookup lastHeaders = .ok (checkedCost, { change with spent := [] }) := by
  have mode : { validator with checkpoint := some checkpoint }.isBelowCheckpoint block.height = true :=
    decide_eq_true below
  simp only [validateBlock, Except.bind_ok_eq_ok, Except.mapError_ok_iff] at accepted ⊢
  obtain ⟨_, header, _, root, accepted⟩ := accepted
  split at accepted
  · exact absurd accepted Except.throw_ne_ok
  · next nonempty =>
      rw [Except.mapError_ok_iff] at accepted
      obtain ⟨acc, ran, -, rfl⟩ := validateTransactions_eq_ok sr interpreter accepted
      have fullMode : { validator with checkpoint := none }.isBelowCheckpoint block.height = false := rfl
      rw [fullMode] at ran
      obtain ⟨checked, reran, alike⟩ := foldlM_simulation TracksAlike ran
        (⟨rfl, rfl, rfl, rfl⟩ : TracksAlike TxLoop.start TxLoop.start)
        fun alike ran => alike.step sr interpreter ran
      refine ⟨checked.totalCost, (), header, (), root, ?_⟩
      rw [if_neg nonempty, Except.mapError_ok_iff]
      simp only [validateTransactions, mode, Except.bind_ok_eq_ok, Except.pure_eq_ok]
      exact ⟨checked, reran, by rw [alike.spentBoxes, alike.createdBoxes]⟩

/-- A block that full validation accepts gives the same change up to the checkpoint exactly when it has
no inputs. -/
theorem checkpointChange_same_iff (below : block.height ≤ checkpoint)
    (accepted : { validator with checkpoint := none }.validateBlock sr interpreter block parent lookup
      lastHeaders = .ok (cost, change)) :
    (∃ checkedCost, { validator with checkpoint := some checkpoint }.validateBlock sr interpreter block parent
      lookup lastHeaders = .ok (checkedCost, change)) ↔
      ∀ tx ∈ block.transactions.txs, tx.inputs = [] := by
  obtain ⟨checkedCost, checked⟩ := validateBlock_checkpoint sr interpreter below accepted
  have spent : change.spent.map SpentBox.boxId = consumed block.moves :=
    (validateBlock_eq_ok sr interpreter accepted).spent
  have nothing : consumed block.moves = [] ↔ ∀ tx ∈ block.transactions.txs, tx.inputs = [] := by
    simp [consumed, FullBlock.moves, Transaction.move]
  rw [← nothing, ← spent, List.map_eq_nil_iff]
  constructor
  · rintro ⟨otherCost, same⟩
    rw [checked, Except.ok.injEq, Prod.mk.injEq] at same
    exact congrArg ValidatedStateChange.spent same.2.symm
  · intro empty
    refine ⟨checkedCost, ?_⟩
    rw [checked, ← empty]

end Block

/-! ### One spend above and below a checkpoint -/

def emptyTx : Transaction := { spendTx 1 2 with inputs := [], outputs := [] }

def validateUpTo (checkpoint : Option Nat) (tx : Transaction) : Except String (Nat × ValidatedStateChange) :=
  { FullBlockValidator.withParameters ⟨1000000⟩ with checkpoint }.validateBlock spendCodec sampleInterpreter
    (spendBlock header31 tx) tipHeader onlyBox1 []

def keepsBox1 (checkpoint : Option Nat) (tx : Transaction) : Option Bool :=
  (validateUpTo checkpoint tx).toOption.map fun (_, change) =>
    let after := ((UtxoState.applyChange spendCodec (toStateChange change 1690001) 1690001).exec
      tipNode.utxoView).2
    (after.db.get .utxo (.filled 1)).isSome

theorem emptyTx_sameChange :
    ∃ cost checkedCost change, validateUpTo none emptyTx = .ok (cost, change) ∧
      validateUpTo (some 1690001) emptyTx = .ok (checkedCost, change) := by
  have accepted : ∃ result, validateUpTo none emptyTx = .ok result := by decide
  obtain ⟨⟨cost, change⟩, accepted⟩ := accepted
  have below : (spendBlock header31 emptyTx).height ≤ 1690001 := by decide
  obtain ⟨checkedCost, checked⟩ := (checkpointChange_same_iff spendCodec sampleInterpreter below
    accepted).mpr (by decide)
  exact ⟨cost, checkedCost, change, accepted, checked⟩

/-- Full validation lets box 1 be spent; up to the checkpoint it stays unspent. -/
theorem checkpoint_keepsSpentBox :
    keepsBox1 none (spendTx 1 2) = some false ∧ keepsBox1 (some 1690001) (spendTx 1 2) = some true ∧
      ¬ ∃ cost checkedCost change, validateUpTo none (spendTx 1 2) = .ok (cost, change) ∧
        validateUpTo (some 1690001) (spendTx 1 2) = .ok (checkedCost, change) := by
  refine ⟨by decide, by decide, ?_⟩
  rintro ⟨cost, checkedCost, change, full, checked⟩
  have fullSpent : (validateUpTo none (spendTx 1 2)).toOption.map (·.2.spent.length) = some 1 := by decide
  have nothing : (validateUpTo (some 1690001) (spendTx 1 2)).toOption.map (·.2.spent.length) = some 0 := by
    decide
  rw [full] at fullSpent
  rw [checked] at nothing
  cases fullSpent.symm.trans nothing

end ErgoNode.Proof.Validation
