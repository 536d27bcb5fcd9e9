import ErgoNode.Consensus.BlockValidation
import ErgoNode.Lib.Except
import ErgoNode.Lib.Ledger

/-!
# What a valid block consumes

A block as a list of ledger moves, and what its validation has established when it succeeds: no box
is consumed twice, above the checkpoint every consumed box was found or created earlier in the
block, and the change names exactly these boxes.
-/

namespace ErgoNode
open Lib Ledger

def Transaction.move (tx : Transaction) : Move BoxId :=
  ⟨tx.inputs.map Input.boxId, tx.outputs.map ErgoBox.boxId⟩

def FullBlock.moves (block : FullBlock) : List (Move BoxId) :=
  block.transactions.txs.map Transaction.move

namespace ErgoBoxMap

variable {boxes : ErgoBoxMap} {boxId : BoxId}

theorem isSome_insertAll (outputs : List ErgoBox) :
    (boxes.insertAll outputs boxId).isSome ↔
      (boxes boxId).isSome ∨ boxId ∈ outputs.map ErgoBox.boxId := by
  by_cases output : boxId ∈ outputs.map ErgoBox.boxId
  · obtain ⟨ergoBox, -, -, found⟩ := Store.exists_of_write_puts boxes id output
    simp [insertAll, found, output]
  · rw [insertAll, Store.write_puts_of_not_mem boxes id output]
    simp [output]

theorem removeAll_apply (ids : List BoxId) :
    boxes.removeAll ids boxId = if boxId ∈ ids then none else boxes boxId :=
  Store.write_deletes boxes ids boxId

end ErgoBoxMap

namespace Proof.Validation
open FullBlockValidator

def found (lookup : BoxId → Option ErgoBox) : Set BoxId := {boxId | (lookup boxId).isSome}

theorem checkDoubleSpend_eq_ok {seen ids : List BoxId} :
    checkDoubleSpend seen ids = .ok () ↔ ids.Nodup ∧ ∀ boxId ∈ ids, boxId ∉ seen := by
  induction ids generalizing seen with
  | nil => simp [checkDoubleSpend]
  | cons boxId rest ih =>
      unfold checkDoubleSpend
      split
      · next member => simp [member]
      · next fresh =>
          rw [ih, List.nodup_cons, List.forall_mem_cons]
          constructor
          · rintro ⟨distinct, unseen⟩
            refine ⟨⟨fun again => unseen boxId again List.mem_cons_self, distinct⟩, fresh, ?_⟩
            exact fun other member old => unseen other member (List.mem_cons_of_mem _ old)
          · rintro ⟨⟨new, distinct⟩, -, unseen⟩
            refine ⟨distinct, fun other member old => ?_⟩
            rcases List.mem_cons.mp old with rfl | old
            · exact new member
            · exact unseen other member old

theorem checkSpentInBlock_eq_ok {spentInBlock : List BoxId} {tx : Transaction} :
    checkSpentInBlock spentInBlock tx = .ok () ↔ ∀ boxId ∈ tx.move.inputs, boxId ∉ spentInBlock := by
  rw [checkSpentInBlock, forM_eq_ok]
  refine forall₂_congr fun boxId _ => ?_
  split
  · next member => simp [member]
  · next fresh => simp [fresh]

theorem collectBoxes_eq_ok {find : BoxId → Option ErgoBox} {missing : Nat → BoxId → ConsensusError}
    {ids : List BoxId} {boxes : List ErgoBox} : collectBoxes find missing ids = .ok boxes ↔
      List.Forall₂ (fun boxId ergoBox => find boxId = some ergoBox) ids boxes := by
  rw [collectBoxes, mapM_eq_ok]
  conv_rhs => rw [← List.zipIdx_map_fst 0 ids, List.forall₂_map_left_iff]
  apply iff_of_eq
  congr 1
  funext ⟨boxId, idx⟩ ergoBox
  dsimp only
  cases find boxId <;> simp

theorem isSome_findBox {lookup : BoxId → Option ErgoBox} {createdInBlock : ErgoBoxMap} {boxId : BoxId} :
    (findBox lookup createdInBlock boxId).isSome ↔
      (lookup boxId).isSome ∨ (createdInBlock boxId).isSome := by
  unfold findBox
  cases createdInBlock boxId <;> simp

variable (sr : SigmaRust) (interpreter : Interpreter) {validator : FullBlockValidator}
variable {verifier : TxVerifier} {checkpointMode : Bool} {lookup : BoxId → Option ErgoBox}

structure Validated (checkpointMode : Bool) (lookup : BoxId → Option ErgoBox) (done : List Transaction)
    (acc : TxLoop) : Prop where
  spentInBlock : acc.spentInBlock = consumed (done.map Transaction.move)
  once : (consumed (done.map Transaction.move)).Nodup
  createdInBlock : ∀ boxId, (acc.createdInBlock boxId).isSome ↔
    boxId ∈ created (done.map Transaction.move)
  createdBoxes : acc.createdBoxes = done.flatMap createdBoxesOf
  spentBoxes : acc.spentBoxes.map SpentBox.boxId =
    if checkpointMode then [] else consumed (done.map Transaction.move)
  available : checkpointMode = false → Available (found lookup) (done.map Transaction.move)

theorem Validated.start : Validated checkpointMode lookup [] TxLoop.start where
  spentInBlock := rfl
  once := List.nodup_nil
  createdInBlock _ := by simp [TxLoop.start, ErgoBoxMap.empty]
  createdBoxes := rfl
  spentBoxes := by simp [TxLoop.start]
  available _ := trivial

theorem fullyValidate_eq_ok {acc : TxLoop} {isCoinbase : Bool} {tx : Transaction}
    {inputBoxes : List ErgoBox} {totalCost : Nat}
    (done : fullyValidate sr interpreter validator verifier lookup acc isCoinbase tx =
      .ok (inputBoxes, totalCost)) :
    List.Forall₂ (fun boxId ergoBox => findBox lookup acc.createdInBlock boxId = some ergoBox)
      tx.move.inputs inputBoxes := by
  simp only [fullyValidate, Except.bind_ok_eq_ok, Except.pure_eq_ok, Prod.mk.injEq] at done
  obtain ⟨boxes, collected, _, -, _, -, _, -, _, -, _, -, _, -, rfl, -⟩ := done
  exact collectBoxes_eq_ok.mp collected

theorem map_boxId_zip {inputs : List Input} {inputBoxes : List ErgoBox}
    (same : inputs.length = inputBoxes.length) :
    ((inputs.zip inputBoxes).map fun entry => SpentBox.mk entry.1.boxId entry.2).map SpentBox.boxId =
      inputs.map Input.boxId := by
  rw [List.map_map]
  have first : inputs = (inputs.zip inputBoxes).map Prod.fst := (List.map_fst_zip same.le).symm
  conv_rhs => rw [first, List.map_map]
  rfl

theorem Validated.step {done : List Transaction} {acc next : TxLoop} {tx : Transaction} {idx : Nat}
    (inv : Validated checkpointMode lookup done acc)
    (ran : validateTransaction sr interpreter validator verifier checkpointMode lookup acc (tx, idx) =
      .ok next) : Validated checkpointMode lookup (done ++ [tx]) next := by
  simp only [validateTransaction, Except.bind_ok_eq_ok, Except.pure_eq_ok] at ran
  obtain ⟨_, distinct, _, fresh, ⟨inputBoxes, totalCost⟩, boxes, rfl⟩ := ran
  rw [checkDoubleSpend_eq_ok] at distinct
  rw [checkSpentInBlock_eq_ok, inv.spentInBlock] at fresh
  have moves : (done ++ [tx]).map Transaction.move = done.map Transaction.move ++ [tx.move] := by simp
  refine ⟨?_, ?_, ?_, ?_, ?_, ?_⟩
  · rw [moves, consumed_append, consumed_cons, consumed_nil, List.append_nil, ← inv.spentInBlock]
    rfl
  · rw [moves, consumed_append, consumed_cons, consumed_nil, List.append_nil, List.nodup_append']
    exact ⟨inv.once, distinct.1, fun boxId old new => fresh boxId new old⟩
  · intro boxId
    rw [moves, created_append, created_cons, created_nil, List.append_nil, List.mem_append,
      ErgoBoxMap.isSome_insertAll, inv.createdInBlock]
    rfl
  · simp [inv.createdBoxes]
  · cases checkpointMode with
    | true =>
        simp only [if_true, Except.pure_eq_ok, Prod.mk.injEq] at boxes
        simp [inv.spentBoxes, ← boxes.1]
    | false =>
        have pairs := fullyValidate_eq_ok sr interpreter boxes
        have same : tx.inputs.length = inputBoxes.length := by
          simpa [Transaction.move] using pairs.length_eq
        rw [List.map_append, inv.spentBoxes, map_boxId_zip same, moves, consumed_append]
        simp [Transaction.move]
  · rintro rfl
    rw [moves, available_append]
    refine ⟨inv.available rfl, fun boxId input => ?_, trivial⟩
    obtain ⟨i, bound, rfl⟩ := List.getElem_of_mem input
    have pairs := fullyValidate_eq_ok sr interpreter boxes
    have box := pairs.get bound (pairs.length_eq ▸ bound)
    have isFound : (findBox lookup acc.createdInBlock (tx.move.inputs.get ⟨i, bound⟩)).isSome := by
      rw [box]
      rfl
    rw [isSome_findBox, inv.createdInBlock] at isFound
    exact isFound

structure ValidBlock (validator : FullBlockValidator) (lookup : BoxId → Option ErgoBox)
    (block : FullBlock) (change : ValidatedStateChange) : Prop where
  once : (consumed block.moves).Nodup
  available : validator.isBelowCheckpoint block.height = false → Available (found lookup) block.moves
  spent : change.spent.map SpentBox.boxId =
    if validator.isBelowCheckpoint block.height then [] else consumed block.moves
  created : change.created.map (fun box => box.ergoBox.boxId) = created block.moves

theorem map_boxId_createdBoxesOf (txs : List Transaction) :
    (txs.flatMap createdBoxesOf).map (fun box => box.ergoBox.boxId) =
      created (txs.map Transaction.move) := by
  induction txs with
  | nil => rfl
  | cons tx txs ih =>
      have outputs : (createdBoxesOf tx).map (fun box => box.ergoBox.boxId) = tx.move.outputs := by
        conv_rhs => rw [Transaction.move, ← List.zipIdx_map_fst 0 tx.outputs]
        rw [createdBoxesOf, List.map_map, List.map_map]
        rfl
      rw [List.flatMap_cons, List.map_append, ih, List.map_cons, created_cons, outputs]

theorem validateBlock_eq_ok {block : FullBlock} {parent : Header} {lastHeaders : List Header}
    {cost : Nat} {change : ValidatedStateChange}
    (valid : validator.validateBlock sr interpreter block parent lookup lastHeaders = .ok (cost, change)) :
    ValidBlock validator lookup block change := by
  simp only [validateBlock, Except.bind_ok_eq_ok, Except.mapError_ok_iff] at valid
  obtain ⟨_, -, _, -, valid⟩ := valid
  split at valid
  · exact absurd valid (Except.throw_ne_ok)
  · rw [Except.mapError_ok_iff] at valid
    simp only [validateTransactions, Except.bind_ok_eq_ok, Except.pure_eq_ok, Prod.mk.injEq] at valid
    obtain ⟨acc, ran, -, rfl⟩ := valid
    have inv := foldlM_zipIdx_invariant (Validated _ lookup)
      (fun inv ran => Validated.step sr interpreter inv ran) Validated.start ran
    rw [List.nil_append] at inv
    exact {
      once := inv.once
      available := inv.available
      spent := inv.spentBoxes
      created := by rw [inv.createdBoxes, map_boxId_createdBoxesOf]; rfl }

end Proof.Validation
end ErgoNode
