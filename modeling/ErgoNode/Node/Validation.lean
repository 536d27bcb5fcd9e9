import ErgoNode.Consensus.BlockValidation
import ErgoNode.State.Manager

/-!
# The node's validation loop

The blocks of a run are validated one after the other against the database as it was before the
run, under an overlay of the boxes that the run has created and not spent; then all their changes
go into one write.
-/

namespace ErgoNode
open Lib

namespace Node
variable (sr : SigmaRust) (interpreter : Interpreter)

def parentHeader (db : Database) (header : Header) : Option Header :=
  if header.height > 1 then (HeaderStore.get sr db header.parentId).toOption.join
  else some genesisParentHeader

/-- The headers at the ten heights below, newest first, then padding. -/
def lastHeaders (db : Database) (height : Nat) : List Header :=
  let endHeight := if height > 10 then height - 10 else 1
  let headers := (List.range' endHeight (height - endHeight)).reverse.filterMap fun h =>
    (HeaderStore.getByHeight sr db h).toOption.join
  headers ++ List.replicate (10 - headers.length) genesisParentHeader

/-! ### Box lookups -/

/-- The inputs and data inputs of a block that the overlay does not have, each once. The source also
sorts them. -/
def prefetchIds (batchCreatedBoxes : ErgoBoxMap) (block : FullBlock) : List BoxId :=
  let inputIds := block.transactions.txs.flatMap fun tx => tx.inputs.map Input.boxId
  let dataInputIds := block.transactions.txs.flatMap fun tx => tx.dataInputs.getD []
  ((inputIds ++ dataInputIds).filter fun boxId => (batchCreatedBoxes boxId).isNone).dedup

def prefetchedBoxes (db : Database) (boxIds : List BoxId) : ErgoBoxMap :=
  let fetched := (UtxoState.getBoxesBatch sr db boxIds).toOption.getD []
  let found := (boxIds.zip fetched).filterMap fun (boxId, entry) =>
    entry.map fun entry => (boxId, entry.ergoBox)
  ErgoBoxMap.empty.write (puts Prod.fst Prod.snd found)

def utxoLookup (db : Database) (batchCreatedBoxes prefetched : ErgoBoxMap) (boxId : BoxId) :
    Option ErgoBox :=
  match batchCreatedBoxes boxId with
  | some ergoBox => some ergoBox
  | none =>
      match prefetched boxId with
      | some ergoBox => some ergoBox
      | none => (UtxoState.getBox sr db boxId).toOption.join.map BoxEntry.ergoBox

/-! ### One block of a run -/

def toStateChange (change : ValidatedStateChange) (height : Nat) : StateChange where
  created := change.created.map fun box => ⟨box.ergoBox, height, box.txId, box.outputIndex⟩
  spent := change.spent.map SpentBox.boxId

def afterBlock (batchCreatedBoxes : ErgoBoxMap) (change : ValidatedStateChange) : ErgoBoxMap :=
  (batchCreatedBoxes.insertAll (change.created.map CreatedBox.ergoBox)).removeAll
    (change.spent.map SpentBox.boxId)

/-- Validate the next block of a run: its change and the overlay after it. An error without a text is
one that the node only logs. -/
def validateNext (parameters : ChainParameters) (db : Database) (batchCreatedBoxes : ErgoBoxMap)
    (block : FullBlock) : Except (Option String) (StateChange × ErgoBoxMap) :=
  match parentHeader sr db block.header with
  | none => .error none
  | some parent => do
      let prefetched := prefetchedBoxes sr db (prefetchIds batchCreatedBoxes block)
      let (_, change) ← ((FullBlockValidator.withParameters parameters).validateBlock sr interpreter
        block parent (utxoLookup sr db batchCreatedBoxes prefetched)
        (lastHeaders sr db block.height)).mapError some
      return (toStateChange change block.height, afterBlock batchCreatedBoxes change)

/-! ### A run in one write -/

def validateBlocks (parameters : ChainParameters) (db : Database) :
    ErgoBoxMap → List FullBlock → Except (Option String) (List (FullBlock × StateChange))
  | _, [] => .ok []
  | batchCreatedBoxes, block :: rest => do
      let (change, batchCreatedBoxes) ← validateNext sr interpreter parameters db batchCreatedBoxes block
      let changes ← validateBlocks parameters db batchCreatedBoxes rest
      return (block, change) :: changes

def processBlocks (parameters : ChainParameters) (st : StateManager) (blocks : List FullBlock) :
    Option StateManager := do
  let changes ← (validateBlocks sr interpreter parameters st.db .empty blocks).toOption
  match (StateManager.applyBlocksBatched sr changes).exec st with
  | (.ok _, after) => some after
  | (.error _, _) => none

end Node
end ErgoNode
