import ErgoNode.Consensus.Block
import ErgoNode.Lib.Store

/-!
# Block validation

A block is checked against its parent header and its transactions root; then its transactions are
validated one after the other over the boxes that `utxoLookup` finds and those the block has
created so far. Up to the checkpoint height the inputs are not looked up, and nothing is recorded
as spent.
-/

namespace ErgoNode
open Lib

abbrev ErgoBoxMap := Store fun _ : BoxId => ErgoBox

def ErgoBoxMap.empty : ErgoBoxMap := fun _ => none

def ErgoBoxMap.insertAll (boxes : ErgoBoxMap) (outputs : List ErgoBox) : ErgoBoxMap :=
  boxes.write (puts ErgoBox.boxId id outputs)

def ErgoBoxMap.removeAll (boxes : ErgoBoxMap) (ids : List BoxId) : ErgoBoxMap :=
  boxes.write (ids.map fun boxId => ⟨boxId, .delete⟩)

structure SpentBox where
  boxId : BoxId
  originalBox : ErgoBox
  deriving DecidableEq

structure CreatedBox where
  ergoBox : ErgoBox
  txId : TxId
  outputIndex : Nat
  deriving DecidableEq

structure ValidatedStateChange where
  height : Nat
  spent : List SpentBox
  created : List CreatedBox
  deriving DecidableEq

variable (sr : SigmaRust) (interpreter : Interpreter)

structure ChainParameters where
  maxBlockCost : Nat
  deriving DecidableEq

structure FullBlockValidator where
  parameters : ChainParameters
  skipScriptVerification : Bool
  checkpoint : Option Nat

namespace FullBlockValidator

def minBoxValue : Nat := 360

/-- The height of the mainnet checkpoint; its block id is not verified. -/
def mainnetCheckpoint : Nat := 1690000

def withParameters (parameters : ChainParameters) : FullBlockValidator :=
  ⟨parameters, false, some mainnetCheckpoint⟩

variable (validator : FullBlockValidator)

def isBelowCheckpoint (height : Nat) : Bool :=
  match validator.checkpoint with
  | some checkpoint => height ≤ checkpoint
  | none => false

def validateHeader (header parent : Header) : ConsensusResult Unit :=
  if header.height ≠ parent.height + 1 then
    .error (.invalidHeader s!"Invalid height: {header.height} (expected {parent.height + 1})")
  else if header.timestamp ≤ parent.timestamp then
    .error (.invalidTimestamp header.timestamp parent.timestamp)
  else if header.parentId ≠ parent.id then
    .error (.invalidHeader ("Parent ID mismatch: header has " ++ hexEncode header.parentId.bytes ++
      ", expected " ++ hexEncode parent.id.bytes))
  else if header.version < 1 ∨ header.version > 4 then
    .error (.invalidHeader s!"Invalid version: {header.version}")
  else .ok ()

/-! ### One transaction -/

def findBox (utxoLookup : BoxId → Option ErgoBox) (createdInBlock : ErgoBoxMap) (boxId : BoxId) :
    Option ErgoBox :=
  match createdInBlock boxId with
  | some ergoBox => some ergoBox
  | none => utxoLookup boxId

def collectBoxes (find : BoxId → Option ErgoBox) (missing : Nat → BoxId → ConsensusError)
    (boxIds : List BoxId) : ConsensusResult (List ErgoBox) :=
  boxIds.zipIdx.mapM fun (boxId, idx) =>
    match find boxId with
    | some ergoBox => .ok ergoBox
    | none => .error (missing idx boxId)

def collectInputBoxes (tx : Transaction) (utxoLookup : BoxId → Option ErgoBox)
    (createdInBlock : ErgoBoxMap) : ConsensusResult (List ErgoBox) :=
  collectBoxes (findBox utxoLookup createdInBlock)
    (fun idx boxId => .missingInput (hexEncode tx.id.bytes) idx (hexEncode boxId.bytes))
    (tx.inputs.map Input.boxId)

def collectDataInputBoxes (tx : Transaction) (utxoLookup : BoxId → Option ErgoBox)
    (createdInBlock : ErgoBoxMap) : ConsensusResult (List ErgoBox) :=
  collectBoxes (findBox utxoLookup createdInBlock)
    (fun idx boxId => .missingDataInput (hexEncode tx.id.bytes) idx (hexEncode boxId.bytes))
    (tx.dataInputs.getD [])

def validateNoDataInputIntersection (tx : Transaction) : ConsensusResult Unit :=
  (tx.dataInputs.getD []).forM fun boxId =>
    if boxId ∈ tx.inputs.map Input.boxId then .error (.dataInputIntersection (hexEncode boxId.bytes))
    else .ok ()

def checkDoubleSpend (seen : List BoxId) : List BoxId → ConsensusResult Unit
  | [] => .ok ()
  | boxId :: rest =>
      if boxId ∈ seen then .error (.doubleSpend (hexEncode boxId.bytes))
      else checkDoubleSpend (boxId :: seen) rest

def checkSpentInBlock (spentInBlock : List BoxId) (tx : Transaction) : ConsensusResult Unit :=
  (tx.inputs.map Input.boxId).forM fun boxId =>
    if boxId ∈ spentInBlock then .error (.doubleSpend (hexEncode boxId.bytes)) else .ok ()

def checkOutputValues (tx : Transaction) : ConsensusResult Unit :=
  tx.outputs.zipIdx.forM fun (output, outIdx) =>
    if output.value < minBoxValue then
      .error (.invalidTransaction
        s!"Output {outIdx} has value {output.value} below minimum {minBoxValue}")
    else .ok ()

def verifyScripts (verifier : TxVerifier) (tx : Transaction) (inputBoxes dataInputBoxes : List ErgoBox)
    (totalCost : Nat) : ConsensusResult Nat :=
  let result := verifier.verifyTx sr interpreter tx inputBoxes dataInputBoxes
  let maxBlockCost := validator.parameters.maxBlockCost
  let totalCost := saturatingAdd totalCost result.totalCost
  if !result.valid then
    .error (.scriptVerificationFailed (hexEncode tx.id.bytes) (result.error.getD "Unknown error"))
  else if result.totalCost > maxBlockCost then
    .error (.transactionCostExceeded (hexEncode tx.id.bytes) result.totalCost maxBlockCost)
  else if totalCost > maxBlockCost then .error (.blockCostExceeded totalCost maxBlockCost)
  else .ok totalCost

structure TxLoop where
  totalCost : Nat
  spentBoxes : List SpentBox
  createdBoxes : List CreatedBox
  spentInBlock : List BoxId
  createdInBlock : ErgoBoxMap

def TxLoop.start : TxLoop := ⟨0, [], [], [], .empty⟩

/-- The checks that checkpoint mode leaves out; they give the input boxes and the new cost. -/
def fullyValidate (verifier : TxVerifier) (utxoLookup : BoxId → Option ErgoBox) (acc : TxLoop)
    (isCoinbase : Bool) (tx : Transaction) : ConsensusResult (List ErgoBox × Nat) := do
  let inputBoxes ← collectInputBoxes tx utxoLookup acc.createdInBlock
  let dataInputBoxes ← collectDataInputBoxes tx utxoLookup acc.createdInBlock
  validateNoDataInputIntersection tx
  let _ ← validateErgConservation tx inputBoxes
  validateTokenConservation tx inputBoxes isCoinbase
  checkOutputValues tx
  let totalCost ← (if validator.skipScriptVerification ∨ isCoinbase then pure acc.totalCost
    else verifyScripts sr interpreter validator verifier tx inputBoxes dataInputBoxes acc.totalCost)
  return (inputBoxes, totalCost)

def createdBoxesOf (tx : Transaction) : List CreatedBox :=
  tx.outputs.zipIdx.map fun (output, outIdx) => ⟨output, tx.id, outIdx % 2 ^ 16⟩

def validateTransaction (verifier : TxVerifier) (checkpointMode : Bool)
    (utxoLookup : BoxId → Option ErgoBox) (acc : TxLoop) (entry : Transaction × Nat) :
    ConsensusResult TxLoop := do
  let (tx, txIdx) := entry
  checkDoubleSpend [] (tx.inputs.map Input.boxId)
  checkSpentInBlock acc.spentInBlock tx
  let (inputBoxes, totalCost) ← (if checkpointMode then pure ([], acc.totalCost)
    else fullyValidate sr interpreter validator verifier utxoLookup acc (txIdx = 0) tx)
  return {
    totalCost
    spentBoxes := acc.spentBoxes ++
      (tx.inputs.zip inputBoxes).map fun (input, inputBox) => ⟨input.boxId, inputBox⟩
    createdBoxes := acc.createdBoxes ++ createdBoxesOf tx
    spentInBlock := acc.spentInBlock ++ tx.inputs.map Input.boxId
    createdInBlock := acc.createdInBlock.insertAll tx.outputs }

/-! ### One block -/

def validateTransactions (blockTxs : BlockTransactions) (height : Nat) (preHeader : Header)
    (lastHeaders : List Header) (utxoLookup : BoxId → Option ErgoBox) :
    ConsensusResult (Nat × ValidatedStateChange) := do
  let acc ← blockTxs.txs.zipIdx.foldlM
    (validator.validateTransaction sr interpreter ⟨height, preHeader, lastHeaders⟩
      (validator.isBelowCheckpoint height) utxoLookup) TxLoop.start
  return (acc.totalCost, ⟨height, acc.spentBoxes, acc.createdBoxes⟩)

def validateBlock (block : FullBlock) (parentHeader : Header) (utxoLookup : BoxId → Option ErgoBox)
    (lastHeaders : List Header) : Except String (Nat × ValidatedStateChange) := do
  (validateHeader block.header parentHeader).mapError
    fun e => s!"Header validation failed: {e.message}"
  (block.transactions.validateAgainstHeader sr interpreter block.header).mapError
    fun e => s!"Transactions validation failed: {e.message}"
  if block.transactions.txs = [] then throw "Block must have at least one transaction"
  else (validator.validateTransactions sr interpreter block.transactions block.height block.header
    lastHeaders utxoLookup).mapError ConsensusError.message

end FullBlockValidator

end ErgoNode
