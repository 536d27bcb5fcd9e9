import ErgoNode.Lib.Overflow
import ErgoNode.State.Manager

/-!
# Pruning and restart

The part of the history that pruning moves, and what each component reads back when a node starts on
stored data.
-/

namespace ErgoNode
open Lib

def genesisHeight : Nat := 1

def votingEpochLength : Nat := 1024

structure HistoryPruning where
  blocksToKeep : Int
  minimalFullBlockHeight : Nat
  isHeadersChainSynced : Bool
  deriving DecidableEq

variable (sr : SigmaRust)

namespace HistoryPruning

def withPruning (blocksToKeep : Int) : HistoryPruning := ⟨blocksToKeep, genesisHeight, false⟩

def isEnabled (pruning : HistoryPruning) : Bool := pruning.blocksToKeep ≥ 0

/-- The flag is set in memory before it is written. -/
def setHeadersChainSynced (synced : Bool) : Op (OnDatabase HistoryPruning) StateError Unit := do
  modify fun st => { st with mem.isHeadersChainSynced := synced }
  OnDatabase.writeBatch (WriteBatch.put [] .metadata .isHeadersChainSynced synced)

def extensionWithParametersHeight (height : Nat) : Nat :=
  if height < votingEpochLength then genesisHeight else height - height % votingEpochLength

/-- `blocksToKeep - 1` is taken over 32 bits: keeping no block at all wraps around. -/
def newMinimalHeight (pruning : HistoryPruning) (header : Header) : Nat :=
  if pruning.isEnabled then
    let back := (pruning.blocksToKeep.toNat + (2 ^ 32 - 1)) % 2 ^ 32
    let h := max pruning.minimalFullBlockHeight (header.height - back)
    if h > votingEpochLength then min h (extensionWithParametersHeight h) else h
  else genesisHeight

/-- `extensionWithParametersHeight` over 32 bits, with whether its subtraction underflows. -/
def checkedExtensionHeight (height : Nat) : Overflowing Nat :=
  if height < votingEpochLength then pure genesisHeight else .sub (2 ^ 32) height (height % votingEpochLength)

/-- `newMinimalHeight` over 32 bits, with whether one of its subtractions underflows. -/
def checkedMinimalHeight (pruning : HistoryPruning) (header : Header) : Overflowing Nat := do
  if pruning.isEnabled then
    let back ← .sub (2 ^ 32) pruning.blocksToKeep.toNat 1
    let h := max pruning.minimalFullBlockHeight (header.height - back)
    if h > votingEpochLength then return min h (← checkedExtensionHeight h) else return h
  else return genesisHeight

def pruneHeight (db : Database) (batch : WriteBatch) (height : Nat) : StateResult WriteBatch := do
  match ← HeaderStore.getByHeight sr db height with
  | some header =>
      if db.contains .blockTransactions header.id then
        return ((batch.delete .blockTransactions header.id).delete .extensions header.id).delete .adProofs header.id
      else return batch
  | none => return batch

def pruneBlocksBelow (height : Nat) : Op (OnDatabase HistoryPruning) StateError Unit := do
  let st ← get
  let batch ← MonadExcept.ofExcept
    ((List.range' genesisHeight (height - genesisHeight)).foldlM (pruneHeight sr st.db) [])
  if batch.isEmpty then return () else OnDatabase.writeBatch batch

def markHeadersSynced : Op (OnDatabase HistoryPruning) StateError Unit := do
  let st ← get
  if st.mem.isHeadersChainSynced then return () else setHeadersChainSynced true

/-- The new minimal height is set in memory before it is written. -/
def updateBestFullBlockPruning (header : Header) : Op (OnDatabase HistoryPruning) StateError Nat := do
  let st ← get
  let newMinimal := newMinimalHeight st.mem header
  modify fun st => { st with mem.minimalFullBlockHeight := newMinimal }
  OnDatabase.writeBatch (WriteBatch.put [] .metadata .minimalFullBlockHeight newMinimal)
  markHeadersSynced
  if newMinimal > st.mem.minimalFullBlockHeight ∧ st.mem.isEnabled then do
    pruneBlocksBelow sr newMinimal
    return newMinimal
  else return newMinimal

def initFromStorage (blocksToKeep : Int) (db : Database) : HistoryPruning where
  blocksToKeep
  minimalFullBlockHeight := (db.get .metadata .minimalFullBlockHeight).getD genesisHeight
  isHeadersChainSynced := (db.get .metadata .isHeadersChainSynced).getD false

end HistoryPruning

namespace History

def finalizeBlockBatch (batch : WriteBatch) (finalBlockId : BlockId) (finalHeight finalCumulativeDifficulty : Nat) :
    Op (OnDatabase History) StateError ChainSelection := do
  let st ← get
  let currentHeight := st.mem.bestHeight
  let selection :=
    if finalCumulativeDifficulty > st.mem.bestCumulativeDifficulty then
      if finalHeight ≤ currentHeight ∧ currentHeight > 0 then .reorg 1 (currentHeight - 1)
      else .extended
    else .ignored
  OnDatabase.writeBatch (putBestBlock st.mem batch finalBlockId finalHeight finalCumulativeDifficulty)
  modify fun st =>
    { st with mem := st.mem.withBestBlock finalBlockId finalHeight finalCumulativeDifficulty }
  return selection

def initFromStorage (db : Database) : History where
  bestHeaderId := db.get .metadata .bestHeaderId
  bestHeight := (db.get .metadata .bestHeight).getD 0
  bestCumulativeDifficulty := (db.get .metadata .bestCumulativeDifficulty).getD 0
  bestFullBlockId := db.get .metadata .bestFullBlockId
  bestFullBlockHeight := (db.get .metadata .bestFullBlockHeight).getD 0

end History

/-- Sync mode is not stored. -/
def UtxoState.initFromStorage (db : Database) : UtxoState where
  stateRoot := (db.get .metadata .stateRoot).getD UtxoState.new.stateRoot
  height := (db.get .metadata .utxoHeight).getD 0
  syncMode := false

end ErgoNode
