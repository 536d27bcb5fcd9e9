import ErgoNode.Lib.Threads
import ErgoNode.State.Manager

/-!
# Reads one by one

The application of a block on a database whose reads may fail: the functions of the history, the UTXO state and the
manager once more, with a script of the reads beside the state. A read that fails ends the call; one that works
finds what the database holds. And the header calls of the history as the accesses that they make one after the
other, for runs in which other calls come between them.
-/

namespace ErgoNode.Reading
open Lib UtxoState StateManager

variable (sr : SigmaRust)

def read : Op (List Bool) StateError Unit := Op.access (.storage .database)

def indexLists (ergoBox : ErgoBox) : Nat := 1 + (ergoBox.tokens.getD []).length

def readIndexes (skipIndexes : Bool) (ergoBox : ErgoBox) : Op (List Bool) StateError Unit :=
  if skipIndexes then pure () else Op.accesses (.storage .database) (indexLists ergoBox)

/-! ### The UTXO state -/

section Change
variable (db : Database) (skipIndexes : Bool)

def spend (acc : WriteBatch × UndoData) (boxId : BoxId) : Op (List Bool) StateError (WriteBatch × UndoData) := do
  read
  let entry ← MonadExcept.ofExcept (requireBox (getBox sr db) boxId)
  readIndexes skipIndexes entry.ergoBox
  return spendEntry sr db skipIndexes acc boxId entry

def create (acc : WriteBatch × UndoData) (entry : BoxEntry) : Op (List Bool) StateError (WriteBatch × UndoData) := do
  let serialized ← MonadExcept.ofExcept (entry.serialize sr)
  readIndexes skipIndexes entry.ergoBox
  return createEntry sr db skipIndexes acc entry serialized

def changeToBatch (change : StateChange) (newHeight : Nat) : Op (List Bool) StateError WriteBatch := do
  let spent ← change.spent.foldlM (spend sr db skipIndexes) ([], UndoData.new newHeight)
  let (batch, undo) ← change.created.foldlM (create sr db skipIndexes) spent
  let undoBytes ← MonadExcept.ofExcept (undo.serialize sr)
  return (batch.put .undoData newHeight undoBytes).put .metadata .utxoHeight newHeight

end Change

def applyChange (change : StateChange) (newHeight : Nat) : Op (OnDatabase UtxoState × List Bool) StateError Unit := do
  let s ← get
  let batch ← Op.scripted (changeToBatch sr s.1.db s.1.mem.syncMode change newHeight)
  Op.unscripted (OnDatabase.writeBatch batch)
  Op.unscripted (modify fun st => { st with mem.height := newHeight })

def unmake (db : Database) (batch : WriteBatch) (boxId : BoxId) : Op (List Bool) StateError WriteBatch := do
  read
  let entry ← MonadExcept.ofExcept (getBox sr db boxId)
  match entry with
  | some entry => readIndexes false entry.ergoBox
  | none => pure ()
  return removeCreated sr db batch boxId entry

def putBack (db : Database) (batch : WriteBatch) (entry : BoxEntry) : Op (List Bool) StateError WriteBatch := do
  let serialized ← MonadExcept.ofExcept (entry.serialize sr)
  readIndexes false entry.ergoBox
  return restoreSpent sr db batch entry serialized

def undoToBatch (db : Database) (undo : UndoData) (height : Nat) : Op (List Bool) StateError WriteBatch := do
  let batch ← undo.createdBoxIds.foldlM (unmake sr db) []
  let batch ← undo.spentBoxes.foldlM (putBack sr db) batch
  return batch.delete .undoData height

def rollbackOneBlock (height : Nat) : Op (OnDatabase UtxoState × List Bool) StateError Unit := do
  let s ← get
  Op.scripted read
  let undoBytes ← MonadExcept.ofExcept (match s.1.db.get .undoData height with
    | some undoBytes => .ok undoBytes
    | none => .error (.rollbackFailed s!"No undo data for height {height}"))
  let undo ← MonadExcept.ofExcept (UndoData.deserialize sr undoBytes)
  let batch ← Op.scripted (undoToBatch sr s.1.db undo height)
  Op.unscripted (OnDatabase.writeBatch batch)

def rollback (toHeight : Nat) : Op (OnDatabase UtxoState × List Bool) StateError Unit := do
  let s ← get
  let current := s.1.mem.height
  if toHeight ≥ current then
    throw (.rollbackFailed s!"Cannot rollback from {current} to {toHeight}: target must be lower")
  else
    Op.forEach (rollbackOneBlock sr) (heightsAbove toHeight current)
    Op.unscripted (OnDatabase.writeBatch (WriteBatch.put [] .metadata .utxoHeight toHeight))
    Op.unscripted (modify fun st => { st with mem.height := toHeight })

/-! ### The history -/

def parentReads (block : FullBlock) : Nat := if block.height ≤ 2 then 0 else 1

/-- The header is serialized before its parent's total is read. -/
def appendFullBlock (block : FullBlock) : Op (OnDatabase History × List Bool) StateError ChainSelection := do
  let _ ← MonadExcept.ofExcept (HeaderStore.putBatched sr [] block.header)
  Op.scripted (Op.accesses (.storage .database) (parentReads block))
  Op.unscripted (History.appendFullBlock sr block)

/-! ### The state manager -/

def onUtxo {α : Type} (x : Op (OnDatabase UtxoState × List Bool) StateError α) :
    Op (StateManager × List Bool) StateError α :=
  Op.zoomScripted utxoView (fun view st => { st with db := view.db, utxo := view.mem }) x

def onHistory {α : Type} (x : Op (OnDatabase History × List Bool) StateError α) :
    Op (StateManager × List Bool) StateError α :=
  Op.zoomScripted historyView (fun view st => { st with db := view.db, history := view.mem }) x

def verifyStateRoot (header : Header) (utxoHeight : Nat) : Op (StateManager × List Bool) StateError Unit := do
  let s ← get
  if rootRejected s.1 header then do
    Op.attempt (onUtxo (rollback sr utxoHeight))
    throw (.stateRootMismatch header.height (hexEncode (expectedHash header))
      (hexEncode s.1.utxo.stateRoot))
  else return ()

def applyBlock (block : FullBlock) (stateChange : StateChange) :
    Op (StateManager × List Bool) StateError ChainSelection := do
  let s ← get
  let height := block.height
  let utxoHeight := s.1.utxo.height
  if height ≠ utxoHeight + 1 then
    throw (.invalidTransition s!"Expected height {utxoHeight + 1}, got {height}")
  else do
    let selection ← onHistory (appendFullBlock sr block)
    onUtxo (applyChange sr stateChange height)
    verifyStateRoot sr block.header utxoHeight
    return selection

/-! ### Headers, one access after the other

The calls that append headers up to the writes of the fields: between two of their accesses other calls may come. -/

section Headers

/-- The header that a call makes the best one. -/
structure BestHeader where
  id : BlockId
  height : Nat
  cumulativeDifficulty : Nat

abbrev HeaderAccesses := Accesses (OnDatabase History) StateError

def contains (id : BlockId) : HeaderAccesses Bool := .once do return HeaderStore.contains (← get).db id

/-- Nothing is read up to height 2. -/
def hasParent (header : Header) : HeaderAccesses Bool :=
  if header.height > 2 then contains header.parentId else return true

def parentCumulative (header : Header) : HeaderAccesses Nat :=
  if header.height ≤ 2 then return 0 else .once do return History.parentCumulative (← get).db header

def writeBatch (batch : WriteBatch) : HeaderAccesses Unit := .once (OnDatabase.writeBatch batch)

def selectChain (batch : WriteBatch) (headerId : BlockId) (height cumulativeDifficulty : Nat) :
    HeaderAccesses (Option BestHeader) := do
  let best ← Accesses.once do return (← get).mem.bestCumulativeDifficulty
  if cumulativeDifficulty > best then do
    writeBatch (History.putBestHeader batch headerId height cumulativeDifficulty)
    return some ⟨headerId, height, cumulativeDifficulty⟩
  else do
    writeBatch batch
    return none

def appendHeaderInternal (header : Header) (rawBytes : Option Bytes) : HeaderAccesses (Option BestHeader) := do
  if ← contains header.id then return none
  else do
    let parentStored ← hasParent header
    if !parentStored then .failed (.headerNotFound (hexEncode header.parentId.bytes))
    else do
      let parent ← parentCumulative header
      let cumulativeDifficulty := parent + nbitsToDifficulty header.nBits
      let batch ← Accesses.ofExcept (History.headerBatch sr header rawBytes)
      writeBatch batch
      selectChain (History.storeCumulativeDifficulty [] header.id cumulativeDifficulty) header.id header.height
        cumulativeDifficulty

def addHeaderToBatch (acc : History.HeaderBatch) (item : Header × Bytes) : HeaderAccesses History.HeaderBatch := do
  let (header, rawBytes) := item
  if ← contains header.id then return acc
  else do
    let inBatch := decide (header.parentId ∈ acc.headerIds)
    let parentStored ← hasParent header
    if !inBatch ∧ !parentStored then
      .failed (.headerNotFound
        s!"Parent {hexEncode header.parentId.bytes} not found for header at height {header.height}")
    else do
      let parentInBatch := header.height > 2 ∧ inBatch
      let parent ← if parentInBatch then pure acc.cumulativeDifficulty else parentCumulative header
      let cumulativeDifficulty := parent + nbitsToDifficulty header.nBits
      return {
        batch := History.storeCumulativeDifficulty
          (HeaderStore.putWithBytesBatched acc.batch header rawBytes) header.id cumulativeDifficulty
        headerIds := acc.headerIds ++ [header.id]
        cumulativeDifficulty
        finalHeaderId := header.id
        finalHeight := header.height
        finalCumulativeDifficulty := cumulativeDifficulty }

def appendHeadersBatched (headers : List (Header × Bytes)) : HeaderAccesses (Option BestHeader) := do
  match headers with
  | [] => return none
  | first :: _ => do
      let start ← parentCumulative first.1
      let acc ← headers.foldlM addHeaderToBatch
        { batch := [], headerIds := [], cumulativeDifficulty := start, finalHeaderId := first.1.id
          finalHeight := first.1.height, finalCumulativeDifficulty := start }
      selectChain acc.batch acc.finalHeaderId acc.finalHeight acc.finalCumulativeDifficulty

end Headers

end ErgoNode.Reading
