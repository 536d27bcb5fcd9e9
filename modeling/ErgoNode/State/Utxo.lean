import ErgoNode.Lib.Except
import ErgoNode.Storage.Database

/-!
# The UTXO state

Boxes by id, the two indexes over them, and one undo record for each applied height. A change is
written either on its own (`applyChange`) or into a batch that several blocks share
(`addChangeToBatchWithContext`); `rollback` replays the undo records downwards.
-/

namespace ErgoNode
open Lib

structure BoxEntry where
  ergoBox : ErgoBox
  creationHeight : Nat
  txId : TxId
  outputIndex : Nat
  deriving DecidableEq

structure StateChange where
  created : List BoxEntry
  spent : List BoxId
  deriving DecidableEq

structure UndoData where
  height : Nat
  spentBoxes : List BoxEntry
  createdBoxIds : List BoxId
  deriving DecidableEq

/-- The in-memory fields; `stateRoot` is written by the AVL path only. -/
structure UtxoState where
  stateRoot : Bytes
  height : Nat
  syncMode : Bool
  deriving DecidableEq

variable (sr : SigmaRust)

namespace BoxEntry

def boxId (entry : BoxEntry) : BoxId := entry.ergoBox.boxId

def serialize (entry : BoxEntry) : StateResult StoredBox := do
  let boxBytes ← (sr.boxBytes entry.ergoBox).mapError .serialization
  return ⟨entry.creationHeight, entry.txId, entry.outputIndex, boxBytes⟩

def deserialize (stored : StoredBox) : StateResult BoxEntry := do
  let ergoBox ← (sr.parseBox stored.boxBytes).mapError .serialization
  return ⟨ergoBox, stored.creationHeight, stored.txId, stored.outputIndex⟩

end BoxEntry

namespace UndoData

def new (height : Nat) : UndoData := ⟨height, [], []⟩

def serialize (undo : UndoData) : StateResult StoredUndo := do
  let spentBoxes ← undo.spentBoxes.mapM (BoxEntry.serialize sr)
  return ⟨undo.height, spentBoxes, undo.createdBoxIds⟩

def deserialize (stored : StoredUndo) : StateResult UndoData := do
  let spentBoxes ← stored.spentBoxes.mapM (BoxEntry.deserialize sr)
  return ⟨stored.height, spentBoxes, stored.createdBoxIds⟩

end UndoData

abbrev BoxMap := Store fun _ : BoxId => BoxEntry

namespace BoxMap

def empty : BoxMap := fun _ => none

def insertAll (boxes : BoxMap) (entries : List BoxEntry) : BoxMap :=
  boxes.write (puts BoxEntry.boxId id entries)

def removeAll (boxes : BoxMap) (ids : List BoxId) : BoxMap :=
  boxes.write (ids.map fun boxId => ⟨boxId, .delete⟩)

def afterBlock (boxes : BoxMap) (change : StateChange) : BoxMap :=
  (boxes.insertAll change.created).removeAll change.spent

end BoxMap

namespace UtxoState

def new : UtxoState := ⟨Digest32.zero.bytes, 0, false⟩

def getBox (db : Database) (boxId : BoxId) : StateResult (Option BoxEntry) :=
  match db.get .utxo boxId with
  | some stored => some <$> BoxEntry.deserialize sr stored
  | none => pure none

def getBoxesBatch (db : Database) (boxIds : List BoxId) : StateResult (List (Option BoxEntry)) :=
  boxIds.mapM (getBox sr db)

/-! ### Indexes -/

/-- A tree that does not serialize is indexed as the empty byte string. -/
def hashErgotree (ergoBox : ErgoBox) : Digest32 :=
  sr.blake2b256 ((sr.treeBytes ergoBox.ergoTree).toOption.getD [])

def getIndexEntries (db : Database) (kind : IndexKind) (indexKey : Digest32) : List BoxId :=
  (db.get (.index kind) indexKey).getD []

def addToIndex (db : Database) (kind : IndexKind) (indexKey : Digest32) (boxId : BoxId)
    (batch : WriteBatch) : WriteBatch :=
  let boxIds := getIndexEntries db kind indexKey
  if boxId ∈ boxIds then batch else batch.put (.index kind) indexKey (boxIds ++ [boxId])

def removeFromIndex (db : Database) (kind : IndexKind) (indexKey : Digest32) (boxId : BoxId)
    (batch : WriteBatch) : WriteBatch :=
  let boxIds := (getIndexEntries db kind indexKey).filter (· ≠ boxId)
  if boxIds = [] then batch.delete (.index kind) indexKey
  else batch.put (.index kind) indexKey boxIds

def updateIndexes (update : IndexKind → Digest32 → WriteBatch → WriteBatch) (ergoBox : ErgoBox)
    (batch : WriteBatch) : WriteBatch :=
  (ergoBox.tokens.getD []).foldl (fun batch token => update .token token.tokenId batch)
    (update .ergoTree (hashErgotree sr ergoBox) batch)

def addToIndexes (db : Database) (ergoBox : ErgoBox) (boxId : BoxId) : WriteBatch → WriteBatch :=
  updateIndexes sr (fun kind key => addToIndex db kind key boxId) ergoBox

def removeFromIndexes (db : Database) (ergoBox : ErgoBox) (boxId : BoxId) :
    WriteBatch → WriteBatch :=
  updateIndexes sr (fun kind key => removeFromIndex db kind key boxId) ergoBox

/-! ### Applying a change -/

section Change
variable (db : Database) (skipIndexes : Bool)

def requireBox (lookup : BoxId → StateResult (Option BoxEntry)) (boxId : BoxId) :
    StateResult BoxEntry := do
  match ← lookup boxId with
  | some entry => return entry
  | none => throw (.boxNotFound (hexEncode boxId.bytes))

def spendEntry (acc : WriteBatch × UndoData) (boxId : BoxId) (entry : BoxEntry) :
    WriteBatch × UndoData :=
  let batch := if skipIndexes then acc.1 else removeFromIndexes sr db entry.ergoBox boxId acc.1
  (batch.delete .utxo boxId, { acc.2 with spentBoxes := acc.2.spentBoxes ++ [entry] })

def createEntry (acc : WriteBatch × UndoData) (entry : BoxEntry) (serialized : StoredBox) :
    WriteBatch × UndoData :=
  let batch := if skipIndexes then acc.1 else addToIndexes sr db entry.ergoBox entry.boxId acc.1
  (batch.put .utxo entry.boxId serialized,
    { acc.2 with createdBoxIds := acc.2.createdBoxIds ++ [entry.boxId] })

/-- Push a change onto a batch: the spent boxes (saved in the undo record), the created boxes, the
undo record and the new height. The two ways to apply a change differ in how they find a spent
box. -/
def changeToBatch (lookup : BoxId → StateResult (Option BoxEntry)) (batch : WriteBatch)
    (change : StateChange) (newHeight : Nat) : StateResult WriteBatch := do
  let spent ← change.spent.foldlM
    (fun acc boxId => do return spendEntry sr db skipIndexes acc boxId (← requireBox lookup boxId))
    (batch, UndoData.new newHeight)
  let (batch, undo) ← change.created.foldlM
    (fun acc entry => do return createEntry sr db skipIndexes acc entry (← entry.serialize sr)) spent
  let undoBytes ← undo.serialize sr
  return (batch.put .undoData newHeight undoBytes).put .metadata .utxoHeight newHeight

end Change

/-- Spent boxes must be in the database: a box the change itself creates is not found. -/
def applyChange (change : StateChange) (newHeight : Nat) :
    Op (OnDatabase UtxoState) StateError Unit := do
  let st ← get
  let batch ← MonadExcept.ofExcept
    (changeToBatch sr st.db st.mem.syncMode (getBox sr st.db) [] change newHeight)
  OnDatabase.writeBatch batch
  modify fun st => { st with mem.height := newHeight }

def boxInContext (db : Database) (change : StateChange) (batchCreatedBoxes : BoxMap)
    (boxId : BoxId) : StateResult (Option BoxEntry) :=
  let createdInBlock := BoxMap.empty.insertAll change.created
  match createdInBlock boxId with
  | some entry => pure (some entry)
  | none =>
      match batchCreatedBoxes boxId with
      | some entry => pure (some entry)
      | none => getBox sr db boxId

def addChangeToBatchWithContext (st : OnDatabase UtxoState) (batch : WriteBatch)
    (change : StateChange) (newHeight : Nat) (batchCreatedBoxes : BoxMap) :
    StateResult WriteBatch :=
  changeToBatch sr st.db st.mem.syncMode (boxInContext sr st.db change batchCreatedBoxes) batch
    change newHeight

def addChangeToBatch (st : OnDatabase UtxoState) (batch : WriteBatch) (change : StateChange)
    (newHeight : Nat) : StateResult WriteBatch :=
  addChangeToBatchWithContext sr st batch change newHeight BoxMap.empty

def updateHeightInMemory (newHeight : Nat) : Op (OnDatabase UtxoState) StateError Unit :=
  modify fun st => { st with mem.height := newHeight }

/-! ### Rollback -/

def removeCreated (db : Database) (batch : WriteBatch) (boxId : BoxId) (entry : Option BoxEntry) :
    WriteBatch :=
  let batch := match entry with
    | some entry => removeFromIndexes sr db entry.ergoBox boxId batch
    | none => batch
  batch.delete .utxo boxId

def restoreSpent (db : Database) (batch : WriteBatch) (entry : BoxEntry) (serialized : StoredBox) :
    WriteBatch :=
  (addToIndexes sr db entry.ergoBox entry.boxId batch).put .utxo entry.boxId serialized

def undoToBatch (db : Database) (undo : UndoData) (height : Nat) : StateResult WriteBatch := do
  let batch ← undo.createdBoxIds.foldlM
    (fun batch boxId => do return removeCreated sr db batch boxId (← getBox sr db boxId)) []
  let batch ← undo.spentBoxes.foldlM
    (fun batch entry => do return restoreSpent sr db batch entry (← entry.serialize sr)) batch
  return batch.delete .undoData height

def rollbackOneBlock (height : Nat) : Op (OnDatabase UtxoState) StateError Unit := do
  let st ← get
  let undoBytes ← MonadExcept.ofExcept (match st.db.get .undoData height with
    | some undoBytes => .ok undoBytes
    | none => .error (.rollbackFailed s!"No undo data for height {height}"))
  let undo ← MonadExcept.ofExcept (UndoData.deserialize sr undoBytes)
  let batch ← MonadExcept.ofExcept (undoToBatch sr st.db undo height)
  OnDatabase.writeBatch batch

def heightsAbove (toHeight current : Nat) : List Nat :=
  (List.range' (toHeight + 1) (current - toHeight)).reverse

def rollback (toHeight : Nat) : Op (OnDatabase UtxoState) StateError Unit := do
  let st ← get
  let current := st.mem.height
  if toHeight ≥ current then
    throw (.rollbackFailed s!"Cannot rollback from {current} to {toHeight}: target must be lower")
  else
    Op.forEach (rollbackOneBlock sr) (heightsAbove toHeight current)
    OnDatabase.writeBatch (WriteBatch.put [] .metadata .utxoHeight toHeight)
    modify fun st => { st with mem.height := toHeight }

end UtxoState
end ErgoNode
