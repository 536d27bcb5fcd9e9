import ErgoNode.Lib.Reader
import ErgoNode.Lib.Utf8
import ErgoNode.Storage.Database
import ErgoNode.Lib.Entries

/-!
# Scans

Scans are stored in one column and the boxes they track in another, both as JSON. The scans are held in memory
as well, with the id that the next one gets.
-/

namespace ErgoNode
open Lib

abbrev RegisterId := UInt8

inductive ScanningPredicate where
  | containsAsset (assetId : Bytes)
  | equals (regId : RegisterId) (value : Bytes)
  | contains (regId : RegisterId) (value : Bytes)
  | and (args : List ScanningPredicate)
  | or (args : List ScanningPredicate)

abbrev ScanId := Int16

inductive ScanWalletInteraction where
  | off
  | shared
  | forced
  deriving DecidableEq

def maxScanNameLength : Nat := 255

structure Scan where
  scanId : ScanId
  scanName : String
  trackingRule : ScanningPredicate
  walletInteraction : ScanWalletInteraction
  removeOffchain : Bool

structure ScanRequest where
  scanName : String
  trackingRule : ScanningPredicate
  walletInteraction : Option ScanWalletInteraction
  removeOffchain : Option Bool

def ScanRequest.toScan (request : ScanRequest) (scanId : ScanId) : Except String Scan :=
  if (Utf8.encode request.scanName).length > maxScanNameLength then .error s!"Scan name too long: {request.scanName}"
  else .ok ⟨scanId, request.scanName, request.trackingRule, request.walletInteraction.getD .shared,
    request.removeOffchain.getD true⟩

structure ScanBox where
  boxId : Bytes
  scanIds : List ScanId
  spent : Bool
  spendingTxId : Option Bytes
  spendingHeight : Option UInt32
  inclusionHeight : UInt32
  confirmationsNum : UInt32
  boxData : Bytes
  deriving DecidableEq

namespace ScanBox

def new (boxId : Bytes) (scanIds : List ScanId) (inclusionHeight confirmationsNum : UInt32) (boxData : Bytes) :
    ScanBox :=
  ⟨boxId, scanIds, false, none, none, inclusionHeight, confirmationsNum, boxData⟩

def markSpent (scanBox : ScanBox) (spendingTxId : Bytes) (spendingHeight : UInt32) : ScanBox :=
  { scanBox with spent := true, spendingTxId := some spendingTxId, spendingHeight := some spendingHeight }

def withoutScan (scanBox : ScanBox) (scanId : ScanId) : ScanBox :=
  { scanBox with scanIds := scanBox.scanIds.filter (· ≠ scanId) }

end ScanBox

structure Serde (T : Type) where
  toVec : T → Except String Bytes
  fromSlice : Bytes → Except String T

namespace Serde
variable {T : Type} (json : Serde T)

def serialize (value : T) : Bytes := (json.toVec value).toOption.getD []

def deserialize (data : Bytes) : Option T := (json.fromSlice data).toOption

end Serde

structure ScanJson where
  scan : Serde Scan
  scanBox : Serde ScanBox

/-! ### The two columns -/

inductive ScanColumn where
  | scans
  | scanBoxes
  deriving DecidableEq

abbrev ScanOperation := BatchOperation fun _ : ScanColumn × Bytes => Bytes
abbrev ScanColumns := ScanColumn → Table Bytes Bytes

namespace ScanColumns

def apply (columns : ScanColumns) (op : ScanOperation) : ScanColumns :=
  Function.update columns op.address.1 (match op.kind with
    | .put value => (columns op.address.1).insert op.address.2 value
    | .delete => (columns op.address.1).erase op.address.2)

def write (columns : ScanColumns) (batch : List ScanOperation) : ScanColumns := batch.foldl apply columns

end ScanColumns

/-- `faults` scripts the coming calls, those that read too: `true` is a call that fails and changes nothing. -/
structure ScanDb where
  columns : ScanColumns
  faults : List Bool

namespace ScanDb

def call {A : Type} (answer : ScanColumns → A) (change : ScanColumns → ScanColumns) : Op ScanDb StorageError A :=
  ExceptT.mk fun db =>
    if Database.writeFails db.faults then (.error .database, ⟨db.columns, db.faults.tail⟩)
    else (.ok (answer db.columns), ⟨change db.columns, db.faults.tail⟩)

theorem exec_call {A : Type} (answer : ScanColumns → A) (change : ScanColumns → ScanColumns) (db : ScanDb) :
    (call answer change).exec db =
      if Database.writeFails db.faults then (.error .database, ⟨db.columns, db.faults.tail⟩)
      else (.ok (answer db.columns), ⟨change db.columns, db.faults.tail⟩) := rfl

def get (cf : ScanColumn) (key : Bytes) : Op ScanDb StorageError (Option Bytes) :=
  call (fun columns => (columns cf).lookup key) id

def put (cf : ScanColumn) (key value : Bytes) : Op ScanDb StorageError Unit :=
  call (fun _ => ()) fun columns => columns.apply ⟨(cf, key), .put value⟩

def delete (cf : ScanColumn) (key : Bytes) : Op ScanDb StorageError Unit :=
  call (fun _ => ()) fun columns => columns.apply ⟨(cf, key), .delete⟩

def writeBatch (batch : List ScanOperation) : Op ScanDb StorageError Unit :=
  call (fun _ => ()) fun columns => columns.write batch

def iter (order : Iteration Bytes Bytes) (cf : ScanColumn) : Op ScanDb StorageError (List (Bytes × Bytes)) :=
  call (fun columns => order.entries (columns cf)) id

end ScanDb

/-! ### Scan storage -/

inductive ScanError where
  | storage (error : StorageError)
  | text (message : String) (cause : Option StorageError)
  deriving DecidableEq

structure ScanStorage where
  storage : ScanDb
  scans : Table ScanId Scan
  nextScanId : ScanId

abbrev ScanOp := Op ScanStorage ScanError

abbrev PanickyScanOp := Op ScanStorage (Stop ScanError)

namespace ScanStorage

def onStorage {A : Type} (error : StorageError → ScanError) (x : Op ScanDb StorageError A) : ScanOp A :=
  Op.mapError error (Op.zoom ScanStorage.storage (fun storage st => { st with storage }) x)

def withText (message : String) (error : StorageError) : ScanError := .text message (some error)

variable (json : ScanJson) (order : Iteration Bytes Bytes) (checks : Bool)

def following (scanId : ScanId) : Except (Stop ScanError) ScanId :=
  if checks = true ∧ scanId = Int16.maxValue then .error .panic else .ok (scanId + 1)

def loadEntry (loaded : ScanId × Table ScanId Scan) (entry : Bytes × Bytes) : ScanId × Table ScanId Scan :=
  match json.scan.deserialize entry.2 with
  | none => loaded
  | some scan => (if scan.scanId > loaded.1 then scan.scanId else loaded.1, loaded.2.insert scan.scanId scan)

def loadScans : PanickyScanOp Unit := do
  let entries ← Op.mapError .error (onStorage .storage (ScanDb.iter order .scans))
  let st ← get
  let loaded := entries.foldl (loadEntry json) (0, st.scans)
  let nextScanId ← MonadExcept.ofExcept (following checks loaded.1)
  set { st with scans := loaded.2, nextScanId }

/-- Ids start at 1. What keeps the scans from being loaded is not an error; `none` is a panic. -/
def new (storage : ScanDb) : Option ScanStorage :=
  match (loadScans json order checks).exec ⟨storage, ∅, 1⟩ with
  | (.error .panic, _) => none
  | (_, loaded) => some loaded

def takeScanId : PanickyScanOp ScanId := do
  let st ← get
  let nextScanId ← MonadExcept.ofExcept (following checks st.nextScanId)
  set { st with nextScanId }
  return st.nextScanId

def scanKey (scanId : ScanId) : Bytes := BigEndian.write 2 scanId.toUInt16.toNat

def registerAs (scanId : ScanId) (request : ScanRequest) : ScanOp Scan := do
  let scan ← MonadExcept.ofExcept ((request.toScan scanId).mapError fun message => .text message none)
  onStorage (withText "Failed to persist scan: ") (ScanDb.put .scans (scanKey scanId) (json.scan.serialize scan))
  modify fun st => { st with scans := st.scans.insert scanId scan }
  return scan

def register (request : ScanRequest) : PanickyScanOp Scan := do
  let scanId ← takeScanId checks
  Op.mapError .error (registerAs json scanId request)

def untracked (scanBox : ScanBox) : OperationKind Bytes :=
  if scanBox.scanIds = [] then .delete else .put (json.scanBox.serialize scanBox)

def removal (scanId : ScanId) (entry : Bytes × Bytes) : Option ScanOperation := do
  let scanBox ← json.scanBox.deserialize entry.2
  if scanId ∈ scanBox.scanIds then some ⟨(.scanBoxes, entry.1), untracked json (scanBox.withoutScan scanId)⟩ else none

def removeScanBoxes (scanId : ScanId) : ScanOp Unit := do
  let entries ← onStorage (withText "Failed to iterate scan boxes: ") (ScanDb.iter order .scanBoxes)
  onStorage (withText "Failed to remove scan boxes: ") (ScanDb.writeBatch (entries.filterMap (removal json scanId)))

def deregister (scanId : ScanId) : ScanOp Unit := do
  if scanId ∉ (← get).scans then throw (.text s!"Scan {scanId} not found" none)
  else
    onStorage (withText "Failed to delete scan: ") (ScanDb.delete .scans (scanKey scanId))
    removeScanBoxes json order scanId
    modify fun st => { st with scans := st.scans.erase scanId }

def listAll (order : Iteration ScanId Scan) (st : ScanStorage) : List Scan := (order.entries st.scans).map Prod.snd

def scanBoxKey (boxId : Bytes) : Bytes := boxId

def addBox (scanBox : ScanBox) : ScanOp Unit :=
  onStorage .storage (ScanDb.put .scanBoxes (scanBoxKey scanBox.boxId) (json.scanBox.serialize scanBox))

def addBoxToScans (boxId : Bytes) (scanIds : List ScanId) (inclusionHeight confirmationsNum : UInt32)
    (boxData : Bytes) : ScanOp Unit :=
  addBox json (.new boxId scanIds inclusionHeight confirmationsNum boxData)

def getBox (boxId : Bytes) : ScanOp (Option ScanBox) := do
  match ← onStorage .storage (ScanDb.get .scanBoxes (scanBoxKey boxId)) with
  | some data => return json.scanBox.deserialize data
  | none => return none

def boxesOf (spent : Bool) (scanId : ScanId) (entries : List (Bytes × Bytes)) : List ScanBox :=
  (entries.filterMap fun entry => json.scanBox.deserialize entry.2).filter fun scanBox =>
    scanBox.spent = spent ∧ scanId ∈ scanBox.scanIds

def getUnspentBoxes (scanId : ScanId) : ScanOp (List ScanBox) :=
  return boxesOf json false scanId (← onStorage .storage (ScanDb.iter order .scanBoxes))

def getSpentBoxes (scanId : ScanId) : ScanOp (List ScanBox) :=
  return boxesOf json true scanId (← onStorage .storage (ScanDb.iter order .scanBoxes))

def stopTracking (scanId : ScanId) (boxId : Bytes) : ScanOp Unit := do
  let data ← onStorage .storage (ScanDb.get .scanBoxes (scanBoxKey boxId))
  match data.bind json.scanBox.deserialize with
  | none => return ()
  | some scanBox =>
      match untracked json (scanBox.withoutScan scanId) with
      | .delete => onStorage .storage (ScanDb.delete .scanBoxes (scanBoxKey boxId))
      | .put value => onStorage .storage (ScanDb.put .scanBoxes (scanBoxKey boxId) value)

def markBoxSpent (boxId spendingTxId : Bytes) (spendingHeight : UInt32) : ScanOp Unit := do
  let data ← onStorage .storage (ScanDb.get .scanBoxes (scanBoxKey boxId))
  match data.bind json.scanBox.deserialize with
  | none => return ()
  | some scanBox =>
      let value := json.scanBox.serialize (scanBox.markSpent spendingTxId spendingHeight)
      onStorage .storage (ScanDb.put .scanBoxes (scanBoxKey boxId) value)

/-- The height and the boxes of the block are not looked at, and the spending height is left at zero. -/
def processBlock (_height : UInt32) (_createdBoxes : List (Bytes × Bytes)) (spentBoxIds : List Bytes)
    (spendingTxId : Bytes) : ScanOp Unit :=
  Op.forEach (fun boxId => do
    if (← getBox json boxId).isSome then markBoxSpent json boxId spendingTxId 0 else return ()) spentBoxIds

end ScanStorage
end ErgoNode
