import ErgoNode.Chain.Types
import ErgoNode.Lib.BigEndian
import ErgoNode.Lib.SortedSet
import ErgoNode.Lib.Utf8
import ErgoNode.Lib.Vlq
import ErgoNode.Storage.Database

/-!
# Downloading a UTXO snapshot

The plan of a download: a flag for each expected chunk, a counter of the chunks that are being
downloaded and a cursor over the chunks to request.
-/

namespace ErgoNode

abbrev ManifestId := Digest32
abbrev SubtreeId := Digest32

structure UtxoSetSnapshotDownloadPlan where
  expectedChunkIds : List SubtreeId
  downloadedChunkIds : List Bool
  downloadingChunks : Nat
  nextChunkIndex : Nat
  flagged : downloadedChunkIds.length = expectedChunkIds.length

namespace UtxoSetSnapshotDownloadPlan

def new (expectedChunkIds : List SubtreeId) : UtxoSetSnapshotDownloadPlan where
  expectedChunkIds
  downloadedChunkIds := List.replicate expectedChunkIds.length false
  downloadingChunks := 0
  nextChunkIndex := 0
  flagged := List.length_replicate

variable (plan : UtxoSetSnapshotDownloadPlan)

def isFullyDownloaded : Bool := plan.downloadingChunks == 0 && plan.downloadedChunkIds.all id

def selectChunks : Nat → List (SubtreeId × Bool) → List SubtreeId × Nat
  | 0, _ => ([], 0)
  | _ + 1, [] => ([], 0)
  | howMany + 1, (_, true) :: rest =>
      let (result, passed) := selectChunks (howMany + 1) rest
      (result, passed + 1)
  | howMany + 1, (id, false) :: rest =>
      let (result, passed) := selectChunks howMany rest
      (id :: result, passed + 1)

def getChunkIdsToDownload (howMany : Nat) : List SubtreeId × UtxoSetSnapshotDownloadPlan :=
  let (result, passed) := selectChunks howMany
    ((plan.expectedChunkIds.zip plan.downloadedChunkIds).drop plan.nextChunkIndex)
  (result,
    { plan with
      downloadingChunks := plan.downloadingChunks + result.length
      nextChunkIndex := plan.nextChunkIndex + passed })

/-- The counter stops at zero. -/
def markChunkDownloaded (chunkId : SubtreeId) : Bool × UtxoSetSnapshotDownloadPlan :=
  match plan.expectedChunkIds.idxOf? chunkId with
  | some idx =>
      if plan.downloadedChunkIds[idx]? = some false then
        (true,
          { plan with
            downloadedChunkIds := plan.downloadedChunkIds.set idx true
            downloadingChunks := plan.downloadingChunks - 1
            flagged := (List.length_set ..).trans plan.flagged })
      else (false, plan)
  | none => (false, plan)

/-- The cursor goes back to the chunk, whatever lies in between. -/
def markChunkFailed (chunkId : SubtreeId) : UtxoSetSnapshotDownloadPlan :=
  match plan.expectedChunkIds.idxOf? chunkId with
  | some idx =>
      { plan with
        downloadingChunks := plan.downloadingChunks - 1
        nextChunkIndex := if idx < plan.nextChunkIndex then idx else plan.nextChunkIndex }
  | none => plan

end UtxoSetSnapshotDownloadPlan
end ErgoNode

/-!
### The snapshot database

Manifests are stored under their ids. A list of the manifest id at each height is stored under a key of its
own, and kept in memory once it has been read or written.
-/

namespace ErgoNode
open Lib

namespace SnapshotsDb

abbrev SnapshotsInfo : Type := SortedSet fun entry : UInt32 × ManifestId => entry.1.toNat

namespace SnapshotsInfo

def empty : SnapshotsInfo := SortedSet.empty

def len (info : SnapshotsInfo) : Nat := info.items.length

def withManifest (info : SnapshotsInfo) (height : UInt32) (manifestId : ManifestId) : SnapshotsInfo :=
  (info.erase (height, manifestId)).insert (height, manifestId)

def skip (info : SnapshotsInfo) (count : Nat) : SnapshotsInfo where
  items := info.items.drop count
  sorted := info.sorted.sublist (List.drop_sublist count info.items)

def entryBytes (entry : UInt32 × ManifestId) : Bytes := BigEndian.write 4 entry.1.toNat ++ entry.2.bytes

def serialize (info : SnapshotsInfo) : Bytes := Vlq.encode info.len ++ info.items.flatMap entryBytes

def vlqFault : Vlq.Fault → String
  | .truncated => "Truncated VLQ"
  | .overflow => "VLQ overflow"

def vlqEncode (value : UInt64) : Bytes := Vlq.encode value.toNat

/-- The position is one of the whole data, and so is the one behind the number. -/
def vlqDecode (data : Bytes) (pos : Nat) : Except String (Nat × Nat) := (Vlq.decodeAt data pos).mapError vlqFault

def readEntries : Nat → Bytes → SnapshotsInfo → StateResult SnapshotsInfo
  | 0, _, info => .ok info
  | count + 1, data, info =>
      if enough : 36 ≤ data.length then
        let manifestId : ManifestId := ⟨(data.drop 4).take 32, by simp only [List.length_take, List.length_drop]; omega⟩
        readEntries count (data.drop 36)
          (info.withManifest (UInt32.ofNat (BigEndian.read (data.take 4))) manifestId)
      else .error (.serialization "Truncated snapshots info")

def parse (data : Bytes) : StateResult SnapshotsInfo :=
  if data = [] then .ok empty
  else do
    let (count, pos) ← (Vlq.decode data).mapError fun fault =>
      .serialization s!"Failed to decode count: {vlqFault fault}"
    readEntries count (data.drop pos) empty

end SnapshotsInfo

def snapshotsInfoKey : Bytes := Utf8.encode "snapshots_info"

def manifestKey (manifestId : ManifestId) : Bytes := Utf8.encode "manifest:" ++ manifestId.bytes

end SnapshotsDb

/-- The column family of the snapshots by its raw keys, and the list in memory. `faults` scripts the coming
writes, as in `Database`. -/
structure SnapshotsDb where
  storage : Store fun _ : Bytes => Bytes
  faults : List Bool
  cachedInfo : Option SnapshotsDb.SnapshotsInfo

namespace SnapshotsDb

abbrev StorageOperation : Type := BatchOperation fun _ : Bytes => Bytes

def new (storage : Store fun _ : Bytes => Bytes) (faults : List Bool) : SnapshotsDb := ⟨storage, faults, none⟩

def write (operation : StorageOperation) : Op SnapshotsDb StateError Unit := do
  let db ← get
  match db.faults with
  | true :: rest =>
      set { db with faults := rest }
      throw (.storage .database)
  | false :: rest => set { db with storage := db.storage.apply operation, faults := rest }
  | [] => set { db with storage := db.storage.apply operation }

def storedInfo (storage : Store fun _ : Bytes => Bytes) : StateResult SnapshotsInfo :=
  match storage snapshotsInfoKey with
  | some data => SnapshotsInfo.parse data
  | none => .ok SnapshotsInfo.empty

def readSnapshotsInfo : Op SnapshotsDb StateError SnapshotsInfo := do
  let db ← get
  match db.cachedInfo with
  | some info => return info
  | none => do
      let info ← MonadExcept.ofExcept (storedInfo db.storage)
      modify fun db => { db with cachedInfo := some info }
      return info

def writeSnapshotsInfo (info : SnapshotsInfo) : Op SnapshotsDb StateError Unit := do
  write ⟨snapshotsInfoKey, .put info.serialize⟩
  modify fun db => { db with cachedInfo := some info }

def readManifest (db : SnapshotsDb) (manifestId : ManifestId) : Option Bytes := db.storage (manifestKey manifestId)

def writeManifest (manifestId : ManifestId) (data : Bytes) : Op SnapshotsDb StateError Unit :=
  write ⟨manifestKey manifestId, .put data⟩

def deleteManifest (manifestId : ManifestId) : Op SnapshotsDb StateError Unit :=
  write ⟨manifestKey manifestId, .delete⟩

def addSnapshot (height : UInt32) (manifestId : ManifestId) (manifestData : Bytes) :
    Op SnapshotsDb StateError Unit := do
  writeManifest manifestId manifestData
  let info ← readSnapshotsInfo
  writeSnapshotsInfo (info.withManifest height manifestId)

/-- The manifests of the lowest heights are deleted one by one before the list is written without them. -/
def pruneSnapshots (keepCount : Nat) : Op SnapshotsDb StateError Unit := do
  let info ← readSnapshotsInfo
  if info.len ≤ keepCount then return ()
  else do
    let toRemove := info.len - keepCount
    Op.forEach (fun removed => deleteManifest removed.2) (info.items.take toRemove)
    writeSnapshotsInfo (info.skip toRemove)

end SnapshotsDb
end ErgoNode
