import ErgoNode.State.Snapshots
import ErgoNode.Sync.Download
import Mathlib.Data.List.MinMax

/-!
# The synchronizer

What the node is doing to catch up, as one state that each of its handlers may overwrite, and beside it
what is known of the peers: their heights, the snapshots they announce, the chunks they deliver.
-/

namespace ErgoNode
open Lib

inductive SyncState where
  | idle
  | awaitingSnapshotsInfo (requestedFrom startedAtMs : Nat)
  | awaitingManifest (manifestId : ManifestId) (height : Nat) (peer : PeerId)
  | downloadingChunks (manifestId : ManifestId) (height totalChunks downloadedChunks : Nat)
  | applyingSnapshot (height : Nat)
  | syncingHeaders (start target : Nat)
  | syncingBlocks (pendingCount : Nat)
  | synchronized
  deriving DecidableEq

structure SyncConfig where
  minSnapshotPeers : Nat

def minSnapshotPeers : Nat := 2

def SyncConfig.default : SyncConfig := ⟨ErgoNode.minSnapshotPeers⟩

abbrev AvailableManifests := Table ManifestId (Nat × List PeerId)

/-- When a chunk was requested is not modelled. -/
structure Synchronizer where
  config : SyncConfig
  state : SyncState
  peerHeights : Table PeerId Nat
  blockQueue : List ModifierId
  pending : Table ModifierId PeerId
  ourHeight : Nat
  availableManifests : AvailableManifests
  downloadingChunks : Table SubtreeId PeerId
  downloadedChunks : List SubtreeId

namespace Synchronizer

def new (config : SyncConfig) : Synchronizer := ⟨config, .idle, ∅, [], ∅, 0, ∅, ∅, []⟩

variable (sync : Synchronizer)

def bestPeerHeight : Option Nat := (sync.peerHeights.entries.map fun entry => entry.2).max?

def checkSyncStatus : Synchronizer :=
  let our := sync.ourHeight
  let best := sync.bestPeerHeight.getD 0
  if our ≥ best then { sync with state := .synchronized }
  else
    match sync.state with
    | .idle | .synchronized | .applyingSnapshot _ => { sync with state := .syncingHeaders our best }
    | _ => sync

theorem checkSyncStatus_cases :
    sync.checkSyncStatus = { sync with state := .synchronized } ∨
      (∃ start target, sync.checkSyncStatus = { sync with state := .syncingHeaders start target }) ∨
      sync.checkSyncStatus = sync := by
  unfold checkSyncStatus
  dsimp only
  split
  · exact .inl rfl
  · split
    · exact .inr (.inl ⟨_, _, rfl⟩)
    · exact .inr (.inl ⟨_, _, rfl⟩)
    · exact .inr (.inl ⟨_, _, rfl⟩)
    · exact .inr (.inr rfl)

def setHeight (height : Nat) : Synchronizer := { sync with ourHeight := height }.checkSyncStatus

def setPeerHeight (peer : PeerId) (height : Nat) : Synchronizer :=
  { sync with peerHeights := sync.peerHeights.insert peer height }.checkSyncStatus

def removePeer (peer : PeerId) : Synchronizer := { sync with peerHeights := sync.peerHeights.erase peer }

def blockReceived (blockId : ModifierId) : Synchronizer :=
  let sync := { sync with pending := sync.pending.erase blockId }
  let pending := sync.pending.entries.length
  let queue := sync.blockQueue.length
  if pending = 0 ∧ queue = 0 then sync.checkSyncStatus
  else { sync with state := .syncingBlocks (pending + queue) }

/-! ### Manifests -/

def recordManifest (peer : PeerId) (available : AvailableManifests) : Nat × ManifestId → AvailableManifests
  | (height, manifestId) =>
      match available.lookup manifestId with
      | some (first, peers) =>
          available.insert manifestId (first, if peers.contains peer then peers else peers ++ [peer])
      | none => available.insert manifestId (height, [peer])

def checkManifestAvailability (order : Iteration ManifestId (Nat × List PeerId)) : Option (ManifestId × Nat) :=
  let valid := (order.entries sync.availableManifests).filter fun entry =>
    entry.2.2.length ≥ sync.config.minSnapshotPeers
  (valid.reverse.argmax fun entry => entry.2.1).map fun entry => (entry.1, entry.2.1)

def processSnapshotsInfo (order : Iteration ManifestId (Nat × List PeerId)) (peer : PeerId)
    (manifests : List (Nat × ManifestId)) : Option (ManifestId × Nat) × Synchronizer :=
  if manifests = [] then (none, sync)
  else
    let sync := { sync with
      availableManifests := manifests.foldl (recordManifest peer) sync.availableManifests }
    (sync.checkManifestAvailability order, sync)

/-! ### Chunks -/

def startChunkDownload (manifestId : ManifestId) (height totalChunks : Nat) : Synchronizer :=
  { sync with
    state := .downloadingChunks manifestId height totalChunks 0
    downloadedChunks := []
    downloadingChunks := ∅ }

def markChunkDownloading (chunkId : SubtreeId) (peer : PeerId) : Synchronizer :=
  { sync with downloadingChunks := sync.downloadingChunks.insert chunkId peer }

/-- Whether all chunks are now downloaded, judged by their number. -/
def markChunkDownloaded (chunkId : SubtreeId) : Bool × Synchronizer :=
  let sync := { sync with
    downloadingChunks := sync.downloadingChunks.erase chunkId
    downloadedChunks := sync.downloadedChunks.insert chunkId }
  match sync.state with
  | .downloadingChunks manifestId height totalChunks _ =>
      (decide (sync.downloadedChunks.length ≥ totalChunks),
        { sync with
          state := .downloadingChunks manifestId height totalChunks sync.downloadedChunks.length })
  | _ => (false, sync)

def markChunkFailed (chunkId : SubtreeId) : Synchronizer :=
  { sync with downloadingChunks := sync.downloadingChunks.erase chunkId }

end Synchronizer
end ErgoNode
