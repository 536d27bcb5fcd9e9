import ErgoNode.Chain.Types
import ErgoNode.Lib.Lru
import ErgoNode.Network.PeerManager
import ErgoNode.Lib.Entries

/-!
# The block downloader

Which modifiers are queued, requested from a peer, delivered, or given up on. Request times are not
modelled: which requests time out is left to the environment.
-/

namespace ErgoNode
open Lib

abbrev ModifierId := Bytes

structure DownloadTask where
  id : ModifierId
  typeId : UInt8
  peer : Option PeerId
  retries : Nat
  failedPeers : List PeerId
  deriving DecidableEq

def DownloadTask.new (id : ModifierId) (typeId : UInt8) : DownloadTask := ⟨id, typeId, none, 0, []⟩

def DownloadTask.peerFailed (task : DownloadTask) (peer : PeerId) : Bool :=
  task.failedPeers.contains peer

def completedCacheSize : Nat := 50000

structure BlockDownloader where
  pending : Table ModifierId DownloadTask
  inFlight : Table ModifierId PeerId
  completed : LruCache ModifierId completedCacheSize
  failed : List ModifierId

namespace BlockDownloader

def maxRetries : Nat := 5

def new : BlockDownloader := ⟨∅, ∅, .empty, []⟩

variable (downloader : BlockDownloader)

def queueTask (force : Bool) (downloader : BlockDownloader) (task : DownloadTask) : BlockDownloader :=
  if task.id ∈ downloader.inFlight ∨ task.id ∈ downloader.pending then downloader
  else if task.id ∈ downloader.completed then
    if force then
      { downloader with
        completed := downloader.completed.pop task.id
        pending := downloader.pending.insert task.id task }
    else downloader
  else { downloader with pending := downloader.pending.insert task.id task }

def queueInner (tasks : List DownloadTask) (force : Bool) : BlockDownloader :=
  tasks.foldl (queueTask force) downloader

def queue (tasks : List DownloadTask) : BlockDownloader := downloader.queueInner tasks false

def queueForce (tasks : List DownloadTask) : BlockDownloader := downloader.queueInner tasks true

/-- The tasks stay where they are; a dispatch that follows takes them by their ids. -/
def getReadyTasksForPeer (order : Iteration ModifierId DownloadTask) (maxParallel count : Nat) (peer : PeerId) :
    List DownloadTask :=
  let available := maxParallel - downloader.inFlight.entries.length
  (((order.entries downloader.pending).map Prod.snd).filter fun task =>
    task.peer.isNone && !task.peerFailed peer).take (min count available)

def checkTimeouts (order : Iteration ModifierId DownloadTask) (timedOut : DownloadTask → Bool) :
    List (ModifierId × PeerId) :=
  (order.entries downloader.pending).filterMap fun (id, task) =>
    if timedOut task then task.peer.map fun peer => (id, peer) else none

def dispatch (id : ModifierId) (peer : PeerId) : BlockDownloader :=
  let pending := match downloader.pending.lookup id with
    | some task => downloader.pending.insert id { task with peer := some peer }
    | none => downloader.pending
  { downloader with pending, inFlight := downloader.inFlight.insert id peer }

def complete (id : ModifierId) : BlockDownloader :=
  { downloader with
    pending := downloader.pending.erase id
    inFlight := downloader.inFlight.erase id
    completed := downloader.completed.put id }

def fail (id : ModifierId) (peer : PeerId) : BlockDownloader :=
  let downloader := { downloader with inFlight := downloader.inFlight.erase id }
  match downloader.pending.lookup id with
  | none => downloader
  | some task =>
      let task := { task with
        retries := task.retries + 1
        peer := none
        failedPeers := task.failedPeers.insert peer }
      if task.retries ≥ maxRetries then
        { downloader with
          pending := downloader.pending.erase id
          failed := downloader.failed.insert id }
      else { downloader with pending := downloader.pending.insert id task }

def uncomplete (id : ModifierId) : BlockDownloader :=
  { downloader with completed := downloader.completed.pop id }

def getStuckTasks (order : Iteration ModifierId DownloadTask) (availablePeers : List PeerId) : List ModifierId :=
  if availablePeers.isEmpty then []
  else (((order.entries downloader.pending).map Prod.snd).filter fun task =>
    task.peer.isNone && availablePeers.all task.peerFailed).map DownloadTask.id

def clearFailedPeers (downloader : BlockDownloader) (id : ModifierId) : BlockDownloader :=
  match downloader.pending.lookup id with
  | some task => { downloader with pending := downloader.pending.insert id { task with failedPeers := [] } }
  | none => downloader

def getInFlightForPeer (order : Iteration ModifierId PeerId) (peer : PeerId) : List ModifierId :=
  ((order.entries downloader.inFlight).filter fun entry => entry.2 == peer).map Prod.fst

variable {downloader} {id other : ModifierId}

@[simp] theorem completed_fail (peer : PeerId) :
    (downloader.fail id peer).completed = downloader.completed := by
  dsimp only [fail]
  split
  · rfl
  · split <;> rfl

theorem mem_completed_complete (member : other ∈ (downloader.complete id).completed) :
    other = id ∨ other ∈ downloader.completed := LruCache.mem_of_put member

theorem mem_completed_uncomplete :
    other ∈ (downloader.uncomplete id).completed ↔ other ≠ id ∧ other ∈ downloader.completed :=
  LruCache.mem_pop

@[simp] theorem completed_queueTask (task : DownloadTask) :
    (queueTask false downloader task).completed = downloader.completed := by
  unfold queueTask
  split
  · rfl
  · split <;> rfl

@[simp] theorem completed_queue (tasks : List DownloadTask) :
    (downloader.queue tasks).completed = downloader.completed := by
  rw [queue, queueInner]
  induction tasks generalizing downloader with
  | nil => rfl
  | cons task rest ih => rw [List.foldl_cons, ih, completed_queueTask]

end BlockDownloader
end ErgoNode
