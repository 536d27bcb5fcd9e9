import ErgoNode.Lib.Entries
import ErgoNode.Sync.Heights

/-!
# The sync protocol: requests to peers

Which modifiers are asked for from which peer, and when. The events are handled one after the other; what
they do to anything but the downloads is left to the environment.
-/

namespace ErgoNode
open Lib

structure DispatchOrders where
  tasks : Iteration ModifierId DownloadTask
  peers : Iteration PeerId Int
  types : Iteration UInt8 (List ModifierId)

/-- The sync peers are listed with the time of the last request to each, in milliseconds. -/
structure PeerDownloads where
  heights : SyncHeights
  syncPeers : Table PeerId Int
  clock : Int
  sent : List (PeerId × ModifierRequest)

namespace PeerDownloads

def maxBlocksPerPeer : Nat := 32

def maxPeersToUse : Nat := 16

def minRequestInterval : Int := 100

def maxTimeoutsPerTick : Nat := 10

def new : PeerDownloads := ⟨.new, ∅, 0, []⟩

variable (s : PeerDownloads)

abbrev downloader : BlockDownloader := s.heights.protocol.downloader

def withProtocol (protocol : SyncProtocol) : PeerDownloads := { s with heights := { s.heights with protocol } }

def withDownloader (downloader : BlockDownloader) : PeerDownloads :=
  s.withProtocol { s.heights.protocol with downloader }

def canSendRequest (now lastRequestSent : Int) : Bool := now - lastRequestSent ≥ minRequestInterval

def byType (tasks : List DownloadTask) : Table UInt8 (List ModifierId) :=
  tasks.foldl (fun table task => table.insert task.typeId ((table.lookup task.typeId).getD [] ++ [task.id])) ∅

def dispatchTo (orders : DispatchOrders) (now : Int) (s : PeerDownloads) (peer : PeerId) : PeerDownloads :=
  let tasks := s.downloader.getReadyTasksForPeer orders.tasks parallelDownloads maxBlocksPerPeer peer
  if tasks.isEmpty then s
  else
    let s := s.withDownloader (tasks.foldl (fun downloader task => downloader.dispatch task.id peer) s.downloader)
    { s with
      syncPeers := if peer ∈ s.syncPeers then s.syncPeers.insert peer now else s.syncPeers
      sent := s.sent ++ (orders.types.entries (byType tasks)).map fun (typeId, ids) => (peer, ⟨typeId, ids⟩) }

def dispatchDownloads (orders : DispatchOrders) (now : Int) : PeerDownloads :=
  if s.downloader.inFlight.entries.length ≥ parallelDownloads then s
  else
    let availablePeers := ((orders.peers.entries s.syncPeers).filter fun entry =>
      canSendRequest now entry.2).map Prod.fst
    if availablePeers.isEmpty then s
    else
      let stuck := s.downloader.getStuckTasks orders.tasks s.syncPeers.keys
      let s := s.withDownloader (stuck.foldl BlockDownloader.clearFailedPeers s.downloader)
      (availablePeers.take maxPeersToUse).foldl (dispatchTo orders now) s

/-- The last request to a new peer is dated a minute back. -/
def onPeerConnected (peer : PeerId) (now : Int) : PeerDownloads :=
  { s with syncPeers := s.syncPeers.insert peer (now - 60000) }

def failAll (failed : List (ModifierId × PeerId)) : PeerDownloads :=
  s.withDownloader (failed.foldl (fun downloader (id, peer) => downloader.fail id peer) s.downloader)

def onPeerDisconnected (order : Iteration ModifierId PeerId) (peer : PeerId) : PeerDownloads :=
  { s with syncPeers := s.syncPeers.erase peer }.failAll
    ((s.downloader.getInFlightForPeer order peer).map fun id => (id, peer))

/-- The peers with too many timeouts in one tick. -/
def removeUnresponsive (timedOut : List (ModifierId × PeerId)) : PeerDownloads :=
  let responsive (peer : PeerId) : Bool := (timedOut.countP fun failed => failed.2 == peer) < maxTimeoutsPerTick
  { s with syncPeers := Entries.retain (fun peer _ => responsive peer) s.syncPeers }

def onTick (orders : DispatchOrders) (timedOut : DownloadTask → Bool) (now : Int) : PeerDownloads :=
  let failed := s.downloader.checkTimeouts orders.tasks timedOut
  let s := (s.failAll failed).removeUnresponsive failed
  { s with heights := s.heights.queueBlockDownloads.value }.dispatchDownloads orders now

def handleEvent (sr : SigmaRust) (interpreter : Interpreter) (orders : DispatchOrders) (now : Int) (event : SyncEvent) :
    PeerDownloads :=
  let s' := s.withProtocol (s.heights.protocol.handleEvent sr interpreter event).1
  match event with
  | .requestBlocks headers => if headers.isEmpty then s else s'.dispatchDownloads orders now
  | _ => s'

/-- Besides the events: headers that are requested from a peer, a header that is stored, and what is learned
of the heights. -/
inductive Action where
  | peerConnected (peer : PeerId) (now : Int)
  | peerDisconnected (order : Iteration ModifierId PeerId) (peer : PeerId)
  | tick (orders : DispatchOrders) (timedOut : DownloadTask → Bool) (now : Int)
  | event (orders : DispatchOrders) (now : Int) (event : SyncEvent)
  | headersRequested (peer : PeerId) (now : Int)
  | headerStored (header : Header)
  | heightsLearned (synchronizer : Synchronizer)

def Action.now (s : PeerDownloads) : Action → Int
  | .peerConnected _ now | .tick _ _ now | .event _ now _ | .headersRequested _ now => now
  | _ => s.clock

def perform (sr : SigmaRust) (interpreter : Interpreter) (s : PeerDownloads) : Action → PeerDownloads
  | .peerConnected peer now => s.onPeerConnected peer now
  | .peerDisconnected order peer => s.onPeerDisconnected order peer
  | .tick orders timedOut now => s.onTick orders timedOut now
  | .event orders now event => s.handleEvent sr interpreter orders now event
  | .headersRequested peer now =>
      { s with syncPeers := if peer ∈ s.syncPeers then s.syncPeers.insert peer now else s.syncPeers }
  | .headerStored header => s.withProtocol (s.heights.protocol.storeHeader sr header)
  | .heightsLearned synchronizer => { s with heights := { s.heights with synchronizer } }

/-- The clock does not go back. -/
def step (sr : SigmaRust) (interpreter : Interpreter) (s : PeerDownloads) (action : Action) : Option PeerDownloads :=
  if action.now s < s.clock then none
  else some { s.perform sr interpreter action with clock := action.now s }

end PeerDownloads
end ErgoNode
