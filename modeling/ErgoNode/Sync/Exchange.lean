import ErgoNode.Sync.Heights

/-!
# The sync protocol: SyncInfos

What a node makes of the headers that a peer lists, and when it answers with its own. Two nodes that are
connected take each other's SyncInfos in the order in which they were sent, however late.
-/

namespace ErgoNode
open Lib

inductive PeerChainStatus where
  | unknown | younger | older | fork | equal
  deriving DecidableEq

/-- The times of the last SyncInfos are in milliseconds; requests for modifiers are not modelled here. -/
structure PeerSyncState where
  height : Nat
  lastSyncSent : Int
  lastSyncReceived : Int
  chainStatus : PeerChainStatus

namespace PeerSyncState

def minSyncInterval : Int := 5000

def perPeerSyncLockTime : Int := 100

/-- The last SyncInfos of a new peer are dated a minute back. -/
def new (now : Int) : PeerSyncState := ⟨0, now - 60000, now - 60000, .unknown⟩

variable (now : Int) (state : PeerSyncState)

def canSendSync : Bool := now - state.lastSyncSent ≥ minSyncInterval

def canProcessSync : Bool := now - state.lastSyncReceived ≥ perPeerSyncLockTime

def shouldSendSyncResponse (oldStatus newStatus : PeerChainStatus) : Bool :=
  if oldStatus ≠ newStatus then true
  else if newStatus = .older ∨ newStatus = .fork then true
  else state.canSendSync now

end PeerSyncState

/-- Our best headers are the ids that the node was started with. -/
structure SyncExchange where
  heights : SyncHeights
  ourBestHeaders : List Bytes
  syncPeers : Table PeerId PeerSyncState
  sent : List (PeerId × SyncInfo)

namespace SyncExchange
open PeerSyncState
variable (sr : SigmaRust) (now : Int) (s : SyncExchange)

def new : SyncExchange := ⟨.new, [], ∅, []⟩

def sendSyncInfo (peer : PeerId) : SyncExchange := { s with sent := s.sent ++ [(peer, s.heights.buildV2SyncInfo sr)] }

/-- Of a peer that is not among the sync peers nothing is kept. -/
def updatePeer (peer : PeerId) (update : PeerSyncState → PeerSyncState) : SyncExchange :=
  match s.syncPeers.lookup peer with
  | some state => { s with syncPeers := s.syncPeers.insert peer (update state) }
  | none => s

def onPeerConnected (peer : PeerId) : SyncExchange :=
  { s with syncPeers := s.syncPeers.insert peer { PeerSyncState.new now with lastSyncSent := now } }.sendSyncInfo sr peer

def removePeer (peer : PeerId) : SyncExchange :=
  { s with
    syncPeers := s.syncPeers.erase peer
    heights := { s.heights with synchronizer := s.heights.synchronizer.removePeer peer } }

def onPeerDisconnected (peer : PeerId) : SyncExchange := s.removePeer peer

/-- The ids that are listed, and the greatest height if the headers are there. A header that cannot be parsed
is left out. -/
def listedHeaders (info : SyncInfo) : List Bytes × Option Nat :=
  if info.isV2 then
    let headers := info.lastHeaders.filterMap fun bytes => (sr.parseHeader bytes).toOption
    (headers.map fun header => header.id.bytes, (headers.map Header.height).max?)
  else (info.lastHeaderIds, none)

def estimatedHeight (peer : PeerId) (info : SyncInfo) : Nat :=
  (listedHeaders sr info).2.getD ((s.syncPeers.lookup peer).elim 0 PeerSyncState.height)

def chainStatus (peer : PeerId) (info : SyncInfo) : PeerChainStatus :=
  let height := s.estimatedHeight sr peer info
  let ourHeight := (s.heights.headers.getLast?.map Header.height).getD 0
  if height = 0 ∧ ourHeight = 0 then .unknown
  else if height > ourHeight then .older
  else if height < ourHeight then .younger
  else if (listedHeaders sr info).1.any s.ourBestHeaders.contains then .equal
  else .fork

def ignores (peer : PeerId) : Bool := (s.syncPeers.lookup peer).any fun state => !state.canProcessSync now

/-- A peer that is not among the sync peers is always answered. -/
def shouldAnswer (peer : PeerId) (info : SyncInfo) : Bool :=
  (s.syncPeers.lookup peer).all fun state =>
    state.shouldSendSyncResponse now state.chainStatus (s.chainStatus sr peer info)

def recordSyncInfo (peer : PeerId) (info : SyncInfo) : SyncExchange :=
  let height := s.estimatedHeight sr peer info
  let newStatus := s.chainStatus sr peer info
  let heights := { s.heights with synchronizer := s.heights.synchronizer.setPeerHeight peer height }
  { s.updatePeer peer fun state => { state with height, lastSyncReceived := now, chainStatus := newStatus } with heights }

def sendDated (peer : PeerId) : SyncExchange :=
  (s.updatePeer peer fun state => { state with lastSyncSent := now }).sendSyncInfo sr peer

def onSyncInfo (peer : PeerId) (info : SyncInfo) : SyncExchange :=
  if s.ignores now peer then s
  else if s.shouldAnswer sr now peer info then (s.recordSyncInfo sr now peer info).sendDated sr now peer
  else s.recordSyncInfo sr now peer info

def findPeerForSync (order : Iteration PeerId PeerSyncState) : Option PeerId :=
  ((order.entries s.syncPeers).find? fun entry => entry.2.canSendSync now).map Prod.fst

/-- The part of a tick that takes out the peers with too many timeouts. They stay connected. -/
def removeUnresponsive (peers : List PeerId) : SyncExchange := peers.foldl removePeer s

def requestMoreHeaders (order : Iteration PeerId PeerSyncState) : SyncExchange :=
  match s.findPeerForSync now order with
  | some peer => s.sendDated sr now peer
  | none => s

inductive Action where
  | peerConnected (peer : PeerId)
  | peerDisconnected (peer : PeerId)
  | syncInfo (peer : PeerId) (info : SyncInfo)
  | unresponsive (peers : List PeerId)
  | tick (order : Iteration PeerId PeerSyncState)
  | headersChanged (heights : SyncHeights) (ourBestHeaders : List Bytes)

def perform : Action → SyncExchange
  | .peerConnected peer => s.onPeerConnected sr now peer
  | .peerDisconnected peer => s.onPeerDisconnected peer
  | .syncInfo peer info => s.onSyncInfo sr now peer info
  | .unresponsive peers => s.removeUnresponsive peers
  | .tick order => s.requestMoreHeaders sr now order
  | .headersChanged heights ourBestHeaders => { s with heights, ourBestHeaders }

end SyncExchange

/-! ### Two nodes -/

inductive Side where
  | first | second
  deriving DecidableEq

def Side.other : Side → Side
  | first => second
  | second => first

/-- Two nodes, and what each of them was sent by the other and has not received. -/
structure SyncLink where
  node : Side → SyncExchange
  inbox : Side → List SyncInfo
  clock : Int

namespace SyncLink

inductive Action where
  | deliver (side : Side)
  | perform (side : Side) (action : SyncExchange.Action)

def sentTo (peer : PeerId) (before after : SyncExchange) : List SyncInfo :=
  ((after.sent.drop before.sent.length).filter fun message => message.1 == peer).map Prod.snd

variable (sr : SigmaRust) (peer : Side → PeerId)

def moveNode (link : SyncLink) (now : Int) (side : Side) (action : SyncExchange.Action) : SyncLink where
  node := Function.update link.node side ((link.node side).perform sr now action)
  inbox := Function.update link.inbox side.other (link.inbox side.other ++
    sentTo (peer side.other) (link.node side) ((link.node side).perform sr now action))
  clock := now

def step (link : SyncLink) : Int × Action → Option SyncLink
  | (now, .deliver side) =>
      match link.inbox side with
      | info :: rest =>
          if now < link.clock then none
          else some ({ link with inbox := Function.update link.inbox side rest }.moveNode sr peer now side
            (.syncInfo (peer side.other) info))
      | [] => none
  | (now, .perform side action) =>
      match action with
      | .syncInfo sender _ => if now < link.clock ∨ sender = peer side.other then none
          else some (link.moveNode sr peer now side action)
      | _ => if now < link.clock then none else some (link.moveNode sr peer now side action)

end SyncLink
end ErgoNode
