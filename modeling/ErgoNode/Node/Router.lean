import ErgoNode.Lib.BigEndian
import ErgoNode.Network.Service
import ErgoNode.Sync.Exchange

/-!
# The event router

The router takes the events of the network one after the other. It keeps who is connected, whom to try again and
when, and of whom it has heard; it answers requests for peers, and passes the rest on to the sync protocol. Times
are in nanoseconds; a turn reads the clock once.
-/

namespace ErgoNode
open Lib

/-! ### Reconnecting -/

structure ReconnectInfo where
  addr : SocketAddr
  attempts : Nat
  lastAttempt : Nat
  nextAttempt : Nat
  deriving DecidableEq

namespace ReconnectInfo

def new (now : Nat) (addr : SocketAddr) : ReconnectInfo := ⟨addr, 0, now, now⟩

def backoffDuration (info : ReconnectInfo) : Nat := min (5 * 2 ^ min info.attempts 6) 300 * 10 ^ 9

def markFailed (now : Nat) (info : ReconnectInfo) : ReconnectInfo :=
  let info := { info with attempts := info.attempts + 1, lastAttempt := now }
  { info with nextAttempt := now + info.backoffDuration }

def canAttempt (now : Nat) (info : ReconnectInfo) : Bool := now ≥ info.nextAttempt

end ReconnectInfo

def maxReconnectAttempts : Nat := 10

/-! ### The router -/

namespace EventRouter

inductive SyncEvent where
  | peerConnected (peer : PeerId)
  | peerDisconnected (peer : PeerId)
  | syncInfoReceived (peer : PeerId) (info : SyncInfo)
  | invReceived (peer : PeerId) (inv : InvData)
  | modifierReceived (peer : PeerId) (typeId : UInt8) (id data : Bytes)
  | tick
  | blocks (event : ErgoNode.SyncEvent)
  deriving DecidableEq

/-- What the router sends: it waits for room, or gives the events up where there is none. -/
inductive Outgoing where
  | command (command : NetworkCommand)
  | sync (event : SyncEvent)
  | trySync (events : List SyncEvent)
  deriving DecidableEq

end EventRouter

structure EventRouter where
  peerAddresses : Table PeerId SocketAddr
  peerHandshakes : Table PeerId Handshake
  reconnectQueue : Table SocketAddr ReconnectInfo
  discoveredPeers : Table SocketAddr Unit

namespace SocketAddr

def ip : SocketAddr → IpAddr
  | v4 ip _ => .v4 ⟨BigEndian.write 4 ip.toNat, BigEndian.length_write 4 _⟩
  | v6 ip _ _ _ => .v6 ⟨BigEndian.write 16 ip.toNat, BigEndian.length_write 16 _⟩

def port : SocketAddr → UInt16
  | v4 _ port => port
  | v6 _ port _ _ => port

def new (ip : IpAddr) (port : UInt16) : SocketAddr :=
  match ip with
  | .v4 octets => v4 (UInt32.ofNat (BigEndian.read octets.bytes)) port
  | .v6 octets => v6 (BitVec.ofNat 128 (BigEndian.read octets.bytes)) port 0 0

end SocketAddr

namespace EventRouter

def new : EventRouter := ⟨∅, ∅, ∅, ∅⟩

def minConnections : Nat := 3

def maxConnections : Nat := 25

def maxSharedPeers : Nat := 20

variable (now : Nat) (router : EventRouter)

def isConnected (addr : SocketAddr) : Bool := router.peerAddresses.entries.any fun entry => entry.2 = addr

/-! ### Messages -/

def sharedPeer (addr : SocketAddr) (handshake : Handshake) : PeerSpec :=
  ⟨handshake.agentName, handshake.version, handshake.nodeName, some ⟨addr.ip, addr.port⟩, []⟩

def knownPeers (order : Iteration PeerId SocketAddr) (peerId : PeerId) : List PeerSpec :=
  (((order.entries router.peerAddresses).filter fun entry => entry.1 ≠ peerId).filterMap fun (id, addr) =>
    (router.peerHandshakes.lookup id).map (sharedPeer addr)).take maxSharedPeers

def discover (spec : PeerSpec) : EventRouter :=
  match spec.declaredAddr with
  | none => router
  | some declared =>
      let addr := SocketAddr.new declared.ip declared.port
      if router.isConnected addr then router
      else { router with discoveredPeers := router.discoveredPeers.insert addr () }

/-- Requests for modifiers and everything about snapshots is ignored. -/
def handleMessage (order : Iteration PeerId SocketAddr) (peerId : PeerId) : Message → EventRouter × List Outgoing
  | .syncInfo info => (router, [.trySync [.syncInfoReceived peerId info]])
  | .inv inv => (router, [.trySync [.invReceived peerId inv]])
  | .modifier data =>
      (router, [.trySync (data.modifiers.map fun item => .modifierReceived peerId data.typeId item.id item.data)])
  | .getPeers =>
      let specs := router.knownPeers order peerId
      (router, if specs.isEmpty then [] else [.command (.sendMessage peerId (.peers specs))])
  | .peers specs => (specs.foldl discover router, [])
  | _ => (router, [])

/-! ### Events -/

def onPeerConnected (peerId : PeerId) (addr : SocketAddr) (handshake : Handshake) : EventRouter where
  peerAddresses := router.peerAddresses.insert peerId addr
  peerHandshakes := router.peerHandshakes.insert peerId handshake
  reconnectQueue := router.reconnectQueue.erase addr
  discoveredPeers := router.discoveredPeers.erase addr

def onPeerDisconnected (peerId : PeerId) : EventRouter :=
  let router := match router.peerAddresses.lookup peerId with
    | some addr =>
        { router with
          peerAddresses := router.peerAddresses.erase peerId
          reconnectQueue := match router.reconnectQueue.lookup addr with
            | some _ => router.reconnectQueue
            | none => router.reconnectQueue.insert addr (.new now addr) }
    | none => router
  { router with peerHandshakes := router.peerHandshakes.erase peerId }

def onConnectionFailed (addr : SocketAddr) : EventRouter :=
  { router with
    reconnectQueue := router.reconnectQueue.insert addr
      (((router.reconnectQueue.lookup addr).getD (.new now addr)).markFailed now) }

def onEvent (order : Iteration PeerId SocketAddr) : NetworkEvent → EventRouter × List Outgoing
  | .peerConnected peerId addr handshake =>
      (router.onPeerConnected peerId addr handshake,
        [.command (.sendMessage peerId .getPeers), .sync (.peerConnected peerId)])
  | .peerDisconnected peerId => (router.onPeerDisconnected now peerId, [.sync (.peerDisconnected peerId)])
  | .messageReceived peerId message => router.handleMessage order peerId message
  | .connectionFailed addr _ => (router.onConnectionFailed now addr, [])

/-! ### Trying again -/

def retries (order : Iteration SocketAddr ReconnectInfo) : List SocketAddr :=
  ((order.entries router.reconnectQueue).filter fun (_, info) =>
    info.attempts < maxReconnectAttempts && info.canAttempt now).map Prod.fst

def retryPeers (order : Iteration SocketAddr ReconnectInfo) : EventRouter × List SocketAddr :=
  if router.peerAddresses.entries.length < minConnections then
    ({ router with
      reconnectQueue := Entries.retain (fun _ info => info.attempts < maxReconnectAttempts) router.reconnectQueue },
      router.retries now order)
  else (router, [])

def tryDiscovered (order : Iteration SocketAddr Unit) : EventRouter × List SocketAddr :=
  if router.peerAddresses.entries.length < maxConnections then
    let tried := (((order.entries router.discoveredPeers).map Prod.fst).filter fun addr =>
      !router.isConnected addr && (router.reconnectQueue.lookup addr).isNone).take 3
    ({ router with discoveredPeers := tried.foldl (fun discovered addr => discovered.erase addr) router.discoveredPeers }, tried)
  else (router, [])

def onReconnectTick (queueOrder : Iteration SocketAddr ReconnectInfo) (discoveredOrder : Iteration SocketAddr Unit) :
    EventRouter × List Outgoing :=
  let (router, again) := router.retryPeers now queueOrder
  let (router, discovered) := router.tryDiscovered discoveredOrder
  (router, (again ++ discovered).map fun addr => .command (.connect addr))

end EventRouter

/-! ### Service, router and sync protocol -/

/-- The router's channels lead to the service and to the sync protocol, of which the exchange of SyncInfos is
modelled here. -/
structure NetworkStack where
  service : NetworkService
  router : EventRouter
  outgoing : List EventRouter.Outgoing
  toSync : List EventRouter.SyncEvent
  exchange : SyncExchange

namespace NetworkStack
open EventRouter

def syncCapacity : Nat := 50000

def new (config : NetworkConfig) (peerManager : PeerManager) (knownPeers : List SocketAddr) : NetworkStack where
  service := { NetworkService.new config peerManager with commands := knownPeers.map .connect }
  router := .new
  outgoing := []
  toSync := []
  exchange := .new

/-- `relay` is what the sync protocol has the router send to peers, `report` what became of its blocks. A tick of
the sync protocol may find peers unresponsive, and that it needs more headers. -/
inductive Action where
  | service (action : NetworkService.Action)
  | event (now : Nat) (order : Iteration PeerId SocketAddr)
  | reconnect (now : Nat) (queueOrder : Iteration SocketAddr ReconnectInfo) (discoveredOrder : Iteration SocketAddr Unit)
  | tick
  | relay (peer : Option PeerId) (message : Message)
  | report (event : ErgoNode.SyncEvent)
  | dispatch
  | sync (now : Int) (unresponsive : List PeerId) (more : Option (Iteration PeerId PeerSyncState))
  | headersChanged (heights : SyncHeights) (ourBestHeaders : List Bytes)

variable (blake2b256 : Bytes → Digest32) (json : SerdeJson) (sr : SigmaRust) (s : NetworkStack)

def begin (turn : EventRouter × List Outgoing) : NetworkStack := { s with router := turn.1, outgoing := turn.2 }

/-- The rest of a batch is given up with the first event that finds no room. -/
def dispatch : Option NetworkStack :=
  match s.outgoing with
  | [] => none
  | .command command :: rest =>
      if s.service.commands.length < NetworkService.commandCapacity then
        some { s with service := { s.service with commands := s.service.commands ++ [command] }, outgoing := rest }
      else none
  | .sync event :: rest =>
      if s.toSync.length < syncCapacity then some { s with toSync := s.toSync ++ [event], outgoing := rest } else none
  | .trySync [] :: rest => some { s with outgoing := rest }
  | .trySync (event :: events) :: rest =>
      if s.toSync.length < syncCapacity then
        some { s with toSync := s.toSync ++ [event], outgoing := .trySync events :: rest }
      else some { s with outgoing := rest }

def onSyncEvent (now : Int) (unresponsive : List PeerId) (more : Option (Iteration PeerId PeerSyncState)) :
    EventRouter.SyncEvent → SyncExchange
  | .peerConnected peer => s.exchange.perform sr now (.peerConnected peer)
  | .peerDisconnected peer => s.exchange.perform sr now (.peerDisconnected peer)
  | .syncInfoReceived peer info => s.exchange.perform sr now (.syncInfo peer info)
  | .tick =>
      let exchange := s.exchange.perform sr now (.unresponsive unresponsive)
      more.elim exchange fun order => exchange.perform sr now (.tick order)
  | _ => s.exchange

def step : Action → Option NetworkStack
  | .service action => (s.service.step blake2b256 json action).map fun service => { s with service }
  | .event now order =>
      match s.outgoing, s.service.events with
      | [], event :: events =>
          some ({ s with service := { s.service with events } }.begin (s.router.onEvent now order event))
      | _, _ => none
  | .reconnect now queueOrder discoveredOrder =>
      if s.outgoing.isEmpty then some (s.begin (s.router.onReconnectTick now queueOrder discoveredOrder)) else none
  | .tick => if s.outgoing.isEmpty then some (s.begin (s.router, [.trySync [.tick]])) else none
  | .relay peer message =>
      if s.outgoing.isEmpty then
        some (s.begin (s.router, [.command (peer.elim (.broadcast message) fun peer => .sendMessage peer message)]))
      else none
  | .report event => if s.outgoing.isEmpty then some (s.begin (s.router, [.sync (.blocks event)])) else none
  | .dispatch => s.dispatch
  | .sync now unresponsive more =>
      match s.toSync with
      | [] => none
      | event :: toSync => some { s with toSync, exchange := s.onSyncEvent sr now unresponsive more event }
  | .headersChanged heights ourBestHeaders =>
      some { s with exchange := s.exchange.perform sr 0 (.headersChanged heights ourBestHeaders) }

end NetworkStack
end ErgoNode
