import ErgoNode.Network.Message
import ErgoNode.Network.Handshake
import ErgoNode.Network.PeerManager

/-!
# The network service

Each connection is a task. It exchanges handshakes on the bare stream, enters the peer in the tables and then
passes on what the peer sends, and what is to be sent to the peer. The service starts these tasks and gives
them their messages. All of them take their steps in any order; what the stream and the clock do is part of a
step. Times are in nanoseconds.
-/

namespace ErgoNode
open Lib

/-! ### Addresses -/

namespace SocketAddr

def ipv4Text (ip : UInt32) : String :=
  ".".intercalate ((List.range 4).map fun i => toString (ip.toNat / 256 ^ (3 - i) % 256))

def segments (ip : BitVec 128) : List Nat := (List.range 8).map fun i => ip.toNat / 2 ^ (16 * (7 - i)) % 2 ^ 16

def longestZeros (segments : List Nat) : Nat × Nat :=
  (segments.zipIdx.foldl (fun ((longest, current) : (Nat × Nat) × (Nat × Nat)) (segment, i) =>
    if segment = 0 then
      let current := if current.2 = 0 then (i, 1) else (current.1, current.2 + 1)
      (if current.2 > longest.2 then current else longest, current)
    else (longest, (0, 0))) ((0, 0), (0, 0))).1

def segmentsText (segments : List Nat) : String :=
  ":".intercalate (segments.map fun segment => String.ofList (Nat.toDigits 16 segment))

/-- An IPv4 address that is mapped into IPv6 is written as such. -/
def ipv6Text (ip : BitVec 128) : String :=
  if ip.toNat / 2 ^ 32 = 0xFFFF then "::ffff:" ++ ipv4Text (UInt32.ofNat ip.toNat)
  else
    let (start, length) := longestZeros (segments ip)
    if length > 1 then
      segmentsText ((segments ip).take start) ++ "::" ++ segmentsText ((segments ip).drop (start + length))
    else segmentsText (segments ip)

def display : SocketAddr → String
  | v4 ip port => s!"{ipv4Text ip}:{port}"
  | v6 ip port _ scopeId =>
      if scopeId = 0 then s!"[{ipv6Text ip}]:{port}" else s!"[{ipv6Text ip}%{scopeId}]:{port}"

end SocketAddr

def PeerId.fromAddr (addr : SocketAddr) : PeerId := Utf8.encode addr.display

def PeerInfo.new (now : Nat) (addr : SocketAddr) : PeerInfo := ⟨.fromAddr addr, addr, .disconnected, .new now, now⟩

/-! ### Handshakes -/

def Handshake.new (agentName : String) (version : UInt8 × UInt8 × UInt8) (nodeName : String) : Handshake :=
  ⟨agentName, version, nodeName, none, []⟩

def HandshakeData.toHandshake (handshake : HandshakeData) : Handshake :=
  .new handshake.agentName handshake.version handshake.peerName

namespace HandshakeData

def new (time : UInt64) (agentName : String) (version : UInt8 × UInt8 × UInt8) (peerName : String) : HandshakeData :=
  ⟨time, agentName, version, peerName, none, []⟩

def withMainnetFeatures (sessionId : UInt64) (handshake : HandshakeData) : HandshakeData :=
  { handshake with
    features := handshake.features ++ [.mode 0 true none (-1), .session MessageCodec.mainnetMagic sessionId] }

end HandshakeData

def protocolVersion : UInt8 × UInt8 × UInt8 := (6, 0, 1)

structure NetworkConfig where
  magic : Octets 4
  agentName : String
  nodeName : String
  maxConnections : Nat

namespace NetworkConfig

def default : NetworkConfig := ⟨MessageCodec.mainnetMagic, "ergo-rust-node", "ergo-rust", 50⟩

def ourHandshake (time sessionId : UInt64) (config : NetworkConfig) : HandshakeData :=
  (HandshakeData.new time config.agentName protocolVersion config.nodeName).withMainnetFeatures sessionId

end NetworkConfig

/-! ### Events and commands -/

inductive NetworkEvent where
  | peerConnected (peerId : PeerId) (addr : SocketAddr) (handshake : Handshake)
  | peerDisconnected (peerId : PeerId)
  | messageReceived (peerId : PeerId) (message : Message)
  | connectionFailed (addr : SocketAddr) (error : String)
  deriving DecidableEq

inductive NetworkCommand where
  | connect (addr : SocketAddr)
  | disconnect (peerId : PeerId)
  | sendMessage (peerId : PeerId) (message : Message)
  | broadcast (message : Message)
  | shutdown
  deriving DecidableEq

/-! ### A connection -/

inductive StreamRead where
  | bytes (chunk : Bytes)
  | failed (reason : String)
  | timedOut

/-- A write that fails may have written the first of the bytes that it was given. -/
inductive StreamWrite where
  | done
  | failed (reason : String) (wrote : Nat)

namespace PeerConnection

inductive Stage where
  | connecting
  | greeting
  | handshaking (buffer : Bytes)
  | answering (theirs : HandshakeData)
  | registering (theirs : HandshakeData)
  | adding (theirs : HandshakeData) (info : PeerInfo)
  | marking (theirs : HandshakeData)
  | announcing (theirs : HandshakeData)
  | looping (buffer : Bytes)
  | delivering (message : Message) (buffer : Bytes)
  | removing
  | unmarking
  | leaving
  | failing (error : String)
  | finished
  | panicked
  deriving DecidableEq

inductive Effect where
  | quiet
  | register (info : PeerInfo)
  | addPeer (info : PeerInfo)
  | setState (state : PeerState)
  | unregister
  | emit (event : NetworkEvent)

inductive TaskStep where
  | proceed
  | connect (result : Except String Unit)
  | write (result : StreamWrite)
  | read (result : StreamRead)
  | send (result : StreamWrite)

end PeerConnection

/-- The inbox is the channel of the messages for the peer, `written` what the stream was given. The handshake is
made with the task. -/
structure PeerConnection where
  addr : SocketAddr
  outgoing : Bool
  ours : HandshakeData
  stage : PeerConnection.Stage
  inbox : List Message
  written : Bytes

namespace PeerConnection

def incoming (addr : SocketAddr) (ours : HandshakeData) : PeerConnection := ⟨addr, false, ours, .handshaking [], [], []⟩

def outbound (addr : SocketAddr) (ours : HandshakeData) : PeerConnection := ⟨addr, true, ours, .connecting, [], []⟩

variable (blake2b256 : Bytes → Digest32) (json : SerdeJson) (magic : Octets 4) (now : Nat) (connection : PeerConnection)

def peerId : PeerId := .fromAddr connection.addr

/-- An error of an incoming connection is only logged. -/
def fail (error : String) : Stage := if connection.outgoing then .failing error else .finished

/-- What `read_handshake` does between two reads. Bytes behind the handshake are dropped with the buffer. -/
def readHandshake (buffer : Bytes) : Stage :=
  if buffer.length > maxHandshakeSize then
    connection.fail (NetworkError.message (.invalidMessage "Handshake too large"))
  else if buffer.length > 10 then
    match HandshakeData.parse buffer with
    | .ok theirs => if connection.outgoing then .registering theirs else .answering theirs
    -- The task ends; it is not entered anywhere yet.
    | .error .panic => .finished
    | .error (.error _) => .handshaking buffer
  else .handshaking buffer

/-- A read gives at most 256 bytes. -/
def onHandshakeRead (buffer : Bytes) : StreamRead → Option Stage
  | .bytes [] => some (connection.fail "Connection closed")
  | .bytes chunk => if chunk.length ≤ 256 then some (connection.readHandshake (buffer ++ chunk)) else none
  | .failed reason => some (connection.fail s!"I/O error: {reason}")
  | .timedOut => some (connection.fail "Handshake failed: Handshake timeout")

def writeHandshake (next : Stage) : StreamWrite → PeerConnection
  | .done => { connection with stage := next, written := connection.written ++ connection.ours.serialize }
  | .failed reason wrote => { connection with
      stage := connection.fail s!"I/O error: {reason}"
      written := connection.written ++ connection.ours.serialize.take wrote }

def nextFrame (buffer : Bytes) : Option Stage :=
  match (MessageCodec.withMagic magic).decode blake2b256 json buffer with
  | (.ok (some message), rest) => some (.delivering message rest)
  | (.ok none, _) => none
  | (.error .panic, _) => some .panicked
  | (.error (.error _), _) => some .removing

def onFrameRead (buffer : Bytes) : StreamRead → Option Stage
  | .bytes [] => some .removing
  | .bytes chunk => some (.looping (buffer ++ chunk))
  | .failed _ => some .removing
  | .timedOut => none

def sendNext (buffer : Bytes) (result : StreamWrite) : Option PeerConnection :=
  match connection.inbox with
  | [] => none
  | message :: inbox =>
      match (MessageCodec.withMagic magic).encode blake2b256 json message, result with
      | .ok frame, .done => some { connection with stage := .looping buffer, inbox, written := connection.written ++ frame }
      | .ok frame, .failed _ wrote =>
          some { connection with stage := .removing, inbox, written := connection.written ++ frame.take wrote }
      | .error _, _ => some { connection with stage := .removing, inbox }

def next : TaskStep → Option (PeerConnection × Effect)
  | .connect result =>
      match connection.stage, result with
      | .connecting, .ok () => some ({ connection with stage := .greeting }, .quiet)
      | .connecting, .error reason => some ({ connection with stage := .failing reason }, .quiet)
      | _, _ => none
  | .write result =>
      match connection.stage with
      | .greeting => some (connection.writeHandshake (.handshaking []) result, .quiet)
      | .answering theirs => some (connection.writeHandshake (.registering theirs) result, .quiet)
      | _ => none
  | .read result =>
      match connection.stage with
      | .handshaking buffer =>
          (connection.onHandshakeRead buffer result).map fun stage => ({ connection with stage }, .quiet)
      | .looping buffer =>
          match nextFrame blake2b256 json magic buffer with
          | none => (onFrameRead buffer result).map fun stage => ({ connection with stage }, .quiet)
          | some _ => none
      | _ => none
  | .send result =>
      match connection.stage with
      | .looping buffer => (connection.sendNext blake2b256 json magic buffer result).map fun after => (after, .quiet)
      | _ => none
  | .proceed =>
      match connection.stage with
      | .registering theirs =>
          let info := PeerInfo.new now connection.addr
          some ({ connection with stage := .adding theirs info }, .register info)
      | .adding theirs info => some ({ connection with stage := .marking theirs }, .addPeer info)
      | .marking theirs => some ({ connection with stage := .announcing theirs }, .setState .connected)
      | .announcing theirs =>
          some ({ connection with stage := .looping [] },
            .emit (.peerConnected connection.peerId connection.addr theirs.toHandshake))
      | .looping buffer =>
          (nextFrame blake2b256 json magic buffer).map fun stage => ({ connection with stage }, .quiet)
      | .delivering message buffer =>
          some ({ connection with stage := .looping buffer }, .emit (.messageReceived connection.peerId message))
      | .removing => some ({ connection with stage := .unmarking }, .unregister)
      | .unmarking => some ({ connection with stage := .leaving }, .setState .disconnected)
      | .leaving => some ({ connection with stage := .finished }, .emit (.peerDisconnected connection.peerId))
      | .failing error => some ({ connection with stage := .finished }, .emit (.connectionFailed connection.addr error))
      | _ => none

end PeerConnection

/-! ### The service -/

structure PeerHandle where
  tx : Nat
  info : PeerInfo

inductive Sending where
  | toPeer (peerId : PeerId) (message : Message)
  | into (tx : Nat) (message : Message)

structure NetworkService where
  config : NetworkConfig
  peerManager : PeerManager
  peers : Table PeerId PeerHandle
  connections : List PeerConnection
  sending : List Sending
  commands : List NetworkCommand
  events : List NetworkEvent
  running : Bool

namespace NetworkService

def eventCapacity : Nat := 1000

def commandCapacity : Nat := 100

def inboxCapacity : Nat := 100

def new (config : NetworkConfig) (peerManager : PeerManager) : NetworkService := ⟨config, peerManager, ∅, [], [], [], [], true⟩

inductive Action where
  | accept (addr : SocketAddr) (time sessionId : UInt64)
  | command (time sessionId : UInt64) (order : Iteration PeerId PeerHandle)
  | send
  | cleanup (now : Nat)
  | task (index now : Nat) (step : PeerConnection.TaskStep)

variable (blake2b256 : Bytes → Digest32) (json : SerdeJson) (s : NetworkService)

def start (connection : PeerConnection) : NetworkService :=
  if s.peers.entries.length ≥ s.config.maxConnections then s
  else { s with connections := s.connections ++ [connection] }

def handleCommand (time sessionId : UInt64) (order : Iteration PeerId PeerHandle) : NetworkCommand → NetworkService
  | .connect addr => s.start (.outbound addr (s.config.ourHandshake time sessionId))
  | .disconnect peerId => { s with peers := s.peers.erase peerId }
  | .sendMessage peerId message => { s with sending := [.toPeer peerId message] }
  | .broadcast message => { s with sending := (order.entries s.peers).map fun entry => .toPeer entry.1 message }
  | .shutdown => { s with running := false }

/-- A message for a task that has ended is dropped. -/
def deliver (tx : Nat) (message : Message) : Option NetworkService :=
  match s.connections[tx]? with
  | none => some s
  | some connection =>
      if connection.stage = .finished ∨ connection.stage = .panicked then some s
      else if connection.inbox.length < inboxCapacity then
        some { s with connections := s.connections.set tx { connection with inbox := connection.inbox ++ [message] } }
      else none

def sendNext : Option NetworkService :=
  match s.sending with
  | [] => none
  | .toPeer peerId message :: rest =>
      match s.peers.lookup peerId with
      | some handle => some { s with sending := .into handle.tx message :: rest }
      | none => some { s with sending := rest }
  | .into tx message :: rest => { s with sending := rest }.deliver tx message

/-- An event waits for room in the channel. -/
def perform (index now : Nat) (peerId : PeerId) : PeerConnection.Effect → Option NetworkService
  | .quiet => some s
  | .register info => some { s with peers := s.peers.insert peerId ⟨index, info⟩ }
  | .addPeer info => some { s with peerManager := s.peerManager.addPeer info }
  | .setState state => some { s with peerManager := s.peerManager.setState now peerId state }
  | .unregister => some { s with peers := s.peers.erase peerId }
  | .emit event => if s.events.length < eventCapacity then some { s with events := s.events ++ [event] } else none

def stepTask (index now : Nat) (step : PeerConnection.TaskStep) : Option NetworkService := do
  let connection ← s.connections[index]?
  let (after, effect) ← connection.next blake2b256 json s.config.magic now step
  { s with connections := s.connections.set index after }.perform index now connection.peerId effect

/-- While it sends, the service does nothing else. -/
def step : Action → Option NetworkService
  | .accept addr time sessionId =>
      if s.running ∧ s.sending.isEmpty then some (s.start (.incoming addr (s.config.ourHandshake time sessionId))) else none
  | .command time sessionId order =>
      match s.commands with
      | command :: commands =>
          if s.running ∧ s.sending.isEmpty then some ({ s with commands }.handleCommand time sessionId order command) else none
      | [] => none
  | .send => if s.running then s.sendNext else none
  | .cleanup now =>
      if s.running ∧ s.sending.isEmpty then some { s with peerManager := s.peerManager.cleanupExpiredBans now } else none
  | .task index now step => s.stepTask blake2b256 json index now step

end NetworkService

/-! ### A stream between two connections -/

/-- One of two connections reads what the other one writes. `given` are the messages that the writing one was given
for its peer, `passed` are those that the reading one has passed on. -/
structure Pipe where
  sender : PeerConnection
  receiver : PeerConnection
  flight : Bytes
  given : List Message
  passed : List Message

namespace Pipe
open PeerConnection

def start (sender receiver : PeerConnection) : Pipe := ⟨sender, receiver, [], [], []⟩

inductive Action where
  | give (message : Message)
  | sender (now : Nat) (step : TaskStep)
  | receiver (now : Nat) (step : TaskStep)

def passedOn : Effect → List Message
  | .emit (.messageReceived _ message) => [message]
  | _ => []

variable (blake2b256 : Bytes → Digest32) (json : SerdeJson) (magic : Octets 4) (pipe : Pipe)

/-- What a step of the reading connection leaves in flight. Bytes arrive in order, as many at once as it happens. -/
def arrive : TaskStep → Option Bytes
  | .read (.bytes chunk) => if chunk <+: pipe.flight then some (pipe.flight.drop chunk.length) else none
  | _ => some pipe.flight

def step : Action → Option Pipe
  | .give message =>
      if pipe.sender.inbox.length < NetworkService.inboxCapacity then
        some { pipe with
          sender := { pipe.sender with inbox := pipe.sender.inbox ++ [message] }
          given := pipe.given ++ [message] }
      else none
  | .sender now step => do
      let (after, _) ← pipe.sender.next blake2b256 json magic now step
      some { pipe with sender := after, flight := pipe.flight ++ after.written.drop pipe.sender.written.length }
  | .receiver now step => do
      let flight ← pipe.arrive step
      let (after, effect) ← pipe.receiver.next blake2b256 json magic now step
      some { pipe with receiver := after, flight, passed := pipe.passed ++ passedOn effect }

end Pipe
end ErgoNode
