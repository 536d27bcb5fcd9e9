import ErgoNode.Network.Peer

/-!
# The handshake

What two peers tell each other first, on the bare stream: the time, and what a peer specification has.
The bytes say nowhere how many they are. The reader tries to parse what it has after every read.
-/

namespace ErgoNode
open Lib

def maxHandshakeSize : Nat := 8096

structure HandshakeData where
  time : UInt64
  agentName : String
  version : UInt8 × UInt8 × UInt8
  peerName : String
  declaredAddr : Option DeclaredAddress
  features : List PeerFeature
  deriving DecidableEq

def PeerSpec.fromHandshake (handshake : HandshakeData) : PeerSpec :=
  ⟨handshake.agentName, handshake.version, handshake.peerName, handshake.declaredAddr, handshake.features⟩

namespace HandshakeData

/-! ### Numbers -/

def vlqEncode (value : UInt64) : Bytes := Vlq.encode value.toNat

def vlqEncodeSigned (value : Int64) : Bytes := vlqEncode (Vlq.zigZag value)

def vlqDecode (data : Bytes) (pos : Nat) : NetworkResult (Nat × Nat) := (Vlq.decodeAt data pos).mapError vlqFault

def vlqDecodeSigned (data : Bytes) (pos : Nat) : NetworkResult (Int64 × Nat) := do
  let (encoded, newPos) ← vlqDecode data pos
  return (Vlq.unZigZag (UInt64.ofNat encoded), newPos)

/-! ### The bytes of a handshake -/

def serialize (handshake : HandshakeData) : Bytes :=
  Vlq.encode handshake.time.toNat ++ (PeerSpec.fromHandshake handshake).serialize

def read : Read NetworkError HandshakeData := do
  let time ← readVlq
  let agentName ← readShortString "Truncated handshake" "Truncated agent name"
  let version ← readVersion
  let peerName ← readShortString "Truncated handshake" "Truncated peer name"
  let declaredAddr ← readDeclaredAddr
  let features ← readFeatures
  return ⟨UInt64.ofNat time, agentName, version, peerName, declaredAddr, features⟩

def parse (data : Bytes) : Except (Stop NetworkError) HandshakeData :=
  if data.length > maxHandshakeSize then
    .error (.error (.invalidMessage s!"Handshake too large: {data.length} > {maxHandshakeSize}"))
  else (read.exec ⟨0, data⟩).result.map Prod.fst

end HandshakeData

inductive HandshakeError where
  | network (cause : NetworkError)
  | connectionClosed
  deriving DecidableEq

structure HandshakeCodec where
  handshakeComplete : Bool
  buffer : Bytes

structure HandshakeRead where
  result : Except (Stop HandshakeError) HandshakeData
  codec : HandshakeCodec
  reads : List Bytes

namespace HandshakeCodec

def new : HandshakeCodec := ⟨false, []⟩

/-- Bytes that do not parse may be too few: the reader goes on to `more`. -/
def tryParse (codec : HandshakeCodec) (reads : List Bytes) (more : HandshakeRead) : HandshakeRead :=
  match HandshakeData.parse codec.buffer with
  | .ok handshake => ⟨.ok handshake, { codec with handshakeComplete := true }, reads⟩
  | .error .panic => ⟨.error .panic, codec, reads⟩
  | .error (.error _) => more

/-- The stream as the reads find it, each of at most 1024 bytes; an empty read is its end. -/
def readHandshake (codec : HandshakeCodec) : List Bytes → HandshakeRead
  | [] =>
      let received : HandshakeRead :=
        if codec.buffer.length > maxHandshakeSize then
          ⟨.error (.error (.network (.invalidMessage "Handshake too large"))), codec, []⟩
        else ⟨.error (.error .connectionClosed), codec, []⟩
      if codec.buffer ≠ [] then codec.tryParse [] received else received
  | buf :: reads =>
      let received : HandshakeRead :=
        if codec.buffer.length > maxHandshakeSize then
          ⟨.error (.error (.network (.invalidMessage "Handshake too large"))), codec, buf :: reads⟩
        else if buf = [] then ⟨.error (.error .connectionClosed), codec, reads⟩
        else
          let next := { codec with buffer := codec.buffer ++ buf }
          next.tryParse reads (readHandshake next reads)
      if codec.buffer ≠ [] then codec.tryParse (buf :: reads) received else received

end HandshakeCodec
end ErgoNode
