import ErgoNode.Lib.Framing
import ErgoNode.Network.Peer

/-!
# Peer-to-peer messages

The messages, their bytes, and how bytes are decoded. Handshakes are JSON texts: serializing and
parsing these is third-party code. A count or length on the wire is the peer's word; a decoder asks
for room for as many entries before it has read them.
-/

namespace ErgoNode
open Lib

inductive MessageType where
  | getPeers
  | peers
  | handshake
  | syncInfo
  | inv
  | requestModifier
  | modifier
  | getSnapshotsInfo
  | snapshotsInfo
  | getManifest
  | manifest
  | getUtxoSnapshotChunk
  | utxoSnapshotChunk
  deriving DecidableEq

namespace MessageType

def toByte : MessageType → UInt8
  | getPeers => 1
  | peers => 2
  | handshake => 75
  | syncInfo => 65
  | inv => 55
  | requestModifier => 22
  | modifier => 33
  | getSnapshotsInfo => 76
  | snapshotsInfo => 77
  | getManifest => 78
  | manifest => 79
  | getUtxoSnapshotChunk => 80
  | utxoSnapshotChunk => 81

def ofByte (value : UInt8) : NetworkResult MessageType :=
  if value = 1 then .ok getPeers
  else if value = 2 then .ok peers
  else if value = 75 then .ok handshake
  else if value = 65 then .ok syncInfo
  else if value = 55 then .ok inv
  else if value = 22 then .ok requestModifier
  else if value = 33 then .ok modifier
  else if value = 76 then .ok getSnapshotsInfo
  else if value = 77 then .ok snapshotsInfo
  else if value = 78 then .ok getManifest
  else if value = 79 then .ok manifest
  else if value = 80 then .ok getUtxoSnapshotChunk
  else if value = 81 then .ok utxoSnapshotChunk
  else .error (.invalidMessage s!"Unknown message type: {value}")

theorem ofByte_toByte (type : MessageType) : ofByte type.toByte = .ok type := by
  cases type <;> rfl

end MessageType

structure Handshake where
  agentName : String
  version : UInt8 × UInt8 × UInt8
  nodeName : String
  declaredAddr : Option String
  features : Bytes
  deriving DecidableEq

/-- `lastHeaderIds` are sent in the first format, `lastHeaders` in the second. -/
structure SyncInfo where
  lastHeaderIds : List Bytes
  lastHeaders : List Bytes
  deriving DecidableEq

structure InvData where
  typeId : UInt8
  ids : List Bytes
  deriving DecidableEq

structure ModifierRequest where
  typeId : UInt8
  ids : List Bytes
  deriving DecidableEq

structure ModifierItem where
  id : Bytes
  data : Bytes
  deriving DecidableEq

structure ModifierData where
  typeId : UInt8
  modifiers : List ModifierItem
  deriving DecidableEq

structure SnapshotsInfo where
  availableManifests : List (UInt32 × Bytes)
  deriving DecidableEq

inductive Message where
  | handshake (handshake : Handshake)
  | getPeers
  | peers (peers : List PeerSpec)
  | syncInfo (info : SyncInfo)
  | inv (inv : InvData)
  | requestModifier (req : ModifierRequest)
  | modifier (data : ModifierData)
  | getSnapshotsInfo
  | snapshotsInfo (info : SnapshotsInfo)
  | getManifest (manifestId : Bytes)
  | manifest (data : Bytes)
  | getUtxoSnapshotChunk (subtreeId : Bytes)
  | utxoSnapshotChunk (data : Bytes)
  deriving DecidableEq

structure SerdeJson where
  toVec : Handshake → Except String Bytes
  fromSlice : Bytes → Except String Handshake

def maxManifestSize : Nat := 4 * 1024 * 1024

def maxChunkSize : Nat := 4 * 1024 * 1024

def maxSnapshotsInfoEntries : Nat := 100

namespace Message

def vlqEncode (value : UInt64) : Bytes := Vlq.encode value.toNat

/-- The position is one of the whole data, and so is the one behind the number. -/
def vlqDecode (data : Bytes) (pos : Nat) : NetworkResult (Nat × Nat) := (Vlq.decodeAt data pos).mapError vlqFault

end Message

/-! ### Writing -/

namespace SyncInfo

def empty : SyncInfo := ⟨[], []⟩

def v1 (headerIds : List Bytes) : SyncInfo := ⟨headerIds, []⟩

def v2 (headers : List Bytes) : SyncInfo := ⟨[], headers⟩

def isV2 (info : SyncInfo) : Bool := info.lastHeaders ≠ []

def serialize (info : SyncInfo) : Bytes :=
  if info.isV2 then
    Vlq.encode 0 ++ 0xFF :: UInt8.ofNat info.lastHeaders.length ::
      info.lastHeaders.flatMap fun header => Vlq.encode header.length ++ header
  else Vlq.encode info.lastHeaderIds.length ++ info.lastHeaderIds.flatten

end SyncInfo

def ModifierItem.serialize (item : ModifierItem) : Bytes := item.id ++ (Vlq.encode item.data.length ++ item.data)

def SnapshotsInfo.serialize (info : SnapshotsInfo) : Bytes :=
  Vlq.encode info.availableManifests.length ++
    info.availableManifests.flatMap fun (height, manifestId) => toBeBytes height.toNat ++ manifestId

namespace Message

def messageType : Message → MessageType
  | handshake _ => .handshake
  | getPeers => .getPeers
  | peers _ => .peers
  | syncInfo _ => .syncInfo
  | inv _ => .inv
  | requestModifier _ => .requestModifier
  | modifier _ => .modifier
  | getSnapshotsInfo => .getSnapshotsInfo
  | snapshotsInfo _ => .snapshotsInfo
  | getManifest _ => .getManifest
  | manifest _ => .manifest
  | getUtxoSnapshotChunk _ => .getUtxoSnapshotChunk
  | utxoSnapshotChunk _ => .utxoSnapshotChunk

variable (json : SerdeJson)

def body : Message → NetworkResult Bytes
  | handshake data => do
      let text ← (json.toVec data).mapError .serialization
      return toBeBytes text.length ++ text
  | getPeers => .ok []
  | peers specs => .ok (Vlq.encode specs.length ++ specs.flatMap PeerSpec.serialize)
  | syncInfo info => .ok info.serialize
  | inv ⟨typeId, ids⟩ => .ok (typeId :: (Vlq.encode ids.length ++ ids.flatten))
  | requestModifier ⟨typeId, ids⟩ => .ok (typeId :: (Vlq.encode ids.length ++ ids.flatten))
  | modifier ⟨typeId, modifiers⟩ =>
      .ok (typeId :: (Vlq.encode modifiers.length ++ modifiers.flatMap ModifierItem.serialize))
  | getSnapshotsInfo => .ok []
  | snapshotsInfo info => .ok info.serialize
  | getManifest manifestId => .ok manifestId
  | manifest data => .ok (Vlq.encode data.length ++ data)
  | getUtxoSnapshotChunk subtreeId => .ok subtreeId
  | utxoSnapshotChunk data => .ok (Vlq.encode data.length ++ data)

def encode (message : Message) : NetworkResult Bytes := do
  let body ← message.body json
  return message.messageType.toByte :: body

end Message

/-! ### Reading -/

def bytesSize : Nat := 24
def manifestEntrySize : Nat := 32
def modifierItemSize : Nat := 48
def peerSpecSize : Nat := 96

def inContext (context : String) (e : NetworkError) : NetworkError := .invalidMessage s!"{context}: {e.debug}"

def readId : Read NetworkError (Option Bytes) := do
  let rest ← Read.look
  if rest.length < 32 then return none else some <$> Read.take 32

def readIds (count : Nat) : Read NetworkError (List Bytes) := do
  Read.withCapacity isizeMax count bytesSize
  Read.collect readId count

def readHeader : Read NetworkError (Option Bytes) := do
  let rest ← Read.look
  if rest = [] then return none
  else
    let len ← readVlqAs (inContext "Failed to decode header length")
    Read.span (2 ^ 64) len

def SyncInfo.parseV2 : Read NetworkError SyncInfo := do
  Read.advance 1
  let rest ← Read.look
  if rest = [] then return .empty
  else
    let headerCount ← Read.byte
    Read.withCapacity isizeMax headerCount.toNat bytesSize
    let headers ← Read.collect readHeader headerCount.toNat
    return .v2 headers

def SyncInfo.parse : Read NetworkError SyncInfo := do
  let data ← Read.look
  if data = [] then return .empty
  else
    let count ← readVlqAs (inContext "Failed to decode count")
    let rest ← Read.look
    if count = 0 ∧ rest.head? = some 0xFF then parseV2 else .v1 <$> readIds count

/-- It moves on by the bytes that the count would take at least, not by those it took. -/
def readInventory : Read NetworkError (UInt8 × List Bytes) := do
  let typeId ← Read.byte
  let rest ← Read.look
  let (count, _) ← Read.ofExcept (vlqDecode rest)
  Read.advance (Vlq.byteLen count)
  let ids ← readIds count
  return (typeId, ids)

def readSized (reason : Nat → Nat → String) (len : Nat) : Read NetworkError Bytes := do
  let rest ← Read.look
  if rest.length < len then Read.fail (.invalidMessage (reason len rest.length)) else Read.take len

def readModifierItem : Read NetworkError ModifierItem := do
  require 32 "Modifier ID truncated"
  let id ← Read.take 32
  let len ← readVlq
  let data ← readSized (fun len got => s!"Modifier data truncated: expected {len}, got {got}") len
  return ⟨id, data⟩

def readModifiers : Read NetworkError ModifierData := do
  let typeId ← Read.byte
  let count ← readVlq
  Read.withCapacity isizeMax count modifierItemSize
  let modifiers ← Read.repeated readModifierItem count
  return ⟨typeId, modifiers⟩

def readManifestEntry : Read NetworkError (UInt32 × Bytes) := do
  require 36 "Truncated snapshots info"
  let height ← Read.take 4
  let manifestId ← Read.take 32
  return (UInt32.ofNat (fromBeBytes height), manifestId)

def SnapshotsInfo.parse : Read NetworkError SnapshotsInfo := do
  let data ← Read.look
  if data = [] then return ⟨[]⟩
  else
    let count ← readVlqAs (inContext "Failed to decode count")
    if count > maxSnapshotsInfoEntries then
      Read.fail (.invalidMessage s!"Too many snapshots info entries: {count} > {maxSnapshotsInfoEntries}")
    else
      Read.withCapacity isizeMax count manifestEntrySize
      let availableManifests ← Read.repeated readManifestEntry count
      return ⟨availableManifests⟩

def readPeers : Read NetworkError (List PeerSpec) := do
  let count ← readVlq
  Read.withCapacity isizeMax count peerSpecSize
  Read.repeated PeerSpec.parse count

def readSnapshotId (reason : String) : Read NetworkError Bytes := do
  require 32 reason
  Read.take 32

def readSnapshotData (name : String) (max : Nat) : Read NetworkError Bytes := do
  let len ← readVlq
  if len > max then Read.fail (.invalidMessage s!"{name} too large: {len} > {max}")
  else readSized (fun len got => s!"{name} data truncated: expected {len}, got {got}") len

def readHandshake (json : SerdeJson) : Read NetworkError Handshake := do
  let len ← Read.take 4
  let len := fromBeBytes len
  require len "Truncated handshake"
  let text ← Read.take len
  Read.ofExcept ((json.fromSlice text).mapError .serialization)

namespace Message
variable (json : SerdeJson)

def read : MessageType → Read NetworkError Message
  | .handshake => handshake <$> readHandshake json
  | .getPeers => pure getPeers
  | .peers => peers <$> readPeers
  | .syncInfo => syncInfo <$> SyncInfo.parse
  | .inv => (fun (typeId, ids) => inv ⟨typeId, ids⟩) <$> readInventory
  | .requestModifier => (fun (typeId, ids) => requestModifier ⟨typeId, ids⟩) <$> readInventory
  | .modifier => modifier <$> readModifiers
  | .getSnapshotsInfo => pure getSnapshotsInfo
  | .snapshotsInfo => snapshotsInfo <$> SnapshotsInfo.parse
  | .getManifest => getManifest <$> readSnapshotId "GetManifest: manifest ID truncated"
  | .manifest => manifest <$> readSnapshotData "Manifest" maxManifestSize
  | .getUtxoSnapshotChunk =>
      getUtxoSnapshotChunk <$> readSnapshotId "GetUtxoSnapshotChunk: subtree ID truncated"
  | .utxoSnapshotChunk => utxoSnapshotChunk <$> readSnapshotData "UtxoSnapshotChunk" maxChunkSize

def decode : Bytes → Outcome NetworkError Message
  | [] => ⟨.error (.error (.invalidMessage "Empty message")), []⟩
  | code :: payload =>
      match MessageType.ofByte code with
      | .error e => ⟨.error (.error e), []⟩
      | .ok type => (read json type).exec ⟨0, payload⟩

def decoded? (bytes : Bytes) : Option Message :=
  match (decode json bytes).result with
  | .ok (message, _) => some message
  | .error _ => none

end Message
end ErgoNode

/-!
### Message frames

A frame is the network's magic bytes, the message type, the length of the payload and, unless that is
empty, a checksum and the payload. Whatever is not a whole frame yet stays in the buffer.
-/

namespace ErgoNode
open Lib

def maxMessageSize : Nat := 10 * 1024 * 1024

def baseHeaderSize : Nat := 9

def checksumSize : Nat := 4

structure MessageCodec where
  magic : Octets 4
  maxSize : Nat

namespace MessageCodec

def withMagic (magic : Octets 4) : MessageCodec := ⟨magic, maxMessageSize⟩

def mainnetMagic : Octets 4 := ⟨[1, 0, 2, 4], rfl⟩

def new : MessageCodec := withMagic mainnetMagic

variable (blake2b256 : Bytes → Digest32) (json : SerdeJson) (codec : MessageCodec)

def checksum (payload : Bytes) : Bytes := (blake2b256 payload).bytes.take checksumSize

def debugBytes (bytes : Bytes) : String := "[" ++ ", ".intercalate (bytes.map toString) ++ "]"

/-- The checksum is there only when the payload is. -/
def totalSize (length : Nat) : Nat :=
  if length > 0 then baseHeaderSize + checksumSize + length else baseHeaderSize

def decodeMessage (bytes : Bytes) : Except (Stop NetworkError) (Option Message) :=
  (Message.decode json bytes).result.map fun read => some read.1

def decode : FrameDecoder UInt8 Message (Stop NetworkError) := fun src =>
  let magic := src.take 4
  let msgType := src.getD 4 0
  let length := fromBeBytes ((src.drop 5).take 4)
  if src.length < baseHeaderSize then (.ok none, src)
  else if magic ≠ codec.magic.bytes then
    (.error (.error (.invalidMessage
      s!"Invalid magic: expected {debugBytes codec.magic.bytes}, got {debugBytes magic}")), src)
  else if length > codec.maxSize then (.error (.error (.messageTooLarge length codec.maxSize)), src)
  else if src.length < totalSize length then (.ok none, src)
  else
    let src := src.drop baseHeaderSize
    if length > 0 then
      let expected := src.take checksumSize
      let payload := (src.drop checksumSize).take length
      let src := src.drop (checksumSize + length)
      if checksum blake2b256 payload = expected then (decodeMessage json (msgType :: payload), src)
      else (.error (.error (.invalidMessage "Checksum mismatch")), src)
    else (decodeMessage json [msgType], src)

def encode (item : Message) : NetworkResult Bytes := do
  match ← item.encode json with
  | [] => throw (.invalidMessage "Empty encoded message")
  | msgType :: payload =>
      if payload.length > codec.maxSize then throw (.messageTooLarge payload.length codec.maxSize)
      else
        return codec.magic.bytes ++ msgType :: (toBeBytes payload.length ++
          if payload.length > 0 then checksum blake2b256 payload ++ payload else [])

end MessageCodec
end ErgoNode
