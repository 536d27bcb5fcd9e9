import ErgoNode.Chain.Types
import ErgoNode.Lib.Reader
import ErgoNode.Lib.Utf8
import ErgoNode.Lib.Vlq

/-!
# Peer specifications

What peers tell each other about a peer: names, version, declared address and features. Lengths and
counts are cut to one byte when written. A reader panics where the source indexes past the end of the
data.
-/

namespace ErgoNode
open Lib

inductive NetworkError where
  | invalidMessage (reason : String)
  | messageTooLarge (size max : Nat)
  | serialization (reason : String)
  deriving DecidableEq

abbrev NetworkResult := Except NetworkError

namespace NetworkError

def message : NetworkError → String
  | invalidMessage reason => s!"Invalid message: {reason}"
  | messageTooLarge size max => s!"Message too large: {size} bytes, max {max} bytes"
  | serialization reason => s!"Serialization error: {reason}"

def debug : NetworkError → String
  | invalidMessage reason => s!"InvalidMessage(\"{reason}\")"
  | messageTooLarge size max => s!"MessageTooLarge \x7b size: {size}, max: {max} \x7d"
  | serialization reason => s!"Serialization(\"{reason}\")"

end NetworkError

/-! ### Numbers -/

def vlqFault : Vlq.Fault → NetworkError
  | .truncated => .invalidMessage "Truncated VLQ"
  | .overflow => .invalidMessage "VLQ overflow"

def vlqDecode (data : Bytes) : NetworkResult (Nat × Nat) := (Vlq.decode data).mapError vlqFault

def vlqEncodeSigned (value : Int64) : Bytes := Vlq.encode (Vlq.zigZag value).toNat

def vlqDecodeSigned (data : Bytes) : NetworkResult (Int64 × Nat) := do
  let (encoded, used) ← vlqDecode data
  return (Vlq.unZigZag (UInt64.ofNat encoded), used)

def toBeBytes (n : Nat) : Bytes :=
  [UInt8.ofNat (n / 2 ^ 24), UInt8.ofNat (n / 2 ^ 16), UInt8.ofNat (n / 2 ^ 8), UInt8.ofNat n]

def fromBeBytes (bytes : Bytes) : Nat := bytes.foldl (fun n byte => n * 256 + byte.toNat) 0

/-! ### Addresses and features -/

structure Octets (n : Nat) where
  bytes : Bytes
  size : bytes.length = n
  deriving DecidableEq

/-- An array of zeros into which the bytes are copied. -/
def Octets.ofBytes {n : Nat} (bytes : Bytes) : Octets n :=
  ⟨(bytes ++ List.replicate n 0).take n, by simp⟩

inductive IpAddr where
  | v4 (octets : Octets 4)
  | v6 (octets : Octets 16)
  deriving DecidableEq

def IpAddr.octets : IpAddr → Bytes
  | v4 octets => octets.bytes
  | v6 octets => octets.bytes

structure DeclaredAddress where
  ip : IpAddr
  port : UInt16
  deriving DecidableEq

inductive PeerFeature where
  | mode (stateType : UInt8) (verifying : Bool) (nipopowSuffix : Option Int32) (blocksToKeep : Int32)
  | session (magic : Octets 4) (sessionId : UInt64)
  | localAddress (ip : IpAddr) (port : UInt16)
  | restApiUrl (url : String)
  | unknown (id : UInt8) (data : Bytes)
  deriving DecidableEq

structure PeerSpec where
  agentName : String
  version : UInt8 × UInt8 × UInt8
  peerName : String
  declaredAddr : Option DeclaredAddress
  features : List PeerFeature
  deriving DecidableEq

def shortString (text : String) : Bytes :=
  UInt8.ofNat (Utf8.encode text).length :: Utf8.encode text

namespace PeerFeature

def id : PeerFeature → UInt8
  | mode .. => 16
  | session .. => 3
  | localAddress .. => 2
  | restApiUrl _ => 4
  | unknown id _ => id

def data : PeerFeature → Bytes
  | mode stateType verifying nipopowSuffix blocksToKeep =>
      stateType :: (if verifying then 1 else 0) ::
        ((match nipopowSuffix with
          | some suffix => 1 :: toBeBytes suffix.toUInt32.toNat
          | none => [0]) ++ vlqEncodeSigned blocksToKeep.toInt64)
  | session magic sessionId => magic.bytes ++ Vlq.encode sessionId.toNat
  | localAddress ip port => ip.octets ++ toBeBytes port.toNat
  | restApiUrl url => shortString url
  | unknown _ data => data

def serialize (feature : PeerFeature) : Bytes :=
  feature.id :: (Vlq.encode feature.data.length ++ feature.data)

def parseMode (stateType verifying nipopowOpt : UInt8) (more : Bytes) : PeerFeature :=
  let (nipopowSuffix, blocks) :=
    if nipopowOpt = 1 ∧ 4 ≤ more.length then
      (some (UInt32.ofNat (fromBeBytes (more.take 4))).toInt32, more.drop 4)
    else (none, more)
  let blocksToKeep := match vlqDecodeSigned blocks with
    | .ok (blocksToKeep, _) => blocksToKeep
    | .error _ => 1
  mode stateType (verifying ≠ 0) nipopowSuffix blocksToKeep.toInt32

def parseSession (data : Bytes) : PeerFeature :=
  let sessionId := match vlqDecode (data.drop 4) with
    | .ok (sessionId, _) => sessionId
    | .error _ => 0
  session (.ofBytes (data.take 4)) (UInt64.ofNat sessionId)

/-- Data that does not fit the feature's id is kept as it is. -/
def parseData (id : UInt8) (data : Bytes) : PeerFeature :=
  if id = 16 then
    match data with
    | stateType :: verifying :: nipopowOpt :: more => parseMode stateType verifying nipopowOpt more
    | _ => unknown id data
  else if id = 3 then
    if data.length ≥ 5 then parseSession data else unknown id data
  else if id = 2 then
    if data.length = 8 then
      localAddress (.v4 (.ofBytes (data.take 4))) (UInt16.ofNat (fromBeBytes (data.drop 4)))
    else unknown id data
  else if id = 4 then
    match data with
    | urlLen :: rest =>
        if urlLen.toNat ≤ rest.length then restApiUrl (Utf8.decodeLossy (rest.take urlLen.toNat))
        else unknown id data
    | [] => unknown id data
  else unknown id data

end PeerFeature

/-! ### Reading -/

def require (n : Nat) (reason : String) : Read NetworkError Unit := do
  let rest ← Read.look
  if rest.length < n then Read.fail (.invalidMessage reason) else return

def readVlqAs (describe : NetworkError → NetworkError) : Read NetworkError Nat := do
  let rest ← Read.look
  let (value, used) ← Read.ofExcept ((vlqDecode rest).mapError describe)
  Read.advance used
  return value

def readVlq : Read NetworkError Nat := readVlqAs id

def readShortString (noLength noText : String) : Read NetworkError String := do
  require 1 noLength
  let len ← Read.byte
  require len.toNat noText
  let bytes ← Read.take len.toNat
  return Utf8.decodeLossy bytes

def readVersion : Read NetworkError (UInt8 × UInt8 × UInt8) := do
  require 3 "Truncated version"
  let major ← Read.byte
  let minor ← Read.byte
  let patch ← Read.byte
  return (major, minor, patch)

def readIp : Read NetworkError IpAddr := do
  require 1 "Truncated declared address"
  let addrType ← Read.byte
  if addrType = 8 then
    require 4 "Truncated IPv4 address"
    let octets ← Read.take 4
    return .v4 (.ofBytes octets)
  else if addrType = 20 then
    require 16 "Truncated IPv6 address"
    let octets ← Read.take 16
    return .v6 (.ofBytes octets)
  else Read.fail (.invalidMessage s!"Unknown address type: {addrType}")

def readDeclaredAddr : Read NetworkError (Option DeclaredAddress) := do
  let rest ← Read.look
  if rest = [] then return none
  else
    let marker ← Read.byte
    if marker = 1 then
      let ip ← readIp
      let port ← readVlq
      return some ⟨ip, UInt16.ofNat port⟩
    else return none

namespace PeerFeature

def readMode : Read NetworkError PeerFeature := do
  let stateType ← Read.byte
  let verifying ← Read.byte
  let nipopowOpt ← Read.byte
  let more ← Read.look
  let nipopowSuffix ←
    if nipopowOpt = 1 ∧ 4 ≤ more.length then
      (fun bytes => some (UInt32.ofNat (fromBeBytes bytes)).toInt32) <$> Read.take 4
    else pure none
  let blocks ← Read.look
  let blocksToKeep := match vlqDecodeSigned blocks with
    | .ok (blocksToKeep, _) => blocksToKeep
    | .error _ => 1
  return mode stateType (verifying ≠ 0) nipopowSuffix blocksToKeep.toInt32

def readSession : Read NetworkError PeerFeature := do
  let magic ← Read.take 4
  let rest ← Read.look
  let sessionId := match vlqDecode rest with
    | .ok (sessionId, _) => sessionId
    | .error _ => 0
  return session (.ofBytes magic) (UInt64.ofNat sessionId)

def readLocalAddress : Read NetworkError PeerFeature := do
  let ip ← Read.take 4
  let port ← Read.take 4
  return localAddress (.v4 (.ofBytes ip)) (UInt16.ofNat (fromBeBytes port))

def readData (id : UInt8) : Read NetworkError PeerFeature := do
  let data ← Read.look
  if id = 16 then
    if data.length < 3 then return unknown id data else readMode
  else if id = 3 then
    if data.length ≥ 5 then readSession else return unknown id data
  else if id = 2 then
    if data.length = 8 then readLocalAddress else return unknown id data
  else if id = 4 then
    if data = [] then return unknown id data
    else
      let urlLen ← Read.byte
      if data.length ≥ 1 + urlLen.toNat then
        let url ← Read.take urlLen.toNat
        return restApiUrl (Utf8.decodeLossy url)
      else return unknown id data
  else return unknown id data

end PeerFeature

/-- The end of a feature is its position plus a length that the peer chose. -/
def readFeature : Read NetworkError (Option PeerFeature) := do
  let rest ← Read.look
  if rest = [] then return none
  else
    let id ← Read.byte
    let len ← readVlq
    match ← Read.span (2 ^ 64) len with
    | none => Read.fail (.invalidMessage "Truncated feature data")
    | some data => return some (.parseData id data)

def readFeatures : Read NetworkError (List PeerFeature) := do
  let rest ← Read.look
  if rest = [] then return []
  else
    let count ← Read.byte
    Read.collect readFeature count.toNat

namespace PeerSpec

def serialize (spec : PeerSpec) : Bytes :=
  shortString spec.agentName ++ [spec.version.1, spec.version.2.1, spec.version.2.2] ++
    shortString spec.peerName ++
    (match spec.declaredAddr with
      | some ⟨ip, port⟩ =>
          1 :: (match ip with
            | .v4 _ => 8
            | .v6 _ => 20) :: (ip.octets ++ Vlq.encode port.toNat)
      | none => [0]) ++
    UInt8.ofNat spec.features.length :: spec.features.flatMap PeerFeature.serialize

def parse : Read NetworkError PeerSpec := do
  let agentName ← readShortString "Truncated PeerSpec" "Truncated agent name"
  let version ← readVersion
  let peerName ← readShortString "Truncated PeerSpec" "Truncated peer name"
  let declaredAddr ← readDeclaredAddr
  let features ← readFeatures
  return ⟨agentName, version, peerName, declaredAddr, features⟩

end PeerSpec
end ErgoNode
