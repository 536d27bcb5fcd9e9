import Mathlib.Algebra.Group.Nat.Defs
import Mathlib.Data.List.Basic

/-!
# Chain types and the third-party codecs

Headers, boxes, transactions and block sections with the fields the node reads, and `SigmaRust`,
the functions the node takes from the sigma-rust crates. What the node relies on is a field of
`SigmaRust`: box bytes parse back to the box they came from. Header bytes need not.
-/

namespace ErgoNode

abbrev Bytes := List UInt8

/-- No vector has more bytes than this. -/
def isizeMax : Nat := 2 ^ 63 - 1

structure Digest32 where
  bytes : Bytes
  size : bytes.length = 32
  deriving DecidableEq

def Digest32.filled (byte : UInt8) : Digest32 := ⟨List.replicate 32 byte, List.length_replicate⟩

def Digest32.zero : Digest32 := .filled 0

instance : Inhabited Digest32 := ⟨.zero⟩

abbrev BlockId := Digest32
abbrev BoxId := Digest32
abbrev TxId := Digest32
abbrev TokenId := Digest32

def hexDigit (n : Nat) : Char := "0123456789abcdef".toList.getD n '0'

def hexEncode (bytes : Bytes) : String :=
  String.ofList (bytes.flatMap fun b => [hexDigit (b.toNat / 16), hexDigit (b.toNat % 16)])

structure AutolykosSolution where
  minerPk : Bytes
  powOnetimePk : Option Bytes
  nonce : Bytes
  powDistance : Option Int
  deriving DecidableEq

structure Header where
  version : Nat
  id : BlockId
  parentId : BlockId
  adProofsRoot : Digest32
  stateRoot : Bytes
  transactionRoot : Digest32
  timestamp : Nat
  nBits : UInt32
  height : Nat
  extensionRoot : Digest32
  autolykosSolution : AutolykosSolution
  votes : Bytes
  unparsedBytes : Bytes
  deriving DecidableEq

structure Token where
  tokenId : TokenId
  amount : Nat
  deriving DecidableEq

structure ErgoBox where
  boxId : BoxId
  value : Nat
  ergoTree : Bytes
  tokens : Option (List Token)
  additionalRegisters : Bytes
  creationHeight : Nat
  transactionId : TxId
  index : Nat
  deriving DecidableEq

structure Input where
  boxId : BoxId
  proof : Bytes
  extension : Bytes
  deriving DecidableEq

structure Transaction where
  id : TxId
  inputs : List Input
  dataInputs : Option (List BoxId)
  outputs : List ErgoBox
  deriving DecidableEq

structure BlockTransactions where
  headerId : BlockId
  txs : List Transaction
  blockVersion : Nat
  deriving DecidableEq

structure ExtensionField where
  key : UInt8 × UInt8
  value : Bytes
  deriving DecidableEq

structure Extension where
  headerId : BlockId
  fields : List ExtensionField
  deriving DecidableEq

def Extension.empty (headerId : BlockId) : Extension := ⟨headerId, []⟩

structure ADProofs where
  headerId : BlockId
  proofBytes : Bytes
  deriving DecidableEq

structure FullBlock where
  header : Header
  transactions : BlockTransactions
  extension : Extension
  adProofs : Option ADProofs
  deriving DecidableEq

namespace FullBlock

def id (block : FullBlock) : BlockId := block.header.id

def height (block : FullBlock) : Nat := block.header.height

def parentId (block : FullBlock) : BlockId := block.header.parentId

end FullBlock

/-- The sigma-rust functions the node calls, and the box round trip it relies on. -/
structure SigmaRust where
  blake2b256 : Bytes → Digest32
  boxBytes : ErgoBox → Except String Bytes
  parseBox : Bytes → Except String ErgoBox
  treeBytes : Bytes → Except String Bytes
  headerBytes : Header → Except String Bytes
  parseHeader : Bytes → Except String Header
  txBytes : Transaction → Except String Bytes
  parseTx : Bytes → Except String Transaction
  parse_boxBytes : ∀ {ergoBox bytes}, boxBytes ergoBox = .ok bytes → parseBox bytes = .ok ergoBox

end ErgoNode

/-!
### Compact targets and difficulties
-/

namespace ErgoNode

def maxTarget : Nat := 2 ^ 256 - 1

def nbitsToTarget (nbits : UInt32) : Nat :=
  let size := ((nbits >>> 24) &&& 0xff).toNat
  let word := (nbits &&& 0x007fffff).toNat
  if size = 0 then 0
  else if size ≤ 3 then word >>> (8 * (3 - size))
  else word <<< (8 * (size - 3))

/-- Zero when the decoded target is above `maxTarget`. -/
def nbitsToDifficulty (nbits : UInt32) : Nat :=
  let target := nbitsToTarget nbits
  if target = 0 then maxTarget else maxTarget / target

end ErgoNode
