import ErgoNode.Chain.Types
import ErgoNode.Lib.BigEndian
import ErgoNode.Lib.Reader
import ErgoNode.Lib.Utf8
import ErgoNode.Lib.Entries

/-!
# The records of the extra indexer

Boxes, transactions, addresses and tokens with their places in the chain, and their bytes. A box that is spent
keeps its place in the lists of its address and its tokens, with the sign turned around.
-/

namespace ErgoNode
open Lib

/-! ### Reading and writing fields -/

abbrev RecordRead := Read String

def maxVecBytes : Nat := 2 ^ 63 - 1

namespace RecordRead

def u8 : RecordRead UInt8 := Read.byte
def u16 : RecordRead UInt16 := (fun bytes => UInt16.ofNat (BigEndian.read bytes)) <$> Read.take 2
def u32 : RecordRead UInt32 := (fun bytes => UInt32.ofNat (BigEndian.read bytes)) <$> Read.take 4
def u64 : RecordRead UInt64 := (fun bytes => UInt64.ofNat (BigEndian.read bytes)) <$> Read.take 8
def i64 : RecordRead Int64 := UInt64.toInt64 <$> u64

def copyFromSlice (bytes : Bytes) : RecordRead Digest32 := fun c =>
  if size : bytes.length = 32 then ⟨.ok (⟨bytes, size⟩, c), []⟩ else ⟨.error .panic, []⟩

def digest : RecordRead Digest32 := do
  let bytes ← Read.take 32
  copyFromSlice bytes

def optional {A : Type} (value : RecordRead A) : RecordRead (Option A) := do
  let flag ← u8
  if flag = 1 then some <$> value else return none

def text : RecordRead (Option String) := do
  let len ← u16
  if len > 0 then (fun bytes => some (Utf8.decodeLossy bytes)) <$> Read.take len.toNat else return none

def list {A : Type} (size : Nat) (value : RecordRead A) (count : Nat) : RecordRead (List A) := do
  Read.withCapacity maxVecBytes count size
  Read.repeated value count

def tokenAmount {A : Type} (amount : RecordRead A) : RecordRead (Digest32 × A) := do
  let tokenId ← digest
  let amount ← amount
  return (tokenId, amount)

def atLeast (size : Nat) (reason : String) : RecordRead Unit := do
  let data ← Read.look
  if data.length < size then Read.fail reason else return

def within {A : Type} (bytes : Bytes) (value : RecordRead A) : RecordRead A := fun c =>
  match value.exec ⟨0, bytes⟩ with
  | ⟨.ok (a, _), rooms⟩ => ⟨.ok (a, c), rooms⟩
  | ⟨.error stop, rooms⟩ => ⟨.error stop, rooms⟩

end RecordRead

namespace RecordBytes

def u16 (value : Nat) : Bytes := BigEndian.write 2 value
def u32 (value : Nat) : Bytes := BigEndian.write 4 value
def u64 (value : UInt64) : Bytes := BigEndian.write 8 value.toNat
def i64 (value : Int64) : Bytes := u64 value.toUInt64

def optional {A : Type} (write : A → Bytes) : Option A → Bytes
  | some value => 1 :: write value
  | none => [0]

def text : Option String → Bytes
  | some name => u16 (Utf8.encode name).length ++ Utf8.encode name
  | none => u16 0

def tokenAmount {A : Type} (write : A → Bytes) (token : Digest32 × A) : Bytes := token.1.bytes ++ write token.2

end RecordBytes

/-! ### Balances -/

structure BalanceInfo where
  nanoErgs : Int64
  tokens : Table Digest32 Int64

namespace BalanceInfo

def new : BalanceInfo := ⟨0, ∅⟩

def addToken (tokens : Table Digest32 Int64) (token : Digest32 × UInt64) : Table Digest32 Int64 :=
  tokens.insert token.1 ((tokens.lookup token.1).getD 0 + token.2.toInt64)

/-- A token whose balance becomes zero is removed. -/
def subtractToken (tokens : Table Digest32 Int64) (token : Digest32 × UInt64) : Table Digest32 Int64 :=
  let amount := (tokens.lookup token.1).getD 0 - token.2.toInt64
  if amount = 0 then tokens.erase token.1 else tokens.insert token.1 amount

def add (balance : BalanceInfo) (nanoErgs : UInt64) (tokens : List (Digest32 × UInt64)) : BalanceInfo where
  nanoErgs := balance.nanoErgs + nanoErgs.toInt64
  tokens := tokens.foldl addToken balance.tokens

def subtract (balance : BalanceInfo) (nanoErgs : UInt64) (tokens : List (Digest32 × UInt64)) : BalanceInfo where
  nanoErgs := balance.nanoErgs - nanoErgs.toInt64
  tokens := tokens.foldl subtractToken balance.tokens

def serialize (order : Iteration Digest32 Int64) (balance : BalanceInfo) : Bytes :=
  RecordBytes.i64 balance.nanoErgs ++ RecordBytes.u32 balance.tokens.entries.length ++
    (order.entries balance.tokens).flatMap (RecordBytes.tokenAmount RecordBytes.i64)

def read : RecordRead BalanceInfo := do
  let data ← Read.look
  RecordRead.atLeast 12 "BalanceInfo data too short"
  let nanoErgs ← RecordRead.i64
  let tokenCount ← RecordRead.u32
  if data.length < 12 + tokenCount.toNat * 40 then
    Read.fail s!"BalanceInfo data too short for {tokenCount} tokens"
  else do
    let tokens ← Read.repeated (RecordRead.tokenAmount RecordRead.i64) tokenCount.toNat
    return ⟨nanoErgs, tokens.foldl (fun table token => table.insert token.1 token.2) ∅⟩

end BalanceInfo

/-! ### Places of boxes -/

def spendIndex (index : Int64) : List Int64 → List Int64
  | [] => []
  | entry :: rest => if entry = index then -entry :: rest else entry :: spendIndex index rest

/-! ### Addresses -/

structure IndexedErgoAddress where
  treeHash : Digest32
  txIndexes : List UInt64
  boxIndexes : List Int64
  balance : BalanceInfo

namespace IndexedErgoAddress

def new (treeHash : Digest32) : IndexedErgoAddress := ⟨treeHash, [], [], .new⟩

def addBox (addr : IndexedErgoAddress) (globalBoxIndex value : UInt64) (tokens : List (Digest32 × UInt64)) :
    IndexedErgoAddress :=
  { addr with
    boxIndexes := addr.boxIndexes ++ [globalBoxIndex.toInt64]
    balance := addr.balance.add value tokens }

def spendBox (addr : IndexedErgoAddress) (globalBoxIndex value : UInt64) (tokens : List (Digest32 × UInt64)) :
    IndexedErgoAddress :=
  { addr with
    boxIndexes := spendIndex globalBoxIndex.toInt64 addr.boxIndexes
    balance := addr.balance.subtract value tokens }

def serialize (order : Iteration Digest32 Int64) (addr : IndexedErgoAddress) : Bytes :=
  let balance := addr.balance.serialize order
  addr.treeHash.bytes ++ (RecordBytes.u32 balance.length ++ balance) ++
    (RecordBytes.u32 addr.txIndexes.length ++ addr.txIndexes.flatMap RecordBytes.u64) ++
    (RecordBytes.u32 addr.boxIndexes.length ++ addr.boxIndexes.flatMap RecordBytes.i64)

def read : RecordRead IndexedErgoAddress := do
  RecordRead.atLeast 36 "IndexedErgoAddress data too short"
  let treeHash ← RecordRead.digest
  let balanceLen ← RecordRead.u32
  let balanceBytes ← Read.take balanceLen.toNat
  let balance ← RecordRead.within balanceBytes BalanceInfo.read
  let txCount ← RecordRead.u32
  let txIndexes ← RecordRead.list 8 RecordRead.u64 txCount.toNat
  let boxCount ← RecordRead.u32
  let boxIndexes ← RecordRead.list 8 RecordRead.i64 boxCount.toNat
  return ⟨treeHash, txIndexes, boxIndexes, balance⟩

end IndexedErgoAddress

/-! ### Tokens -/

structure IndexedToken where
  tokenId : Digest32
  creationBoxId : Option Digest32
  amount : Option UInt64
  name : Option String
  description : Option String
  decimals : Option UInt8
  boxIndexes : List Int64
  deriving DecidableEq

namespace IndexedToken

def new (tokenId : Digest32) : IndexedToken := ⟨tokenId, none, none, none, none, none, []⟩

def withCreationInfo (tokenId creationBoxId : Digest32) (amount : UInt64) (name description : String)
    (decimals : UInt8) : IndexedToken :=
  ⟨tokenId, some creationBoxId, some amount, some name, some description, some decimals, []⟩

def addBox (token : IndexedToken) (globalBoxIndex : UInt64) : IndexedToken :=
  { token with boxIndexes := token.boxIndexes ++ [globalBoxIndex.toInt64] }

def spendBox (token : IndexedToken) (globalBoxIndex : UInt64) : IndexedToken :=
  { token with boxIndexes := spendIndex globalBoxIndex.toInt64 token.boxIndexes }

def addEmission (token : IndexedToken) (additional : UInt64) : IndexedToken :=
  { token with amount := some (token.amount.getD 0 + additional) }

def serialize (token : IndexedToken) : Bytes :=
  token.tokenId.bytes ++ RecordBytes.optional Digest32.bytes token.creationBoxId ++
    RecordBytes.optional RecordBytes.u64 token.amount ++ RecordBytes.text token.name ++
    RecordBytes.text token.description ++ RecordBytes.optional (fun decimals => [decimals]) token.decimals ++
    (RecordBytes.u32 token.boxIndexes.length ++ token.boxIndexes.flatMap RecordBytes.i64)

def read : RecordRead IndexedToken := do
  RecordRead.atLeast 33 "IndexedToken data too short"
  let tokenId ← RecordRead.digest
  let creationBoxId ← RecordRead.optional RecordRead.digest
  let amount ← RecordRead.optional RecordRead.u64
  let name ← RecordRead.text
  let description ← RecordRead.text
  let decimals ← RecordRead.optional RecordRead.u8
  let boxCount ← RecordRead.u32
  let boxIndexes ← RecordRead.list 8 RecordRead.i64 boxCount.toNat
  return ⟨tokenId, creationBoxId, amount, name, description, decimals, boxIndexes⟩

end IndexedToken

/-! ### Boxes -/

structure IndexedErgoBox where
  boxId : Digest32
  inclusionHeight : UInt32
  spendingTxId : Option Digest32
  spendingHeight : Option UInt32
  globalIndex : UInt64
  boxBytes : Bytes
  value : UInt64
  ergoTreeHash : Digest32
  tokens : List (Digest32 × UInt64)
  deriving DecidableEq

namespace IndexedErgoBox

def new (boxId : Digest32) (inclusionHeight : UInt32) (globalIndex : UInt64) (boxBytes : Bytes) (value : UInt64)
    (ergoTreeHash : Digest32) (tokens : List (Digest32 × UInt64)) : IndexedErgoBox :=
  ⟨boxId, inclusionHeight, none, none, globalIndex, boxBytes, value, ergoTreeHash, tokens⟩

def markSpent (ieb : IndexedErgoBox) (txId : Digest32) (height : UInt32) : IndexedErgoBox :=
  { ieb with spendingTxId := some txId, spendingHeight := some height }

def isSpent (ieb : IndexedErgoBox) : Bool := ieb.spendingTxId.isSome

def serialize (ieb : IndexedErgoBox) : Bytes :=
  ieb.boxId.bytes ++ RecordBytes.u32 ieb.inclusionHeight.toNat ++
    RecordBytes.optional Digest32.bytes ieb.spendingTxId ++
    RecordBytes.optional (fun height => RecordBytes.u32 height.toNat) ieb.spendingHeight ++
    RecordBytes.u64 ieb.globalIndex ++ RecordBytes.u64 ieb.value ++ ieb.ergoTreeHash.bytes ++
    (RecordBytes.u32 ieb.tokens.length ++ ieb.tokens.flatMap (RecordBytes.tokenAmount RecordBytes.u64)) ++
    (RecordBytes.u32 ieb.boxBytes.length ++ ieb.boxBytes)

def read : RecordRead IndexedErgoBox := do
  RecordRead.atLeast 37 "IndexedErgoBox data too short"
  let boxId ← RecordRead.digest
  let inclusionHeight ← RecordRead.u32
  let spendingTxId ← RecordRead.optional RecordRead.digest
  let spendingHeight ← RecordRead.optional RecordRead.u32
  let globalIndex ← RecordRead.u64
  let value ← RecordRead.u64
  let ergoTreeHash ← RecordRead.digest
  let tokenCount ← RecordRead.u32
  let tokens ← RecordRead.list 40 (RecordRead.tokenAmount RecordRead.u64) tokenCount.toNat
  let boxBytesLen ← RecordRead.u32
  let boxBytes ← Read.take boxBytesLen.toNat
  return ⟨boxId, inclusionHeight, spendingTxId, spendingHeight, globalIndex, boxBytes, value, ergoTreeHash, tokens⟩

end IndexedErgoBox

/-! ### Transactions -/

structure IndexedErgoTransaction where
  txId : Digest32
  txIndex : UInt16
  height : UInt32
  size : UInt32
  globalIndex : UInt64
  inputIndexes : List UInt64
  outputIndexes : List UInt64
  dataInputs : List Digest32
  deriving DecidableEq

namespace IndexedErgoTransaction

def serialize (itx : IndexedErgoTransaction) : Bytes :=
  itx.txId.bytes ++ RecordBytes.u16 itx.txIndex.toNat ++ RecordBytes.u32 itx.height.toNat ++
    RecordBytes.u32 itx.size.toNat ++ RecordBytes.u64 itx.globalIndex ++
    (RecordBytes.u16 itx.inputIndexes.length ++ itx.inputIndexes.flatMap RecordBytes.u64) ++
    (RecordBytes.u16 itx.outputIndexes.length ++ itx.outputIndexes.flatMap RecordBytes.u64) ++
    (RecordBytes.u16 itx.dataInputs.length ++ itx.dataInputs.flatMap Digest32.bytes)

def read : RecordRead IndexedErgoTransaction := do
  RecordRead.atLeast (32 + 2 + 4 + 4 + 8 + 2 + 2 + 2) "IndexedErgoTransaction data too short"
  let txId ← RecordRead.digest
  let txIndex ← RecordRead.u16
  let height ← RecordRead.u32
  let size ← RecordRead.u32
  let globalIndex ← RecordRead.u64
  let inputCount ← RecordRead.u16
  let inputIndexes ← RecordRead.list 8 RecordRead.u64 inputCount.toNat
  let outputCount ← RecordRead.u16
  let outputIndexes ← RecordRead.list 8 RecordRead.u64 outputCount.toNat
  let dataInputCount ← RecordRead.u16
  let dataInputs ← RecordRead.list 32 RecordRead.digest dataInputCount.toNat
  return ⟨txId, txIndex, height, size, globalIndex, inputIndexes, outputIndexes, dataInputs⟩

end IndexedErgoTransaction

/-! ### The indexer's own state -/

structure IndexerState where
  indexedHeight : UInt32
  globalBoxIndex : UInt64
  globalTxIndex : UInt64
  deriving DecidableEq

namespace IndexerState

def default : IndexerState := ⟨0, 0, 0⟩

def serialize (state : IndexerState) : Bytes :=
  RecordBytes.u32 state.indexedHeight.toNat ++ RecordBytes.u64 state.globalBoxIndex ++
    RecordBytes.u64 state.globalTxIndex

def read : RecordRead IndexerState := do
  RecordRead.atLeast 20 "IndexerState data too short"
  let indexedHeight ← RecordRead.u32
  let globalBoxIndex ← RecordRead.u64
  let globalTxIndex ← RecordRead.u64
  return ⟨indexedHeight, globalBoxIndex, globalTxIndex⟩

end IndexerState
end ErgoNode
