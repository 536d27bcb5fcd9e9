import ErgoNode.Storage.Database
import ErgoNode.Storage.IndexerRecords

/-!
# The extra indexer

Records are kept in buffers until they are flushed to storage. Each buffer has a lock of its own, which is not
given again to the thread that holds it.
-/

namespace ErgoNode
open Lib

inductive BufferLock where
  | state
  | boxes
  | addresses
  | tokens
  | transactions
  deriving DecidableEq

inductive LockMode where
  | read
  | write
  deriving DecidableEq

/-- How a call may fail to return: it waits for a lock it holds itself, or it reads past the end of a record. -/
inductive IndexerHalt where
  | deadlock (lock : BufferLock)
  | panic
  deriving DecidableEq

inductive IndexAddress where
  | extraIndex (key : Digest32)
  | boxIndex (place : UInt64)
  | txNumericIndex (place : UInt64)
  | indexerState
  deriving DecidableEq

abbrev IndexStorage := Store fun _ : IndexAddress => Bytes
abbrev IndexBatch := List (BatchOperation fun _ : IndexAddress => Bytes)

/-- `held` are the locks the calling thread holds. -/
structure ExtraIndexer where
  storage : IndexStorage
  state : IndexerState
  boxes : Table Digest32 IndexedErgoBox
  addresses : Table Digest32 IndexedErgoAddress
  tokens : Table Digest32 IndexedToken
  transactions : List IndexedErgoTransaction
  held : List (BufferLock × LockMode)

abbrev IndexerOp := Op ExtraIndexer IndexerHalt

/-- The orders in which a flush meets the buffered records, and the tokens of each balance. -/
structure FlushOrder where
  boxes : Iteration Digest32 IndexedErgoBox
  addresses : Iteration Digest32 IndexedErgoAddress
  tokens : Iteration Digest32 IndexedToken
  balance : Iteration Digest32 Int64

namespace ExtraIndexer

def new (storage : IndexStorage) : ExtraIndexer := ⟨storage, .default, ∅, ∅, ∅, [], []⟩

/-! ### Locks -/

def blocks (lock : BufferLock) (mode : LockMode) (guard : BufferLock × LockMode) : Bool :=
  guard.1 = lock ∧ (mode = .write ∨ guard.2 = .write)

def withLock {A : Type} (lock : BufferLock) (mode : LockMode) (body : IndexerOp A) : IndexerOp A :=
  ExceptT.mk fun indexer =>
    if indexer.held.any (blocks lock mode) then (.error (.deadlock lock), indexer)
    else match body.exec { indexer with held := (lock, mode) :: indexer.held } with
      | (.error (.deadlock wanted), waiting) => (.error (.deadlock wanted), waiting)
      | (result, after) => (result, { after with held := indexer.held })

/-! ### Looking records up -/

/-- The record under a key in storage. What cannot be read as a record of this kind is not there. -/
def stored {A : Type} (read : RecordRead A) (key : Digest32) : IndexerOp (Option A) := do
  match (← get).storage (.extraIndex key) with
  | none => return none
  | some data =>
      match (read.exec ⟨0, data⟩).result with
      | .ok (record, _) => return some record
      | .error (.error _) => return none
      | .error .panic => throw .panic

def lookup {A : Type} (lock : BufferLock) (buffer : ExtraIndexer → Table Digest32 A) (read : RecordRead A)
    (key : Digest32) : IndexerOp (Option A) := do
  match ← withLock lock .read (do return (buffer (← get)).lookup key) with
  | some record => return some record
  | none => stored read key

def getBox (boxId : Digest32) : IndexerOp (Option IndexedErgoBox) := lookup .boxes boxes IndexedErgoBox.read boxId

def getAddress (treeHash : Digest32) : IndexerOp (Option IndexedErgoAddress) :=
  lookup .addresses addresses IndexedErgoAddress.read treeHash

variable (sr : SigmaRust)

def tokenUniqueId (tokenId : Digest32) : Digest32 := sr.blake2b256 (tokenId.bytes ++ Utf8.encode "token")

def hashErgoTree (ergoTreeBytes : Bytes) : Digest32 := sr.blake2b256 ergoTreeBytes

def getToken (tokenId : Digest32) : IndexerOp (Option IndexedToken) :=
  lookup .tokens tokens IndexedToken.read (tokenUniqueId sr tokenId)

/-! ### Indexing -/

def addTokenBox (globalIndex : UInt64) (tokens : Table Digest32 IndexedToken) (token : Digest32 × UInt64) :
    Table Digest32 IndexedToken :=
  let uniqueId := tokenUniqueId sr token.1
  tokens.insert uniqueId (((tokens.lookup uniqueId).getD (.new token.1)).addBox globalIndex)

def indexOutput (boxId : Digest32) (height : UInt32) (boxBytes : Bytes) (value : UInt64) (ergoTreeBytes : Bytes)
    (tokens : List (Digest32 × UInt64)) : IndexerOp UInt64 :=
  withLock .state .write do
    let globalIndex := (← get).state.globalBoxIndex
    let ergoTreeHash := hashErgoTree sr ergoTreeBytes
    let ieb := IndexedErgoBox.new boxId height globalIndex boxBytes value ergoTreeHash tokens
    withLock .boxes .write (modify fun indexer => { indexer with boxes := indexer.boxes.insert boxId ieb })
    withLock .addresses .write (modify fun indexer =>
      let addr := (indexer.addresses.lookup ergoTreeHash).getD (.new ergoTreeHash)
      { indexer with addresses := indexer.addresses.insert ergoTreeHash (addr.addBox globalIndex value tokens) })
    withLock .tokens .write (modify fun indexer =>
      { indexer with tokens := tokens.foldl (addTokenBox sr globalIndex) indexer.tokens })
    modify fun indexer =>
      { indexer with state := { indexer.state with globalBoxIndex := indexer.state.globalBoxIndex + 1 } }
    return globalIndex

def spendAtAddress (ieb : IndexedErgoBox) : IndexerOp Unit := do
  let spend (addr : IndexedErgoAddress) : IndexerOp Unit := modify fun indexer =>
    { indexer with
      addresses := indexer.addresses.insert ieb.ergoTreeHash (addr.spendBox ieb.globalIndex ieb.value ieb.tokens) }
  match (← get).addresses.lookup ieb.ergoTreeHash with
  | some addr => spend addr
  | none =>
      match ← getAddress ieb.ergoTreeHash with
      | some addr => spend addr
      | none => return

def spendAtToken (globalIndex : UInt64) (tokenId : Digest32) : IndexerOp Unit := do
  let uniqueId := tokenUniqueId sr tokenId
  let spend (token : IndexedToken) : IndexerOp Unit := modify fun indexer =>
    { indexer with tokens := indexer.tokens.insert uniqueId (token.spendBox globalIndex) }
  match (← get).tokens.lookup uniqueId with
  | some token => spend token
  | none =>
      match ← getToken sr tokenId with
      | some token => spend token
      | none => return

def spendBox (boxId spendingTxId : Digest32) (spendingHeight : UInt32) : IndexerOp (Option UInt64) := do
  match ← getBox boxId with
  | none => return none
  | some ieb => do
      withLock .boxes .write (modify fun indexer =>
        { indexer with boxes := indexer.boxes.insert boxId (ieb.markSpent spendingTxId spendingHeight) })
      withLock .addresses .write (spendAtAddress ieb)
      withLock .tokens .write (Op.forEach (fun token => spendAtToken sr ieb.globalIndex token.1) ieb.tokens)
      return some ieb.globalIndex

def indexTransaction (txId : Digest32) (txIndex : UInt16) (height size : UInt32) (inputIndexes outputIndexes : List UInt64)
    (dataInputs : List Digest32) : IndexerOp UInt64 :=
  withLock .state .write do
    let globalIndex := (← get).state.globalTxIndex
    let itx : IndexedErgoTransaction :=
      ⟨txId, txIndex, height, size, globalIndex, inputIndexes, outputIndexes, dataInputs⟩
    withLock .transactions .write (modify fun indexer => { indexer with transactions := indexer.transactions ++ [itx] })
    modify fun indexer =>
      { indexer with state := { indexer.state with globalTxIndex := indexer.state.globalTxIndex + 1 } }
    return globalIndex

/-- The emission of a token that is buffered grows; for any other token a record begins. -/
def registerToken (tokenId creationBoxId : Digest32) (amount : UInt64) (name description : String) (decimals : UInt8) :
    IndexerOp Unit :=
  withLock .tokens .write (modify fun indexer =>
    let uniqueId := tokenUniqueId sr tokenId
    let token := match indexer.tokens.lookup uniqueId with
      | some existing => existing.addEmission amount
      | none => .withCreationInfo tokenId creationBoxId amount name description decimals
    { indexer with tokens := indexer.tokens.insert uniqueId token })

/-! ### Flushing -/

def boxBatch (box : Digest32 × IndexedErgoBox) : IndexBatch :=
  [⟨.extraIndex box.1, .put box.2.serialize⟩, ⟨.boxIndex box.2.globalIndex, .put box.1.bytes⟩]

def transactionBatch (itx : IndexedErgoTransaction) : IndexBatch :=
  [⟨.extraIndex itx.txId, .put itx.serialize⟩, ⟨.txNumericIndex itx.globalIndex, .put itx.txId.bytes⟩]

def recordBatch {A : Type} (serialize : A → Bytes) (record : Digest32 × A) : IndexBatch :=
  [⟨.extraIndex record.1, .put (serialize record.2)⟩]

def flushBatch (order : FlushOrder) (indexer : ExtraIndexer) : IndexBatch :=
  [⟨.indexerState, .put indexer.state.serialize⟩] ++ (order.boxes.entries indexer.boxes).flatMap boxBatch ++
    indexer.transactions.flatMap transactionBatch ++
    (order.addresses.entries indexer.addresses).flatMap
      (recordBatch (IndexedErgoAddress.serialize order.balance)) ++
    (order.tokens.entries indexer.tokens).flatMap (recordBatch IndexedToken.serialize)

def clearBuffers : IndexerOp Unit := do
  withLock .boxes .write (modify fun indexer => { indexer with boxes := ∅ })
  withLock .addresses .write (modify fun indexer => { indexer with addresses := ∅ })
  withLock .tokens .write (modify fun indexer => { indexer with tokens := ∅ })
  withLock .transactions .write (modify fun indexer => { indexer with transactions := [] })

def flush (order : FlushOrder) (fails : Bool) : IndexerOp (Except StorageError Unit) := do
  Op.forEach (fun lock => withLock lock .read (pure ())) [.state, .boxes, .transactions, .addresses, .tokens]
  let batch := flushBatch order (← get)
  if fails then return .error .database
  else do
    modify fun indexer => { indexer with storage := indexer.storage.write batch }
    clearBuffers
    return .ok ()

end ExtraIndexer
end ErgoNode
