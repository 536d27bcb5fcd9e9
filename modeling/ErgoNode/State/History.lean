import ErgoNode.Chain.Types
import ErgoNode.Lib.BigEndian
import ErgoNode.Lib.Except
import ErgoNode.Lib.Overflow
import ErgoNode.Storage.Database

/-!
# Block history

Headers, block sections, cumulative difficulties and the best header, with one height index slot
for each height. Headers come one at a time (`appendHeader`), in batches (`appendHeadersBatched`)
or inside full blocks.
-/

namespace ErgoNode
open Lib

inductive ChainSelection where
  | extended
  | reorg (forkHeight rollbackCount : Nat)
  | ignored
  deriving DecidableEq

/-- The in-memory fields of headers and blocks; those of pruning are in `HistoryPruning`. -/
structure History where
  bestHeaderId : Option BlockId
  bestHeight : Nat
  bestCumulativeDifficulty : Nat
  bestFullBlockId : Option BlockId
  bestFullBlockHeight : Nat
  deriving DecidableEq

variable (sr : SigmaRust)

namespace HeaderStore

def putWithBytesBatched (batch : WriteBatch) (header : Header) (rawBytes : Bytes) : WriteBatch :=
  (batch.put .headers header.id rawBytes).put .headerChain header.height header.id

def putBatched (batch : WriteBatch) (header : Header) : StateResult WriteBatch := do
  let bytes ← (sr.headerBytes header).mapError .serialization
  return putWithBytesBatched batch header bytes

/-- The id is recomputed from the stored bytes. -/
protected def get (db : Database) (id : BlockId) : StateResult (Option Header) :=
  match db.get .headers id with
  | some bytes => do
      let header ← (sr.parseHeader bytes).mapError .serialization
      return some { header with id := sr.blake2b256 bytes }
  | none => return none

def getByHeight (db : Database) (height : Nat) : StateResult (Option Header) :=
  match db.get .headerChain height with
  | some id => HeaderStore.get sr db id
  | none => return none

/-- The headers from a height on, up to the first height without one. -/
def getRange (db : Database) (fromHeight : Nat) : Nat → StateResult (List Header)
  | 0 => return []
  | count + 1 => do
      match ← getByHeight sr db fromHeight with
      | some header => return header :: (← getRange db (fromHeight + 1) count)
      | none => return []

def contains (db : Database) (id : BlockId) : Bool := db.contains .headers id

end HeaderStore

namespace BlockStore

/-- The number of transactions, then each one behind its length. -/
def serializeTransactions (txs : BlockTransactions) : StateResult Bytes := do
  let txBytes ← txs.txs.mapM fun tx => (sr.txBytes tx).mapError .serialization
  return BigEndian.write 4 txs.txs.length ++ txBytes.flatMap fun bytes => BigEndian.write 4 bytes.length ++ bytes

def putTransactionsBatched (batch : WriteBatch) (blockId : BlockId) (txs : BlockTransactions) :
    StateResult WriteBatch := do
  let bytes ← serializeTransactions sr txs
  return batch.put .blockTransactions blockId bytes

/-- The number of fields, then each one's key, the length of its value and the value. -/
def serializeExtension (extension : Extension) : Bytes :=
  BigEndian.write 4 extension.fields.length ++ extension.fields.flatMap fun field =>
    field.key.1 :: field.key.2 :: (BigEndian.write 2 field.value.length ++ field.value)

def putExtensionBatched (batch : WriteBatch) (extension : Extension) : WriteBatch :=
  batch.put .extensions extension.headerId (serializeExtension extension)

def putAdProofsBatched (batch : WriteBatch) (proofs : ADProofs) : WriteBatch :=
  batch.put .adProofs proofs.headerId proofs.proofBytes

end BlockStore

namespace History

def new : History := ⟨none, 0, 0, none, 0⟩

def getCumulativeDifficulty (db : Database) (blockId : BlockId) : Option Nat :=
  db.get .cumulativeDifficulty blockId

def storeCumulativeDifficulty (batch : WriteBatch) (blockId : BlockId) (difficulty : Nat) :
    WriteBatch :=
  batch.put .cumulativeDifficulty blockId difficulty

/-- Up to height 2 there is no stored parent; a parent without an entry counts as zero. -/
def parentCumulative (db : Database) (header : Header) : Nat :=
  if header.height ≤ 2 then 0 else (getCumulativeDifficulty db header.parentId).getD 0

def putBestHeader (batch : WriteBatch) (id : BlockId) (height cumulativeDifficulty : Nat) :
    WriteBatch :=
  ((batch.put .metadata .bestHeaderId id).put .metadata .bestHeight height).put
    .metadata .bestCumulativeDifficulty cumulativeDifficulty

def putBestFullBlock (batch : WriteBatch) (id : BlockId) (height : Nat) : WriteBatch :=
  (batch.put .metadata .bestFullBlockId id).put .metadata .bestFullBlockHeight height

def withBestHeader (history : History) (id : BlockId) (height cumulativeDifficulty : Nat) :
    History :=
  { history with
    bestHeaderId := some id
    bestHeight := height
    bestCumulativeDifficulty := cumulativeDifficulty }

def withBestFullBlock (history : History) (id : BlockId) (height : Nat) : History :=
  { history with bestFullBlockId := some id, bestFullBlockHeight := height }

/-- Walk back from `newId` at `newHeight` to the first header that the height index also holds. -/
def walkToFork (db : Database) (newId : BlockId) : Nat → StateResult Nat
  | 0 => return 1
  | newHeight + 1 => do
      match ← HeaderStore.getByHeight sr db (newHeight + 1) with
      | some mainHeader =>
          if mainHeader.id = newId then return newHeight + 1
          else match ← HeaderStore.get sr db newId with
            | some header => walkToFork db header.parentId newHeight
            | none => return 1
      | none =>
          match ← HeaderStore.get sr db newId with
          | some header => walkToFork db header.parentId newHeight
          | none => return 1

def findForkHeight (db : Database) (newHeaderId : BlockId) : StateResult Nat := do
  match ← HeaderStore.get sr db newHeaderId with
  | some newHeader => walkToFork sr db newHeader.parentId (newHeader.height - 1)
  | none => throw (.headerNotFound (hexEncode newHeaderId.bytes))

/-- Write the batch; where its header is heavier than the best one, the header becomes the best. -/
def selectChain (batch : WriteBatch) (headerId : BlockId) (height cumulativeDifficulty : Nat) :
    Op (OnDatabase History) StateError ChainSelection := do
  let st ← get
  if cumulativeDifficulty > st.mem.bestCumulativeDifficulty then do
    let currentHeight := st.mem.bestHeight
    OnDatabase.writeBatch (putBestHeader batch headerId height cumulativeDifficulty)
    modify fun st => { st with mem := st.mem.withBestHeader headerId height cumulativeDifficulty }
    if height ≤ currentHeight ∧ currentHeight > 0 then do
      let st ← get
      let forkHeight ← MonadExcept.ofExcept (findForkHeight sr st.db headerId)
      return .reorg forkHeight (currentHeight - forkHeight)
    else return .extended
  else do
    OnDatabase.writeBatch batch
    return .ignored

/-- The raw bytes where the caller has them, else the header serialized again. -/
def headerBatch (header : Header) (rawBytes : Option Bytes) : StateResult WriteBatch :=
  match rawBytes with
  | some bytes => .ok (HeaderStore.putWithBytesBatched [] header bytes)
  | none => HeaderStore.putBatched sr [] header

def appendHeaderInternal (header : Header) (rawBytes : Option Bytes) :
    Op (OnDatabase History) StateError ChainSelection := do
  let st ← get
  if HeaderStore.contains st.db header.id then return .ignored
  else if header.height > 2 ∧ !HeaderStore.contains st.db header.parentId then
    throw (.headerNotFound (hexEncode header.parentId.bytes))
  else do
    let cumulativeDifficulty := parentCumulative st.db header + nbitsToDifficulty header.nBits
    -- the header is written on its own, before its cumulative difficulty
    let batch ← MonadExcept.ofExcept (headerBatch sr header rawBytes)
    OnDatabase.writeBatch batch
    selectChain sr (storeCumulativeDifficulty [] header.id cumulativeDifficulty) header.id
      header.height cumulativeDifficulty

def appendHeader (header : Header) : Op (OnDatabase History) StateError ChainSelection :=
  appendHeaderInternal sr header none

def appendHeaderWithBytes (header : Header) (rawBytes : Bytes) :
    Op (OnDatabase History) StateError ChainSelection :=
  appendHeaderInternal sr header (some rawBytes)

/-! ### Header batches -/

structure HeaderBatch where
  batch : WriteBatch
  headerIds : List BlockId
  cumulativeDifficulty : Nat
  finalHeaderId : BlockId
  finalHeight : Nat
  finalCumulativeDifficulty : Nat

def HeaderBatch.start (db : Database) (firstHeader : Header) : HeaderBatch where
  batch := []
  headerIds := []
  cumulativeDifficulty := parentCumulative db firstHeader
  finalHeaderId := firstHeader.id
  finalHeight := firstHeader.height
  finalCumulativeDifficulty := parentCumulative db firstHeader

/-- A stored header is skipped. A header whose parent is in the batch adds to the running total,
whichever header of the batch that total is for. -/
def addHeaderToBatch (db : Database) (acc : HeaderBatch) (item : Header × Bytes) :
    StateResult HeaderBatch :=
  let (header, rawBytes) := item
  if HeaderStore.contains db header.id then .ok acc
  else
    let inBatch := decide (header.parentId ∈ acc.headerIds)
    if header.height > 2 ∧ !inBatch ∧ !HeaderStore.contains db header.parentId then
      .error (.headerNotFound
        s!"Parent {hexEncode header.parentId.bytes} not found for header at height {header.height}")
    else
      let parentInBatch := header.height > 2 ∧ inBatch
      let parent := if parentInBatch then acc.cumulativeDifficulty else parentCumulative db header
      let cumulativeDifficulty := parent + nbitsToDifficulty header.nBits
      .ok {
        batch := storeCumulativeDifficulty
          (HeaderStore.putWithBytesBatched acc.batch header rawBytes) header.id cumulativeDifficulty
        headerIds := acc.headerIds ++ [header.id]
        cumulativeDifficulty
        finalHeaderId := header.id
        finalHeight := header.height
        finalCumulativeDifficulty := cumulativeDifficulty }

def appendHeadersBatched (headers : List (Header × Bytes)) :
    Op (OnDatabase History) StateError ChainSelection := do
  match headers with
  | [] => return .ignored
  | first :: _ => do
      let st ← get
      let acc ← MonadExcept.ofExcept
        (headers.foldlM (addHeaderToBatch st.db) (HeaderBatch.start st.db first.1))
      selectChain sr acc.batch acc.finalHeaderId acc.finalHeight acc.finalCumulativeDifficulty

/-! ### Full blocks -/

def addBlockToBatch (batch : WriteBatch) (block : FullBlock) (parentCumulative : Nat) :
    StateResult (WriteBatch × Nat) := do
  let batch ← HeaderStore.putBatched sr batch block.header
  let cumulativeDifficulty := parentCumulative + nbitsToDifficulty block.header.nBits
  let batch := storeCumulativeDifficulty batch block.id cumulativeDifficulty
  let batch ← BlockStore.putTransactionsBatched sr batch block.id block.transactions
  let batch := BlockStore.putExtensionBatched batch block.extension
  let batch := match block.adProofs with
    | some proofs => BlockStore.putAdProofsBatched batch proofs
    | none => batch
  return (batch, cumulativeDifficulty)

/-- The metadata a block (or the last block of a batch) adds: the best header where it is heavier,
the best full block where it is higher. -/
def putBestBlock (history : History) (batch : WriteBatch) (blockId : BlockId)
    (height cumulativeDifficulty : Nat) : WriteBatch :=
  let batch := if cumulativeDifficulty > history.bestCumulativeDifficulty then
      putBestHeader batch blockId height cumulativeDifficulty
    else batch
  if height > history.bestFullBlockHeight then putBestFullBlock batch blockId height else batch

def withBestBlock (history : History) (blockId : BlockId) (height cumulativeDifficulty : Nat) :
    History :=
  let history := if cumulativeDifficulty > history.bestCumulativeDifficulty then
      history.withBestHeader blockId height cumulativeDifficulty
    else history
  if height > history.bestFullBlockHeight then history.withBestFullBlock blockId height else history

/-- The reorganisation is reported down to height 1; no fork point is computed. -/
def appendFullBlock (block : FullBlock) : Op (OnDatabase History) StateError ChainSelection := do
  let st ← get
  let (batch, cumulativeDifficulty) ← MonadExcept.ofExcept
    (addBlockToBatch sr [] block (parentCumulative st.db block.header))
  let currentHeight := st.mem.bestHeight
  let selection :=
    if cumulativeDifficulty > st.mem.bestCumulativeDifficulty then
      if block.height ≤ currentHeight ∧ currentHeight > 0 then .reorg 1 (currentHeight - 1)
      else .extended
    else .ignored
  OnDatabase.writeBatch (putBestBlock st.mem batch block.id block.height cumulativeDifficulty)
  modify fun st =>
    { st with mem := st.mem.withBestBlock block.id block.height cumulativeDifficulty }
  return selection

def executeBatch (batch : WriteBatch) : Op (OnDatabase History) StateError Unit :=
  OnDatabase.writeBatch batch

def updateInMemoryState (blockId : BlockId) (height cumulativeDifficulty : Nat) :
    Op (OnDatabase History) StateError Unit :=
  modify fun st => { st with mem := st.mem.withBestBlock blockId height cumulativeDifficulty }

/-! ### The header locator

The ids of headers from the best one down to height 1: neighbours first, then farther and farther apart,
once more than ten are found. -/

/-- The ids of a locator, with the heights that have been read for them. -/
structure Locator where
  visited : List Nat
  ids : List BlockId
  deriving DecidableEq

namespace Locator

def empty : Locator := ⟨[], []⟩

def visit (locator : Locator) (height : Nat) (found : Option Header) : Locator :=
  ⟨locator.visited ++ [height], locator.ids ++ (found.map Header.id).toList⟩

end Locator

/-- The height that is read next: the subtraction saturates, and height 0 counts as 1. -/
def stepDown (height step : Nat) : Nat := if height - step < 1 then 1 else height - step

def nextStep (found step : Nat) : Overflowing Nat := if found > 10 then Overflowing.mul (2 ^ 32) step 2 else pure step

/-- `none` where the rounds end before height 1 is read. -/
def locatorLoop (db : Database) : Nat → Nat → Nat → Locator → StateResult (Option (Overflowing Locator))
  | 0, _, _, _ => return none
  | rounds + 1, height, step, locator => do
      let locator := locator.visit height (← HeaderStore.getByHeight sr db height)
      if height = 1 then return some (pure locator)
      else
        let next := nextStep locator.ids.length step
        let located ← locatorLoop db rounds (stepDown height step) next.value locator
        return located.map fun located => next >>= fun _ => located

def getHeaderLocator (history : History) (db : Database) (rounds : Nat) :
    StateResult (Option (Overflowing Locator)) :=
  if history.bestHeight = 0 then return some (pure .empty)
  else locatorLoop sr db rounds history.bestHeight 1 .empty

end History
end ErgoNode
