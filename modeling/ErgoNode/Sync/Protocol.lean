import ErgoNode.Consensus.Block
import ErgoNode.Sync.Download

/-!
# The sync protocol: block sections

What the protocol does when block sections arrive, when the node reports a block as applied or
failed, and when the node asks for blocks. Blocks are known here under two ids: that of the header
and that of the transactions section, which is derived from it.
-/

namespace ErgoNode
open Lib

inductive ModifierType where
  | transaction | header | blockTransactions | extension | adProofs | fullBlock
  deriving DecidableEq

namespace ModifierType

def fromByte (b : UInt8) : Option ModifierType :=
  if b = 2 then some transaction
  else if b = 101 then some header
  else if b = 102 then some blockTransactions
  else if b = 108 then some extension
  else if b = 104 then some adProofs
  else if b = 100 then some fullBlock
  else none

def toByte : ModifierType → UInt8
  | transaction => 2
  | header => 101
  | blockTransactions => 102
  | extension => 108
  | adProofs => 104
  | fullBlock => 100

end ModifierType

inductive SyncCommand where
  | applyBlock (blockId blockData : Bytes)
  deriving DecidableEq

inductive SyncEvent where
  | modifierReceived (typeId : UInt8) (id : ModifierId) (data : Bytes)
  | blockApplied (blockId : Bytes) (height : Nat)
  | blockFailed (blockId : Bytes)
  | requestBlocks (headers : List Header)
  deriving DecidableEq

section SectionIds
variable (sr : SigmaRust)

def computeBlockSectionId (modifierType : ModifierType) (headerId : Bytes) (sectionDigest : Digest32) :
    ModifierId :=
  (sr.blake2b256 (modifierType.toByte :: headerId ++ sectionDigest.bytes)).bytes

def transactionsId (header : Header) : ModifierId :=
  computeBlockSectionId sr .blockTransactions header.id.bytes header.transactionRoot

def extensionId (header : Header) : ModifierId :=
  computeBlockSectionId sr .extension header.id.bytes header.extensionRoot

end SectionIds

structure HeaderChain where
  headers : List Header
  missingBlocks : List ModifierId
  txIdToHeaderId : Table ModifierId Bytes
  headerIdToTxId : Table Bytes ModifierId
  headersById : Table Bytes Header

namespace HeaderChain

def maxCachedHeaders : Nat := 50000

def maxPendingBlocks : Nat := 10000

def new : HeaderChain := ⟨[], [], ∅, ∅, ∅⟩

variable (chain : HeaderChain)

def trackHeader (header : Header) (transactionsId : ModifierId) (headerId : Bytes) : HeaderChain :=
  { chain with
    headersById := chain.headersById.insert headerId header
    headers := chain.headers ++ [header]
    headerIdToTxId := chain.headerIdToTxId.insert headerId transactionsId
    txIdToHeaderId := chain.txIdToHeaderId.insert transactionsId headerId }

def removeHeader (headerId : Bytes) : HeaderChain :=
  let chain := { chain with headersById := chain.headersById.erase headerId }
  match chain.headerIdToTxId.lookup headerId with
  | some txId =>
      { chain with
        headerIdToTxId := chain.headerIdToTxId.erase headerId
        txIdToHeaderId := chain.txIdToHeaderId.erase txId }
  | none => chain

def getHeader (headerId : Bytes) : Option Header := chain.headersById.lookup headerId

def getTxId (headerId : Bytes) : Option ModifierId := chain.headerIdToTxId.lookup headerId

def dropHeader (chain : HeaderChain) (oldHeader : Header) : HeaderChain :=
  { chain with headers := chain.headers.tail }.removeHeader oldHeader.id.bytes

def dropBlock (chain : HeaderChain) (oldTxId : ModifierId) : HeaderChain :=
  let chain := { chain with missingBlocks := chain.missingBlocks.tail }
  match chain.txIdToHeaderId.lookup oldTxId with
  | some headerId =>
      { chain with
        txIdToHeaderId := chain.txIdToHeaderId.erase oldTxId
        headerIdToTxId := chain.headerIdToTxId.erase headerId
        headersById := chain.headersById.erase headerId }
  | none => chain

def enforceLimits : HeaderChain :=
  let chain := (chain.headers.take (chain.headers.length - maxCachedHeaders)).foldl dropHeader chain
  (chain.missingBlocks.take (chain.missingBlocks.length - maxPendingBlocks)).foldl dropBlock chain

/-- Nothing is added to the missing blocks. -/
def addHeader (header : Header) (transactionsId : ModifierId) (headerId : Bytes) : HeaderChain :=
  (chain.trackHeader header transactionsId headerId).enforceLimits

end HeaderChain

structure SyncProtocol where
  downloader : BlockDownloader
  headerChain : HeaderChain

namespace SyncProtocol
variable (sr : SigmaRust) (interpreter : Interpreter)

def new : SyncProtocol := ⟨.new, .new⟩

variable (sync : SyncProtocol)

def contradictsHeader (blockTxs : BlockTransactions) : Bool :=
  match sync.headerChain.getHeader blockTxs.headerId.bytes with
  | some header => (blockTxs.validateAgainstHeader sr interpreter header).toOption.isNone
  | none => false

/-- The id of the delivery is marked as completed; the block goes to the node under the header id that
its bytes start with. -/
def onBlockReceived (id : ModifierId) (data : Bytes) : SyncProtocol × List SyncCommand :=
  match BlockTransactions.parse sr interpreter data with
  | .error _ => ({ sync with downloader := sync.downloader.fail id [] }, [])
  | .ok blockTxs =>
      if sync.contradictsHeader sr interpreter blockTxs then
        ({ sync with downloader := sync.downloader.fail id [] }, [])
      else
        ({ downloader := sync.downloader.complete id
           headerChain := { sync.headerChain with
             txIdToHeaderId := sync.headerChain.txIdToHeaderId.erase id } },
          [.applyBlock blockTxs.headerId.bytes data])

/-- Completed whether or not it parses; what is stored then, no block depends on. -/
def onExtensionReceived (id : ModifierId) : SyncProtocol :=
  { sync with downloader := sync.downloader.complete id }

def onModifier (typeId : UInt8) (id : ModifierId) (data : Bytes) : SyncProtocol × List SyncCommand :=
  match ModifierType.fromByte typeId with
  | some .blockTransactions => sync.onBlockReceived sr interpreter id data
  | some .extension => (sync.onExtensionReceived id, [])
  | _ => (sync, [])

def onBlockApplied (blockId : Bytes) : SyncProtocol :=
  let downloader := match sync.headerChain.getTxId blockId with
    | some txId => sync.downloader.uncomplete txId
    | none => sync.downloader
  { headerChain := sync.headerChain.removeHeader blockId
    downloader := downloader.uncomplete blockId }

def onBlockFailed (blockId : Bytes) : SyncProtocol :=
  let downloader := sync.downloader.uncomplete blockId
  { sync with
    downloader := match sync.headerChain.getTxId blockId with
      | some txId => downloader.uncomplete txId
      | none => downloader }

def trackRequested (chain : HeaderChain) (header : Header) : HeaderChain :=
  if transactionsId sr header ∈ chain.txIdToHeaderId then chain
  else chain.trackHeader header (transactionsId sr header) header.id.bytes

def blockTasks (header : Header) : List DownloadTask :=
  [.new (transactionsId sr header) ModifierType.blockTransactions.toByte,
    .new (extensionId sr header) ModifierType.extension.toByte]

/-- The dispatch that ends it is a step of its own. -/
def onRequestBlocks (headers : List Header) : SyncProtocol where
  headerChain := headers.foldl (trackRequested sr) sync.headerChain
  downloader := sync.downloader.queue (headers.flatMap (blockTasks sr))

def storeHeader (header : Header) : SyncProtocol :=
  { sync with
    headerChain := sync.headerChain.addHeader header (transactionsId sr header) header.id.bytes }

def handleEvent : SyncEvent → SyncProtocol × List SyncCommand
  | .modifierReceived typeId id data => sync.onModifier sr interpreter typeId id data
  | .blockApplied blockId _ => (sync.onBlockApplied blockId, [])
  | .blockFailed blockId => (sync.onBlockFailed blockId, [])
  | .requestBlocks headers => (sync.onRequestBlocks sr headers, [])

end SyncProtocol
end ErgoNode
