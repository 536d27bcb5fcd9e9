import ErgoNode.Lib.Overflow
import ErgoNode.Network.Message
import ErgoNode.Sync.Protocol
import ErgoNode.Sync.Synchronizer

/-!
# The sync protocol: heights

What the protocol reads off the heights of the headers it keeps: the best height, the headers of a
SyncInfo, and whether blocks are due.
-/

namespace ErgoNode
open Lib

def parallelDownloads : Nat := 512

structure SyncHeights where
  protocol : SyncProtocol
  synchronizer : Synchronizer
  v2SyncHeaders : List Header

namespace SyncHeights
variable (sr : SigmaRust)

def new : SyncHeights := ⟨.new, .new .default, []⟩

variable (s : SyncHeights)

abbrev headers : List Header := s.protocol.headerChain.headers

abbrev missingBlocks : List ModifierId := s.protocol.headerChain.missingBlocks

def setHeight (height : Nat) : SyncHeights := { s with synchronizer := s.synchronizer.setHeight height }

/-! ### The best height -/

def bestHeaderHeight : Nat := (s.headers.getLast?.map Header.height).getD s.synchronizer.ourHeight

inductive Call where
  | addHeader (header : Header) (transactionsId : ModifierId) (headerId : Bytes)
  | trackHeader (header : Header) (transactionsId : ModifierId) (headerId : Bytes)
  | removeHeader (headerId : Bytes)
  | setHeight (height : Nat)

def withChain (chain : HeaderChain) : SyncHeights :=
  { s with protocol := { s.protocol with headerChain := chain } }

def step (s : SyncHeights) : Call → Option SyncHeights
  | .addHeader header transactionsId headerId =>
      some (s.withChain (s.protocol.headerChain.addHeader header transactionsId headerId))
  | .trackHeader header transactionsId headerId =>
      some (s.withChain (s.protocol.headerChain.trackHeader header transactionsId headerId))
  | .removeHeader headerId => some (s.withChain (s.protocol.headerChain.removeHeader headerId))
  | .setHeight height => some (s.setHeight height)

/-! ### The headers of a SyncInfo -/

/-- The headers of the database that are loaded at the start, the newest first; without any id nothing is
loaded. -/
def initFromStoredHeaders (allHeaderIds : List Bytes) (v2Headers : List Header) : SyncHeights :=
  if allHeaderIds = [] ∨ v2Headers = [] then s else { s with v2SyncHeaders := v2Headers }

def storeHeader (s : SyncHeights) (header : Header) : SyncHeights :=
  { protocol := s.protocol.storeHeader sr header
    v2SyncHeaders := header :: s.v2SyncHeaders.tail
    synchronizer := s.synchronizer.setHeight header.height }

/-- A header that cannot be written is left out. -/
def serializedHeaders : List Bytes := s.v2SyncHeaders.filterMap fun header => (sr.headerBytes header).toOption

def buildV2SyncInfo : SyncInfo :=
  if s.serializedHeaders sr = [] then .v1 [Digest32.zero.bytes] else .v2 (s.serializedHeaders sr)

/-! ### Blocks that are due -/

def headersFirst : Bool :=
  let peerHeight := s.synchronizer.bestPeerHeight.getD 0
  let ourHeaderHeight := (s.headers.getLast?.map Header.height).getD 0
  let estimated := if peerHeight > 0 then peerHeight else ourHeaderHeight
  estimated > 0 && (s.synchronizer.ourHeight + 1000) % 2 ^ 32 < estimated

/-- A dispatched task counts twice: it is still pending. -/
def pendingAndInFlight : Nat :=
  s.protocol.downloader.pending.entries.length + s.protocol.downloader.inFlight.entries.length

def queueLength : Nat := 16

def moveBlocks (count : Nat) : SyncHeights :=
  { s with protocol :=
      { headerChain := { s.protocol.headerChain with missingBlocks := s.missingBlocks.drop count }
        downloader := s.protocol.downloader.queue
          ((s.missingBlocks.take count).map fun id => .new id ModifierType.blockTransactions.toByte) } }

def queueBlockDownloads : Overflowing SyncHeights :=
  if s.headersFirst ∨ s.pendingAndInFlight ≥ parallelDownloads then return s
  else do
    let room ← .sub (2 ^ 64) queueLength s.protocol.downloader.pending.entries.length
    let room ← .sub (2 ^ 64) room s.protocol.downloader.inFlight.entries.length
    return s.moveBlocks (min room s.missingBlocks.length)

end SyncHeights
end ErgoNode
