import ErgoNode.Node.Validation
import ErgoNode.Sync.Protocol

/-!
# The node's handler for downloaded blocks

A block above the next height is buffered under its height. The next block is processed together
with the buffered blocks that follow it without a gap: each is validated, the validated ones are
written in batches, and what remains after a failure goes back to the buffer.
-/

namespace ErgoNode
open Lib

structure QueuedBlock where
  blockId : Bytes
  blockData : Bytes
  deriving DecidableEq

structure ValidatedBlock where
  block : FullBlock
  stateChange : StateChange
  blockId : Bytes

structure Node where
  state : StateManager
  pendingBlocks : Table Nat QueuedBlock

namespace Node
variable (sr : SigmaRust) (interpreter : Interpreter)

def getHeader (db : Database) (blockId : Bytes) : Option Header :=
  (HeaderStore.get sr db (blockIdOf blockId)).toOption.join

/-! ### The validation loop -/

def batchWriteSize : Nat := 64

structure ApplyLoop where
  state : StateManager
  pendingBlocks : Table Nat QueuedBlock
  validatedBlocks : List ValidatedBlock
  validationFailed : Bool
  batchCreatedBoxes : ErgoBoxMap
  events : List SyncEvent

/-- The chain parameters may change from one batch to the next; `parameters` are those in force when
the block at a height is validated. -/
def validateQueued (parameters : Nat → ChainParameters) (db : Database)
    (batchCreatedBoxes : ErgoBoxMap) (queued : QueuedBlock) :
    Except (Option String) (FullBlock × StateChange × ErgoBoxMap) :=
  match BlockTransactions.parse sr interpreter queued.blockData with
  | .error _ => .error (some "Parse error")
  | .ok blockTxs =>
      match getHeader sr db queued.blockId with
      | none => .error none
      | some header => do
          let block : FullBlock := ⟨header, blockTxs, Extension.empty (blockIdOf queued.blockId), none⟩
          let (change, batchCreatedBoxes) ← validateNext sr interpreter (parameters block.height) db
            batchCreatedBoxes block
          return (block, change, batchCreatedBoxes)

def applyValidated (acc : ApplyLoop) : ApplyLoop :=
  let blocks := acc.validatedBlocks.map fun validated => (validated.block, validated.stateChange)
  let blockIds := acc.validatedBlocks.map ValidatedBlock.blockId
  let firstHeight := (acc.validatedBlocks.head?.map fun validated => validated.block.height).getD 0
  let acc := { acc with validatedBlocks := [], batchCreatedBoxes := .empty }
  match (StateManager.applyBlocksBatched sr blocks).exec acc.state with
  | (.ok _, state) =>
      { acc with
        state
        events := acc.events ++ blockIds.zipIdx.map fun (blockId, i) =>
          .blockApplied blockId (firstHeight + i) }
  | (.error _, state) =>
      { acc with
        state
        validationFailed := true
        events := acc.events ++ blockIds.map .blockFailed }

/-- After a failure the blocks of the run are buffered again. A block whose header or parent header is
missing fails without an event. -/
def processQueued (parameters : Nat → ChainParameters) (acc : ApplyLoop) (queued : QueuedBlock) :
    ApplyLoop :=
  if acc.validationFailed then
    match getHeader sr acc.state.db queued.blockId with
    | some header => { acc with pendingBlocks := acc.pendingBlocks.insert header.height queued }
    | none => acc
  else
    match validateQueued sr interpreter parameters acc.state.db acc.batchCreatedBoxes queued with
    | .error none => { acc with validationFailed := true }
    | .error (some _) =>
        { acc with validationFailed := true, events := acc.events ++ [.blockFailed queued.blockId] }
    | .ok (block, stateChange, batchCreatedBoxes) =>
        let acc := { acc with
          batchCreatedBoxes
          validatedBlocks := acc.validatedBlocks ++ [⟨block, stateChange, queued.blockId⟩] }
        if acc.validatedBlocks.length ≥ batchWriteSize then applyValidated sr acc else acc

def applyRemaining (acc : ApplyLoop) : ApplyLoop :=
  if acc.validatedBlocks ≠ [] ∧ acc.validationFailed = false then applyValidated sr acc else acc

/-! ### The handler -/

def maxPendingBlocks : Nat := 2048

/-- Take the buffered blocks from a height on, up to the first gap. Each round takes one, so `fuel` is
the size of the buffer. -/
def takeRun : Nat → Nat → Table Nat QueuedBlock → List QueuedBlock × Table Nat QueuedBlock
  | 0, _, pending => ([], pending)
  | fuel + 1, nextHeight, pending =>
      match pending.lookup nextHeight with
      | none => ([], pending)
      | some queued =>
          let (run, rest) := takeRun fuel (nextHeight + 1) (pending.erase nextHeight)
          (queued :: run, rest)

def collectRun (node : Node) (queued : QueuedBlock) : List QueuedBlock × Table Nat QueuedBlock :=
  let (run, pending) := takeRun node.pendingBlocks.entries.length (node.state.utxo.height + 2)
    node.pendingBlocks
  (queued :: run, pending)

def ApplyLoop.start (state : StateManager) (pendingBlocks : Table Nat QueuedBlock) : ApplyLoop :=
  ⟨state, pendingBlocks, [], false, .empty, []⟩

def processRun (parameters : Nat → ChainParameters) (node : Node) (queued : QueuedBlock) : ApplyLoop :=
  let (run, pending) := node.collectRun queued
  applyRemaining sr
    (run.foldl (processQueued sr interpreter parameters) (ApplyLoop.start node.state pending))

def minHeightForSyncComplete : Nat := 1000000

def storeHeadersBatch (headers : List (Header × Bytes)) (state : StateManager) : StateManager :=
  match (StateManager.applyHeadersBatched sr headers).exec state with
  | (.ok _, state) =>
      if state.history.bestHeight > state.utxo.height + 1000 then
        { state with utxo := { state.utxo with syncMode := true } }
      else state
  | (.error _, state) => state

def endSyncMode (state : StateManager) : StateManager :=
  if state.utxo.syncMode ∧ state.isSynced ∧ state.history.bestHeight > minHeightForSyncComplete then
    { state with utxo := { state.utxo with syncMode := false } }
  else state

def requestBlocks (state : StateManager) (count : Nat) : List SyncEvent :=
  match HeaderStore.getRange sr state.db (state.utxo.height + 1) count with
  | .ok (header :: headers) => [.requestBlocks (header :: headers)]
  | _ => []

def requestNext (state : StateManager) : List SyncEvent :=
  if state.utxo.height < state.history.bestHeight then
    requestBlocks sr state (min 256 (state.history.bestHeight - state.utxo.height))
  else []

/-- A block without a header, at or below the UTXO height, or beyond a full buffer is dropped. -/
def applyBlock (parameters : Nat → ChainParameters) (node : Node) (queued : QueuedBlock) :
    Node × List SyncEvent :=
  match getHeader sr node.state.db queued.blockId with
  | none => (node, [])
  | some header =>
      let nextHeight := node.state.utxo.height + 1
      if header.height = nextHeight then
        let acc := processRun sr interpreter parameters node queued
        let state := endSyncMode acc.state
        (⟨state, acc.pendingBlocks⟩, acc.events ++ requestNext sr state)
      else if header.height > nextHeight then
        if node.pendingBlocks.entries.length ≥ maxPendingBlocks then (node, [])
        else ({ node with pendingBlocks := node.pendingBlocks.insert header.height queued }, [])
      else (node, [])

end Node

/-! ### The two tasks -/

structure System where
  sync : SyncProtocol
  node : Node
  commands : List SyncCommand
  events : List SyncEvent

namespace System
variable (sr : SigmaRust) (interpreter : Interpreter)

/-- What can happen next. What peers send, which headers come in and are stored, which requests time
out, when blocks are asked for and which chain parameters are in force is left open. -/
inductive Action where
  | receive (typeId : UInt8) (id : ModifierId) (data : Bytes)
  | storeHeader (header : Header)
  | dispatch (id : ModifierId) (peer : PeerId)
  | fail (id : ModifierId) (peer : PeerId)
  | handleEvent
  | storeHeadersBatch (headers : List (Header × Bytes))
  | requestBlocks (count : Nat)
  | handleCommand (parameters : Nat → ChainParameters)

def new (state : StateManager) : System := ⟨.new, ⟨state, ∅⟩, [], []⟩

/-- Handling an event or a command is one step: neither task reads the other's state. -/
def step (s : System) : Action → Option System
  | .receive typeId id data => some { s with events := s.events ++ [.modifierReceived typeId id data] }
  | .storeHeader header => some { s with sync := s.sync.storeHeader sr header }
  | .dispatch id peer =>
      some { s with sync := { s.sync with downloader := s.sync.downloader.dispatch id peer } }
  | .fail id peer =>
      some { s with sync := { s.sync with downloader := s.sync.downloader.fail id peer } }
  | .handleEvent =>
      match s.events with
      | [] => none
      | event :: events =>
          let (sync, commands) := s.sync.handleEvent sr interpreter event
          some { s with sync, events, commands := s.commands ++ commands }
  | .storeHeadersBatch headers =>
      some { s with node := { s.node with state := Node.storeHeadersBatch sr headers s.node.state } }
  | .requestBlocks count => some { s with events := s.events ++ Node.requestBlocks sr s.node.state count }
  | .handleCommand parameters =>
      match s.commands with
      | [] => none
      | .applyBlock blockId blockData :: commands =>
          let (node, events) := s.node.applyBlock sr interpreter parameters ⟨blockId, blockData⟩
          some { s with node, commands, events := s.events ++ events }

end System
end ErgoNode
