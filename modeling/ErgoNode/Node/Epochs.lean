import ErgoNode.Node.ApplyBlock
import ErgoNode.State.Parameters

/-!
# Extensions and chain parameters in the node

An extension is stored when it arrives. The blocks of a batch are put together from their headers and
transactions, with an empty extension; once they are applied, the parameters are read back from the
database.
-/

namespace ErgoNode
open Lib

structure VotedState where
  manager : StateManager
  currentParameters : VotedParameters

structure DownloadedBlock where
  blockId : Bytes
  transactions : BlockTransactions
  stateChange : StateChange

namespace VotedState
variable (sr : SigmaRust)

def new (db : Database) : VotedState := ⟨.new db, .default⟩

variable (s : VotedState)

def getParameters : VotedParameters := s.currentParameters

/-- An extension that does not parse is dropped. -/
def storeExtension (extensionData : Bytes) : Except String Unit × VotedState :=
  match Extension.parse extensionData with
  | .error e => (.error e, s)
  | .ok extension =>
      match (BlockStore.putExtension extension).exec s.manager.db with
      | (.ok _, db) => (.ok (), { s with manager := { s.manager with db } })
      | (.error _, db) => (.error "Failed to store extension", { s with manager := { s.manager with db } })

def assemble (db : Database) (downloaded : DownloadedBlock) : Option (FullBlock × StateChange) :=
  (Node.getHeader sr db downloaded.blockId).map fun header =>
    (⟨header, downloaded.transactions, Extension.empty (blockIdOf downloaded.blockId), none⟩,
      downloaded.stateChange)

def applyBatch (blocks : List (FullBlock × StateChange)) : StateResult ChainSelection × VotedState :=
  let firstHeight := (blocks.head?.map fun entry => entry.1.height).getD 0
  let lastHeight := (blocks.getLast?.map fun entry => entry.1.height).getD 0
  match (StateManager.applyBlocksBatched sr blocks).exec s.manager with
  | (.ok selection, manager) =>
      (.ok selection,
        ⟨manager, s.currentParameters.updateForHeightRange sr manager.db firstHeight lastHeight⟩)
  | (.error e, manager) => (.error e, { s with manager })

/-! ### Steps -/

inductive Action where
  | storeExtension (extensionData : Bytes)
  | applyBatch (downloaded : List DownloadedBlock)
  | storeHeadersBatch (headers : List (Header × Bytes))

def step (s : VotedState) : Action → Option VotedState
  | .storeExtension extensionData => some (s.storeExtension extensionData).2
  | .applyBatch downloaded =>
      (downloaded.mapM (assemble sr s.manager.db)).map fun blocks => (s.applyBatch sr blocks).2
  | .storeHeadersBatch headers => some { s with manager := Node.storeHeadersBatch sr headers s.manager }

/-- What the sync protocol sends to the node for a delivered extension. The id that the message claims
only closes the download; the extension goes under the header id that its bytes start with. -/
def onExtensionReceived (_id : ModifierId) (data : Bytes) : List Action :=
  match Extension.parse data with
  | .ok _ => [.storeExtension data]
  | .error _ => []

end VotedState
end ErgoNode

/-!
### The handler with the parameters in force

A block is validated with the parameters that are in force when its turn in the run comes. They are updated
after every batch that is applied.
-/

namespace ErgoNode
open Lib

structure VotedLoop where
  loop : Node.ApplyLoop
  currentParameters : VotedParameters
  validations : List (FullBlock × VotedParameters)

namespace VotedLoop
variable (sr : SigmaRust) (interpreter : Interpreter)

def toValidate (db : Database) (queued : QueuedBlock) : Option FullBlock :=
  match BlockTransactions.parse sr interpreter queued.blockData with
  | .error _ => none
  | .ok blockTxs => do
      let header ← Node.getHeader sr db queued.blockId
      let _ ← Node.parentHeader sr db header
      return ⟨header, blockTxs, Extension.empty (blockIdOf queued.blockId), none⟩

def applyValidated (acc : VotedLoop) : VotedLoop :=
  let blocks := acc.loop.validatedBlocks.map fun validated => (validated.block, validated.stateChange)
  let applied := (VotedState.applyBatch sr ⟨acc.loop.state, acc.currentParameters⟩ blocks).2
  { acc with loop := Node.applyValidated sr acc.loop, currentParameters := applied.currentParameters }

def processQueued (acc : VotedLoop) (queued : QueuedBlock) : VotedLoop :=
  if acc.loop.validationFailed then
    match Node.getHeader sr acc.loop.state.db queued.blockId with
    | some header =>
        { acc with loop.pendingBlocks := acc.loop.pendingBlocks.insert header.height queued }
    | none => acc
  else
    let given := (toValidate sr interpreter acc.loop.state.db queued).map fun block => (block, acc.currentParameters)
    let acc := { acc with validations := acc.validations ++ given.toList }
    match Node.validateQueued sr interpreter (fun _ => acc.currentParameters.toChainParameters) acc.loop.state.db
        acc.loop.batchCreatedBoxes queued with
    | .error none => { acc with loop.validationFailed := true }
    | .error (some _) =>
        { acc with loop := { acc.loop with
          validationFailed := true
          events := acc.loop.events ++ [.blockFailed queued.blockId] } }
    | .ok (block, stateChange, batchCreatedBoxes) =>
        let acc := { acc with loop := { acc.loop with
          batchCreatedBoxes
          validatedBlocks := acc.loop.validatedBlocks ++ [⟨block, stateChange, queued.blockId⟩] } }
        if acc.loop.validatedBlocks.length ≥ Node.batchWriteSize then applyValidated sr acc else acc

def applyRemaining (acc : VotedLoop) : VotedLoop :=
  if acc.loop.validatedBlocks ≠ [] ∧ acc.loop.validationFailed = false then applyValidated sr acc else acc

end VotedLoop

structure VotedNode where
  node : Node
  currentParameters : VotedParameters
  validations : List (FullBlock × VotedParameters)

namespace VotedNode
variable (sr : SigmaRust) (interpreter : Interpreter)

def new (state : StateManager) (currentParameters : VotedParameters) : VotedNode :=
  ⟨⟨state, ∅⟩, currentParameters, []⟩

def processRun (s : VotedNode) (queued : QueuedBlock) : VotedLoop :=
  let (run, pending) := s.node.collectRun queued
  VotedLoop.applyRemaining sr (run.foldl (VotedLoop.processQueued sr interpreter)
    ⟨.start s.node.state pending, s.currentParameters, s.validations⟩)

def applyBlock (s : VotedNode) (queued : QueuedBlock) : VotedNode × List SyncEvent :=
  match Node.getHeader sr s.node.state.db queued.blockId with
  | none => (s, [])
  | some header =>
      let nextHeight := s.node.state.utxo.height + 1
      if header.height = nextHeight then
        let acc := s.processRun sr interpreter queued
        let state := Node.endSyncMode acc.loop.state
        (⟨⟨state, acc.loop.pendingBlocks⟩, acc.currentParameters, acc.validations⟩,
          acc.loop.events ++ Node.requestNext sr state)
      else if header.height > nextHeight then
        if s.node.pendingBlocks.entries.length ≥ Node.maxPendingBlocks then (s, [])
        else ({ s with node.pendingBlocks := s.node.pendingBlocks.insert header.height queued }, [])
      else (s, [])

inductive Command where
  | applyBlock (queued : QueuedBlock)
  | storeHeadersBatch (headers : List (Header × Bytes))
  | storeExtension (extensionData : Bytes)

def step (s : VotedNode) : Command → Option VotedNode
  | .applyBlock queued => some (s.applyBlock sr interpreter queued).1
  | .storeHeadersBatch headers =>
      some { s with node.state := Node.storeHeadersBatch sr headers s.node.state }
  | .storeExtension extensionData =>
      some { s with node.state :=
        (VotedState.storeExtension ⟨s.node.state, s.currentParameters⟩ extensionData).2.manager }

end VotedNode
end ErgoNode
