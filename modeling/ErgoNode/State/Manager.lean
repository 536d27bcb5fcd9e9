import ErgoNode.State.History
import ErgoNode.State.Utxo

/-!
# The state manager

One database under two components with counters of their own: the history goes first, the UTXO set
second.
-/

namespace ErgoNode
open Lib

inductive StateRootVerification where
  | skip | warnOnly | enforce
  deriving DecidableEq

/-- The chain parameters it also keeps are read by no function modelled here. -/
structure StateManager where
  db : Database
  utxo : UtxoState
  history : History
  stateRootVerification : StateRootVerification

namespace StateManager
variable (sr : SigmaRust)

def new (db : Database) : StateManager := ⟨db, .new, .new, .warnOnly⟩

def utxoView (st : StateManager) : OnDatabase UtxoState := ⟨st.db, st.utxo⟩

def historyView (st : StateManager) : OnDatabase History := ⟨st.db, st.history⟩

def onUtxo {α : Type} (x : Op (OnDatabase UtxoState) StateError α) : Op StateManager StateError α :=
  Op.zoom utxoView (fun view st => { st with db := view.db, utxo := view.mem }) x

def onHistory {α : Type} (x : Op (OnDatabase History) StateError α) :
    Op StateManager StateError α :=
  Op.zoom historyView (fun view st => { st with db := view.db, history := view.mem }) x

def applyHeader (header : Header) : Op StateManager StateError ChainSelection :=
  onHistory (History.appendHeader sr header)

def applyHeaderWithBytes (header : Header) (rawBytes : Bytes) :
    Op StateManager StateError ChainSelection :=
  onHistory (History.appendHeaderWithBytes sr header rawBytes)

def applyHeadersBatched (headers : List (Header × Bytes)) :
    Op StateManager StateError ChainSelection :=
  onHistory (History.appendHeadersBatched sr headers)

def isSynced (st : StateManager) : Bool :=
  st.history.bestFullBlockHeight > 0 ∧ st.history.bestFullBlockHeight = st.history.bestHeight

/-- A root of zeros only is one that was never computed. -/
def rootComputed (utxo : UtxoState) : Bool :=
  !(utxo.stateRoot.isEmpty || utxo.stateRoot.all (· == 0))

/-- The hash part of the header's root: its first 32 bytes where it is a 33-byte digest. -/
def expectedHash (header : Header) : Bytes :=
  if header.stateRoot.length = 33 then header.stateRoot.take 32 else header.stateRoot

/-- The check that ends a call with a mismatch, in the mode that enforces roots. -/
def rootRejected (st : StateManager) (header : Header) : Bool :=
  st.stateRootVerification = .enforce ∧ rootComputed st.utxo ∧ st.utxo.stateRoot ≠ expectedHash header

/-- A mismatch takes the UTXO change back and reports the error; the history stays as it is. -/
def verifyStateRoot (header : Header) (utxoHeight : Nat) : Op StateManager StateError Unit := do
  let st ← get
  if rootRejected st header then do
    Op.attempt (onUtxo (UtxoState.rollback sr utxoHeight))
    throw (.stateRootMismatch header.height (hexEncode (expectedHash header))
      (hexEncode st.utxo.stateRoot))
  else return ()

def applyBlock (block : FullBlock) (stateChange : StateChange) :
    Op StateManager StateError ChainSelection := do
  let st ← get
  let height := block.height
  let utxoHeight := st.utxo.height
  if height ≠ utxoHeight + 1 then
    throw (.invalidTransition s!"Expected height {utxoHeight + 1}, got {height}")
  else do
    let selection ← onHistory (History.appendFullBlock sr block)
    onUtxo (UtxoState.applyChange sr stateChange height)
    verifyStateRoot sr block.header utxoHeight
    return selection

/-! ### Several blocks in one write -/

structure BlockBatch where
  batch : WriteBatch
  cumulativeDifficulty : Nat
  batchCreatedBoxes : BoxMap

def addToBatch (st : StateManager) (acc : BlockBatch) (item : FullBlock × StateChange) :
    StateResult BlockBatch := do
  let (block, stateChange) := item
  let (batch, cumulativeDifficulty) ←
    History.addBlockToBatch sr acc.batch block acc.cumulativeDifficulty
  let batch ← UtxoState.addChangeToBatchWithContext sr st.utxoView batch stateChange block.height
    acc.batchCreatedBoxes
  return ⟨batch, cumulativeDifficulty, acc.batchCreatedBoxes.afterBlock stateChange⟩

/-- The first block whose height is not the one its place asks for. -/
def firstGap : Nat → List FullBlock → Option (Nat × Nat)
  | _, [] => none
  | expected, block :: rest =>
      if block.height ≠ expected then some (expected, block.height) else firstGap (expected + 1) rest

/-- Heights are checked, parents are not. -/
def checkHeights (utxoHeight : Nat) (first : FullBlock) (blocks : List FullBlock) : StateResult Unit :=
  if first.height ≠ utxoHeight + 1 then
    .error (.invalidTransition
      s!"Expected first block at height {utxoHeight + 1}, got {first.height}")
  else match firstGap first.height blocks with
    | some (expected, got) => .error (.invalidTransition
        s!"Non-contiguous block: expected height {expected}, got {got}")
    | none => .ok ()

def applyBlocksBatched (blocks : List (FullBlock × StateChange)) :
    Op StateManager StateError ChainSelection := do
  match blocks with
  | [] => return .ignored
  | first :: rest => do
      let st ← get
      let last := (rest.getLastD first).1
      MonadExcept.ofExcept (checkHeights st.utxo.height first.1 (blocks.map Prod.fst))
      let acc ← MonadExcept.ofExcept (blocks.foldlM (addToBatch sr st)
        ⟨[], History.parentCumulative st.db first.1.header, BoxMap.empty⟩)
      let selection :=
        if acc.cumulativeDifficulty > st.history.bestCumulativeDifficulty then .extended else .ignored
      onHistory (History.executeBatch
        (History.putBestBlock st.history acc.batch last.id last.height acc.cumulativeDifficulty))
      onHistory (History.updateInMemoryState last.id last.height acc.cumulativeDifficulty)
      onUtxo (UtxoState.updateHeightInMemory last.height)
      return selection

/-- Only the UTXO set is rolled back. -/
def rollbackTo (height : Nat) : Op StateManager StateError Unit :=
  onUtxo (UtxoState.rollback sr height)

end StateManager
end ErgoNode
