import ErgoNode.State.Utxo

/-!
# Changes with an AVL+ proof

A change is made on an authenticated map first, whose digest becomes the state root, then on the
database. The map is a third-party prover that the caller keeps.
-/

namespace ErgoNode
open Lib

inductive AvlOperation where
  | remove (key : BoxId)
  | insert (key : BoxId) (value : Bytes)

abbrev AvlContent := Store fun _ : BoxId => Bytes

def AvlOperation.toBatch : AvlOperation → BatchOperation fun _ : BoxId => Bytes
  | remove key => ⟨key, .delete⟩
  | insert key value => ⟨key, .put value⟩

/-- The third-party prover, taken as an authenticated map: an operation that succeeds makes its change, one
that fails changes nothing, and the digest is a function of the content. -/
structure AvlTree where
  Prover : Type
  performOneOperation : Prover → AvlOperation → Except String Unit × Prover
  generateProof : Prover → Bytes × Prover
  digest : Prover → Option Bytes
  content : Prover → AvlContent
  digestOf : AvlContent → Bytes
  content_of_ok : ∀ {prover operation after}, performOneOperation prover operation = (.ok (), after) →
    content after = (content prover).apply operation.toBatch
  content_of_error : ∀ {prover operation error after},
    performOneOperation prover operation = (.error error, after) → content after = content prover
  content_generateProof : ∀ prover, content (generateProof prover).2 = content prover
  digest_eq : ∀ {prover root}, digest prover = some root → root = digestOf (content prover)

/-- The UTXO state with the prover that its caller passes in. -/
structure Proving (tree : AvlTree) where
  view : OnDatabase UtxoState
  prover : tree.Prover

variable (sr : SigmaRust)

/-- Removals first, then insertions. -/
def StateChange.toAvlOperations (change : StateChange) : StateResult (List AvlOperation) := do
  let inserts ← change.created.mapM fun entry => do
    let value ← (sr.boxBytes entry.ergoBox).mapError .serialization
    return AvlOperation.insert entry.boxId value
  return change.spent.map .remove ++ inserts

namespace UtxoState
variable {tree : AvlTree}

def onView {α : Type} (x : Op (OnDatabase UtxoState) StateError α) : Op (Proving tree) StateError α :=
  Op.zoom Proving.view (fun view s => { s with view }) x

def performOperation (operation : AvlOperation) : Op (Proving tree) StateError Unit := do
  let s ← get
  let performed := tree.performOneOperation s.prover operation
  modify fun s => { s with prover := performed.2 }
  MonadExcept.ofExcept (performed.1.mapError .avlTree)

def generateProof : Op (Proving tree) StateError Bytes := do
  let s ← get
  let generated := tree.generateProof s.prover
  modify fun s => { s with prover := generated.2 }
  return generated.1

/-- Write a new root, then keep it in memory. -/
def putStateRoot (root : Bytes) : Op (OnDatabase UtxoState) StateError Unit := do
  OnDatabase.writeBatch (WriteBatch.put [] .metadata .stateRoot root)
  modify fun st => { st with mem.stateRoot := root }

/-- The prover is changed before the database is, and the root after it, in a write of its own. -/
def applyChangeWithProof (change : StateChange) (newHeight : Nat) : Op (Proving tree) StateError Bytes := do
  let operations ← MonadExcept.ofExcept (change.toAvlOperations sr)
  Op.forEach performOperation operations
  let proof ← generateProof
  let s ← get
  let newDigest ← MonadExcept.ofExcept (match tree.digest s.prover with
    | some digest => .ok digest
    | none => .error (.avlTree "Failed to get digest"))
  onView (applyChange sr change newHeight)
  onView (putStateRoot newDigest)
  return proof

end UtxoState
end ErgoNode
