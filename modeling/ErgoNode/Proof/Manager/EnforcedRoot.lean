import ErgoNode.Proof.Manager.Restart
import ErgoNode.Proof.Utxo.Root

/-!
# State roots that are enforced

No call of the state manager computes a root: the check compares the header with the root that an
application with a proof left behind, and lets every block through where there is none.
-/

namespace ErgoNode.Proof.Manager
open Lib StateManager Utxo

variable {sr : SigmaRust} {tree : AvlTree}

/-! ### The node with a prover -/

structure ProvingNode (tree : AvlTree) where
  node : RunningNode
  prover : tree.Prover

inductive ProvingCall where
  | node (call : NodeCall)
  | applyChangeWithProof (change : StateChange) (newHeight : Nat)

namespace ProvingNode

def proving (s : ProvingNode tree) : Proving tree := ⟨s.node.manager.utxoView, s.prover⟩

def withProving (p : Proving tree) (s : ProvingNode tree) : ProvingNode tree where
  node := { s.node with manager := { s.node.manager with db := p.view.db, utxo := p.view.mem } }
  prover := p.prover

def exec (sr : SigmaRust) : ProvingCall → Op (ProvingNode tree) StateError Unit
  | .node call => Op.zoom node (fun node s => { s with node }) (call.exec sr)
  | .applyChangeWithProof change newHeight => Op.zoom proving withProving do
      let _ ← UtxoState.applyChangeWithProof sr change newHeight

def step (sr : SigmaRust) (s : ProvingNode tree) (call : ProvingCall) : Option (ProvingNode tree) :=
  some ((exec sr call).exec s).2

def mode (s : ProvingNode tree) : StateRootVerification := s.node.manager.stateRootVerification

end ProvingNode

/-! ### The mode stays -/

section Mode
variable {α : Type} {f : StateManager → StateRootVerification}

theorem keeps_mode_onHistory (x : Op (OnDatabase ErgoNode.History) StateError α) :
    Op.Keeps (·.stateRootVerification) (onHistory x) := fun _ => rfl

theorem keeps_mode_onUtxo (x : Op (OnDatabase UtxoState) StateError α) :
    Op.Keeps (·.stateRootVerification) (onUtxo x) := fun _ => rfl

theorem keeps_mode_verifyStateRoot (header : Header) (utxoHeight : Nat) :
    Op.Keeps (·.stateRootVerification) (verifyStateRoot sr header utxoHeight) :=
  Op.keeps_get.bind fun _ => .ite ((Op.keeps_attempt (keeps_mode_onUtxo _)).bind fun _ => Op.keeps_throw _)
    (Op.keeps_pure _)

theorem keeps_mode_applyBlock (block : FullBlock) (change : StateChange) :
    Op.Keeps (·.stateRootVerification) (StateManager.applyBlock sr block change) :=
  Op.keeps_get.bind fun _ => .ite (Op.keeps_throw _) ((keeps_mode_onHistory _).bind fun _ =>
    (keeps_mode_onUtxo _).bind fun _ => (keeps_mode_verifyStateRoot _ _).bind fun _ => Op.keeps_pure _)

theorem keeps_mode_applyBlocksBatched (blocks : List (FullBlock × StateChange)) :
    Op.Keeps (·.stateRootVerification) (StateManager.applyBlocksBatched sr blocks) := by
  cases blocks with
  | nil => exact Op.keeps_pure _
  | cons first rest =>
      exact Op.keeps_get.bind fun _ => (Op.keeps_ofExcept _).bind fun _ => (Op.keeps_ofExcept _).bind fun _ =>
        (keeps_mode_onHistory _).bind fun _ => (keeps_mode_onHistory _).bind fun _ =>
          (keeps_mode_onUtxo _).bind fun _ => Op.keeps_pure _

theorem keeps_mode_onManager {x : Op StateManager StateError α} (kept : Op.Keeps (·.stateRootVerification) x) :
    Op.Keeps (fun node : RunningNode => node.manager.stateRootVerification) (onManager x) :=
  fun node => kept.bind (fun _ => Op.keeps_pure _) node.manager

theorem mode_step {s t : ProvingNode tree} {call : ProvingCall} (taken : s.step sr call = some t) : t.mode = s.mode := by
  cases taken
  cases call with
  | applyChangeWithProof change newHeight => rfl
  | node call =>
      cases call with
      | appendHeader header => exact keeps_mode_onManager (keeps_mode_onHistory _) s.node
      | appendHeaderWithBytes header rawBytes => exact keeps_mode_onManager (keeps_mode_onHistory _) s.node
      | appendHeadersBatched headers => exact keeps_mode_onManager (keeps_mode_onHistory _) s.node
      | appendFullBlock block => exact keeps_mode_onManager (keeps_mode_onHistory _) s.node
      | appendBlocksTogether blocks parentCumulative finalBlock =>
          exact keeps_mode_onManager (keeps_mode_onHistory _) s.node
      | applyBlock block stateChange => exact keeps_mode_onManager (keeps_mode_applyBlock _ _) s.node
      | applyBlocksBatched blocks => exact keeps_mode_onManager (keeps_mode_applyBlocksBatched _) s.node
      | rollbackTo height => exact keeps_mode_onManager (keeps_mode_onUtxo _) s.node
      | setHeadersChainSynced synced => rfl
      | updateBestFullBlockPruning header => rfl

theorem mode_run {s t : ProvingNode tree} {calls : List ProvingCall} (ran : run (ProvingNode.step sr) s calls = some t) :
    t.mode = s.mode := by
  have always : Always (ProvingNode.step sr) (fun u => u.mode = s.mode) s calls :=
    always_of_step (fun same taken => (mode_step taken).trans same) rfl
  exact always t ⟨calls, List.prefix_rfl, ran⟩

end Mode

/-! ### A block that goes through -/

section Block
variable {st after : StateManager} {block : FullBlock} {change : StateChange} {selection : ChainSelection}

def RootAgrees (utxo : UtxoState) (header : Header) : Prop := utxo.stateRoot = expectedHash header

def RootKnown (utxo : UtxoState) (header : Header) : Prop := rootComputed utxo = true ∨ utxo.stateRoot = expectedHash header

def DigestAgrees (tree : AvlTree) (st : StateManager) (header : Header) : Prop :=
  tree.digestOf (utxoContent st.db.columns) = expectedHash header

/-- With the change made, the digest of the boxes is the root that is checked: the one from before, or the
header's where there is none. -/
def DigestFollows (tree : AvlTree) (sr : SigmaRust) (st : StateManager) (header : Header) (change : StateChange) : Prop :=
  tree.digestOf (contentAfter sr (utxoContent st.db.columns) change) =
    if rootComputed st.utxo then st.utxo.stateRoot else expectedHash header

theorem applyBlock_verified (done : (StateManager.applyBlock sr block change).exec st = (.ok selection, after)) :
    rootRejected after block.header = false := by
  simp only [StateManager.applyBlock, Op.exec_bind_eq_ok, Op.exec_get, Prod.mk.injEq, Except.ok.injEq] at done
  obtain ⟨_, _, ⟨rfl, rfl⟩, done⟩ := done
  rw [Op.exec_ite] at done
  split at done
  · cases done
  · simp only [Op.exec_bind_eq_ok] at done
    obtain ⟨_, _, -, _, middle, -, _, _, verified, done⟩ := done
    obtain ⟨accepted, rfl⟩ := verifyStateRoot_eq_ok verified
    cases done
    exact accepted

theorem applyBlock_content (done : (StateManager.applyBlock sr block change).exec st = (.ok selection, after)) :
    utxoContent after.db.columns = contentAfter sr (utxoContent st.db.columns) change := by
  obtain ⟨db, same, applied⟩ := (applyBlock_eq_ok done).change
  obtain ⟨removed, batch, spec, written, -⟩ := applyChange_eq_ok applied
  refine utxoContent_settle ?_
  rw [← same]
  exact (congrArg boxes written).trans (spec.boxes_write db.columns)

variable (mode : st.stateRootVerification = .enforce)
  (done : (StateManager.applyBlock sr block change).exec st = (.ok selection, after))
include mode done

theorem expectedHash_of_computed (computed : rootComputed st.utxo = true) : st.utxo.stateRoot = expectedHash block.header := by
  have accepted := applyBlock_verified done
  have kept : after.utxo.stateRoot = st.utxo.stateRoot := by rw [(applyBlock_eq_ok done).utxo]
  have enforced : after.stateRootVerification = .enforce := by
    have same := @keeps_mode_applyBlock sr block change st
    rw [done] at same
    exact same.trans mode
  have computedAfter : rootComputed after.utxo = true := by rwa [rootComputed, kept]
  simpa [rootRejected, enforced, computedAfter, kept] using accepted

theorem rootAgrees_iff : RootAgrees after.utxo block.header ↔ RootKnown st.utxo block.header := by
  have kept : after.utxo.stateRoot = st.utxo.stateRoot := by rw [(applyBlock_eq_ok done).utxo]
  rw [RootAgrees, RootKnown, kept]
  constructor
  · exact .inr
  · rintro (computed | same)
    · exact expectedHash_of_computed mode done computed
    · exact same

theorem digestAgrees_iff : DigestAgrees tree after block.header ↔ DigestFollows tree sr st block.header change := by
  rw [DigestAgrees, DigestFollows, applyBlock_content done]
  split
  · next computed => rw [expectedHash_of_computed mode done computed]
  · rfl

end Block

/-- In every state that a node in enforcing mode reaches: a block that goes through leaves the root that its
header commits to exactly when a root was known before, and boxes with that digest exactly when the check
compares with their digest. -/
theorem enforcedRoot_iff {db : Database} {blocksToKeep : Int} {prover : tree.Prover} {calls : List ProvingCall}
    {s : ProvingNode tree} {block : FullBlock} {change : StateChange} {selection : ChainSelection} {after : StateManager}
    (reached : run (ProvingNode.step sr) ⟨.start db .enforce blocksToKeep, prover⟩ calls = some s)
    (done : (StateManager.applyBlock sr block change).exec s.node.manager = (.ok selection, after)) :
    (RootAgrees after.utxo block.header ↔ RootKnown s.node.manager.utxo block.header) ∧
      (DigestAgrees tree after block.header ↔ DigestFollows tree sr s.node.manager block.header change) :=
  ⟨rootAgrees_iff (mode_run reached) done, digestAgrees_iff (mode_run reached) done⟩

section Samples
open Sample

def rootStored : Database :=
  ⟨Store.write (fun _ => none) (WriteBatch.put [] .metadata .stateRoot (List.replicate 32 7)), []⟩

def enforcing (db : Database) : ProvingNode sampleTree := ⟨.start db .enforce (-1), fun _ => none⟩

def firstApplied (db : Database) : StateManager :=
  ((StateManager.applyBlock chainCodec (sampleBlock header11) emptyChange).exec (enforcing db).node.manager).2

/-- The stored root is the header's, and not the digest of the boxes. -/
theorem rootStored_enforced : RootAgrees (firstApplied rootStored).utxo header11 ∧
    ¬ DigestAgrees sampleTree (firstApplied rootStored) header11 := by
  obtain ⟨root, digest⟩ := @enforcedRoot_iff chainCodec sampleTree rootStored (-1) (fun _ => none) []
    (enforcing rootStored) (sampleBlock header11) emptyChange .extended (firstApplied rootStored) rfl (Prod.ext rfl rfl)
  refine ⟨root.mpr (.inl rfl), fun agrees => ?_⟩
  have follows := digest.mp agrees
  unfold DigestFollows at follows
  exact absurd follows (by decide)

/-- On an empty database no root is computed, and the block goes through without one. -/
theorem noRoot_not_enforced :
    (StateManager.applyBlock chainCodec (sampleBlock header11) emptyChange).exec (enforcing .empty).node.manager =
        (.ok .extended, firstApplied .empty) ∧
      ¬ RootAgrees (firstApplied .empty).utxo header11 ∧ ¬ DigestAgrees sampleTree (firstApplied .empty) header11 := by
  refine ⟨Prod.ext rfl rfl, ?_, ?_⟩
  · unfold RootAgrees
    decide
  · unfold DigestAgrees
    decide

end Samples

end ErgoNode.Proof.Manager
