import ErgoNode.Proof.Validation.Sequential

/-!
# What a header commits to

The leaves under a header's transactions root are the transaction ids, 32 bytes each, and from
version 2 on the witness ids, 31 bytes each. So the ids can be read off the leaves whatever version
the block's bytes claim, and a change depends on nothing that the ids leave open.
-/

namespace ErgoNode

def Transaction.withoutProofs (tx : Transaction) : Transaction :=
  { tx with inputs := tx.inputs.map fun input => { input with proof := [] } }

namespace Proof.Validation
open Lib Ledger FullBlockValidator

variable (sr : SigmaRust) (interpreter : Interpreter)

/-! ### Leaves -/

def leaves (blockTxs : BlockTransactions) : List Bytes :=
  let txIds := blockTxs.txs.map fun tx => tx.id.bytes
  if blockTxs.blockVersion = 1 then txIds
  else txIds ++ blockTxs.txs.map (BlockTransactions.witnessId sr)

theorem computeMerkleRoot_of_nonempty {blockTxs : BlockTransactions} (nonempty : blockTxs.txs ≠ []) :
    blockTxs.computeMerkleRoot sr interpreter = interpreter.merkleRoot (leaves sr blockTxs) := by
  rw [BlockTransactions.computeMerkleRoot, if_neg nonempty]
  rfl

theorem filter_leaves (blockTxs : BlockTransactions) :
    (leaves sr blockTxs).filter (·.length = 32) = blockTxs.txs.map fun tx => tx.id.bytes := by
  have ids : (blockTxs.txs.map fun tx => tx.id.bytes).filter (·.length = 32) =
      blockTxs.txs.map fun tx => tx.id.bytes := by
    rw [List.filter_eq_self]
    intro bytes member
    obtain ⟨tx, -, rfl⟩ := List.mem_map.mp member
    exact decide_eq_true tx.id.size
  have witnesses : (blockTxs.txs.map (BlockTransactions.witnessId sr)).filter (·.length = 32) = [] := by
    rw [List.filter_eq_nil_iff]
    intro bytes member
    obtain ⟨tx, -, rfl⟩ := List.mem_map.mp member
    simp [BlockTransactions.witnessId, Digest32.size]
  unfold leaves
  dsimp only
  split
  · exact ids
  · rw [List.filter_append, ids, witnesses, List.append_nil]

theorem txIds_of_leaves {first second : BlockTransactions} (same : leaves sr first = leaves sr second) :
    first.txs.map Transaction.id = second.txs.map Transaction.id := by
  have bytes : first.txs.map (fun tx => tx.id.bytes) = second.txs.map fun tx => tx.id.bytes := by
    rw [← filter_leaves sr first, ← filter_leaves sr second, same]
  have injective : Function.Injective Digest32.bytes := by
    rintro ⟨a, _⟩ ⟨b, _⟩ rfl
    rfl
  apply injective.list_map
  rw [List.map_map, List.map_map]
  exact bytes

/-! ### Transactions with the same ids -/

theorem move_withoutProofs (tx : Transaction) : tx.withoutProofs.move = tx.move := by
  simp [Transaction.move, Transaction.withoutProofs, Function.comp_def]

theorem execute_withoutProofs (unspent : ErgoBoxMap) (txs : List Transaction) :
    execute unspent (txs.map Transaction.withoutProofs) = execute unspent txs := by
  have step (acc : List SpentBox × ErgoBoxMap) (tx : Transaction) :
      executeTx acc tx.withoutProofs = executeTx acc tx := by
    rw [executeTx, executeTx, move_withoutProofs]
    rfl
  rw [execute, List.foldlM_map]
  simp only [step, execute]

theorem createdBoxes_withoutProofs (txs : List Transaction) :
    (txs.map Transaction.withoutProofs).flatMap createdBoxesOf = txs.flatMap createdBoxesOf :=
  List.flatMap_map ..

section Parsed
variable {sr}

theorem parsedTx_of_parseTransactions {count i : Nat} {remaining : Bytes} {txs : List Transaction}
    (parsed : BlockTransactions.parseTransactions sr count i remaining = .ok txs) :
    ∀ tx ∈ txs, ∃ bytes, sr.parseTx bytes = .ok tx := by
  induction count generalizing i remaining txs with
  | zero =>
      cases parsed
      simp
  | succ count ih =>
      simp only [BlockTransactions.parseTransactions, Except.bind_ok_eq_ok, Except.mapError_ok_iff,
        Except.pure_eq_ok] at parsed
      obtain ⟨tx, first, _, -, rest, later, rfl⟩ := parsed
      intro other member
      rcases List.mem_cons.mp member with rfl | member
      · exact ⟨remaining, first⟩
      · exact ih later other member

variable {interpreter}

theorem parsedTx_of_parse {data : Bytes} {blockTxs : BlockTransactions}
    (parsed : BlockTransactions.parse sr interpreter data = .ok blockTxs) :
    ∀ tx ∈ blockTxs.txs, ∃ bytes, sr.parseTx bytes = .ok tx := by
  unfold BlockTransactions.parse at parsed
  split at parsed
  · cases parsed
  · simp only [Except.bind_ok_eq_ok, Except.pure_eq_ok] at parsed
    obtain ⟨_, -, ⟨_, _, rest⟩, -, txs, inner, rfl⟩ := parsed
    exact parsedTx_of_parseTransactions inner

end Parsed

/-! ### Two blocks under one header -/

section Blocks
variable {validator : FullBlockValidator} {lookup : BoxId → Option ErgoBox}
variable {block : FullBlock} {parent : Header} {lastHeaders : List Header} {cost : Nat}
variable {change : ValidatedStateChange}

structure ChangeOf (belowCheckpoint : Bool) (lookup : BoxId → Option ErgoBox) (height : Nat)
    (txs : List Transaction) (change : ValidatedStateChange) : Prop where
  height : change.height = height
  spent : some change.spent =
    if belowCheckpoint then some [] else (execute lookup txs).map Prod.fst
  created : change.created = txs.flatMap createdBoxesOf

theorem ChangeOf.unique {belowCheckpoint : Bool} {height : Nat} {txs : List Transaction}
    {other : ValidatedStateChange} (first : ChangeOf belowCheckpoint lookup height txs change)
    (second : ChangeOf belowCheckpoint lookup height txs other) : change = other := by
  obtain ⟨_, spent, _⟩ := change
  obtain ⟨_, otherSpent, _⟩ := other
  obtain ⟨rfl, spentFirst, rfl⟩ := first
  obtain ⟨rfl, spentSecond, rfl⟩ := second
  cases spentFirst.trans spentSecond.symm
  rfl

theorem validateBlock_changeOf
    (accepted : validator.validateBlock sr interpreter block parent lookup lastHeaders = .ok (cost, change)) :
    ChangeOf (validator.isBelowCheckpoint block.height) lookup block.height
        (block.transactions.txs.map Transaction.withoutProofs) change ∧
      interpreter.merkleRoot (leaves sr block.transactions) = block.header.transactionRoot := by
  simp only [validateBlock, Except.bind_ok_eq_ok, Except.mapError_ok_iff] at accepted
  obtain ⟨_, -, _, root, accepted⟩ := accepted
  split at accepted
  · exact absurd accepted Except.throw_ne_ok
  · next nonempty =>
      rw [Except.mapError_ok_iff] at accepted
      constructor
      · obtain ⟨acc, valid, same⟩ := validateTransactions_validated sr interpreter accepted
        refine ⟨by rw [same], ?_, ?_⟩
        · rw [execute_withoutProofs]
          cases mode : validator.isBelowCheckpoint block.height with
          | true =>
              have none := valid.spentBoxes
              rw [mode, if_pos rfl, List.map_eq_nil_iff] at none
              rw [same, none]
              rfl
          | false =>
              obtain ⟨unspent, executed⟩ := validateTransactions_replayed sr interpreter mode accepted
              rw [executed]
              rfl
        · rw [same, createdBoxes_withoutProofs]
          exact valid.createdBoxes
      · unfold BlockTransactions.validateAgainstHeader at root
        split at root
        · cases root
        · dsimp only at root
          split at root
          · cases root
          · next agrees =>
              rw [← computeMerkleRoot_of_nonempty sr interpreter nonempty]
              exact not_not.mp agrees

end Blocks

/-- Two blocks' bytes that are both valid under one header have the same effect, whatever version they
claim, if the Merkle root tells their leaves apart and a transaction's id fixes all but its proofs. -/
theorem validateBlock_sameChange {validator : FullBlockValidator} {lookup : BoxId → Option ErgoBox}
    {header parent : Header} {lastHeaders : List Header} {data otherData : Bytes}
    {blockTxs otherTxs : BlockTransactions} {extension otherExtension : Extension}
    {adProofs otherProofs : Option ADProofs} {cost otherCost : Nat} {change otherChange : ValidatedStateChange}
    (rootInjective : interpreter.merkleRoot (leaves sr blockTxs) = interpreter.merkleRoot (leaves sr otherTxs) →
      leaves sr blockTxs = leaves sr otherTxs)
    (idFixes : ∀ {bytes otherBytes tx other}, sr.parseTx bytes = .ok tx → sr.parseTx otherBytes = .ok other →
      tx.id = other.id → tx.withoutProofs = other.withoutProofs)
    (parsed : BlockTransactions.parse sr interpreter data = .ok blockTxs)
    (otherParsed : BlockTransactions.parse sr interpreter otherData = .ok otherTxs)
    (accepted : validator.validateBlock sr interpreter ⟨header, blockTxs, extension, adProofs⟩ parent lookup
      lastHeaders = .ok (cost, change))
    (otherAccepted : validator.validateBlock sr interpreter ⟨header, otherTxs, otherExtension, otherProofs⟩
      parent lookup lastHeaders = .ok (otherCost, otherChange)) :
    change = otherChange := by
  obtain ⟨changeOf, root⟩ := validateBlock_changeOf sr interpreter accepted
  obtain ⟨otherChangeOf, otherRoot⟩ := validateBlock_changeOf sr interpreter otherAccepted
  have sameLeaves := rootInjective (root.trans otherRoot.symm)
  have sameTxs : blockTxs.txs.map Transaction.withoutProofs = otherTxs.txs.map Transaction.withoutProofs := by
    refine map_eq_map_of_keys (txIds_of_leaves sr sameLeaves) fun tx member other otherMember same => ?_
    obtain ⟨bytes, here⟩ := parsedTx_of_parse parsed tx member
    obtain ⟨otherBytes, there⟩ := parsedTx_of_parse otherParsed other otherMember
    exact idFixes here there same
  dsimp only at changeOf otherChangeOf
  rw [sameTxs] at changeOf
  exact changeOf.unique otherChangeOf

/-! ### One transaction with two proofs -/

def proofTxs : List Transaction :=
  [spendTx 1 2, { spendTx 1 2 with inputs := [⟨.filled 1, [7], []⟩] }]

def proofCodec : SigmaRust := Sample.codec (List.map Sample.sampleBox [1, 2]) [tipHeader, header31] proofTxs

def proofData (place : Nat) : Bytes := header31.id.bytes ++ 1 :: List.replicate place 0

def proofTxsAt (place : Nat) : BlockTransactions := ⟨header31.id, (proofTxs[place]?).toList, 1⟩

def validateProof (place : Nat) : Except String (Nat × ValidatedStateChange) :=
  (FullBlockValidator.withParameters ⟨1000000⟩).validateBlock proofCodec sampleInterpreter
    ⟨header31, proofTxsAt place, Extension.empty header31.id, none⟩ tipHeader onlyBox1 []

theorem twoProofs_sameChange : ∃ cost otherCost change,
    validateProof 0 = .ok (cost, change) ∧ validateProof 1 = .ok (otherCost, change) := by
  have accepted : ∃ result, validateProof 0 = .ok result := by decide
  have otherAccepted : ∃ result, validateProof 1 = .ok result := by decide
  obtain ⟨⟨cost, change⟩, accepted⟩ := accepted
  obtain ⟨⟨otherCost, otherChange⟩, otherAccepted⟩ := otherAccepted
  have fixes : ∀ tx ∈ proofTxs, ∀ other ∈ proofTxs, tx.id = other.id →
      tx.withoutProofs = other.withoutProofs := by decide
  have same := validateBlock_sameChange proofCodec sampleInterpreter (fun _ => by decide)
    (fun parsed otherParsed => fixes _ (Sample.mem_of_decode parsed) _ (Sample.mem_of_decode otherParsed))
    (show BlockTransactions.parse proofCodec sampleInterpreter (proofData 0) = .ok (proofTxsAt 0) by decide)
    (show BlockTransactions.parse proofCodec sampleInterpreter (proofData 1) = .ok (proofTxsAt 1) by decide)
    accepted otherAccepted
  exact ⟨cost, otherCost, change, accepted, same ▸ otherAccepted⟩

end Proof.Validation
end ErgoNode
