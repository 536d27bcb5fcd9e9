import ErgoNode.Node.ApplyBlock
import ErgoNode.Proof.Manager.Calls

/-!
# Stored blocks stay stored

The transactions section of a block is written when the block is applied. Neither headers nor further
blocks take one away, whether their writes succeed or fail.
-/

namespace ErgoNode.Proof.Sync
open Lib
open ErgoNode.Proof.History (blockOps_blocks keeps_column_selectChain)

def Applied (db : Database) (blockId : BlockId) : Prop := (db.get .blockTransactions blockId).isSome

instance (db : Database) (blockId : BlockId) : Decidable (Applied db blockId) :=
  inferInstanceAs (Decidable (_ = true))

variable {sr : SigmaRust} {db : Database} {blockId : BlockId}

theorem applied_of_column {other : Database} (applied : Applied db blockId)
    (same : other.columns.column .blockTransactions = db.columns.column .blockTransactions) :
    Applied other blockId := by
  have : other.get .blockTransactions blockId = db.get .blockTransactions blockId :=
    congrFun same blockId
  rwa [Applied, this]

/-! ### Headers -/

def BodyColumn (cf : ColumnFamily) : Prop :=
  .headers ≠ cf ∧ .headerChain ≠ cf ∧ .cumulativeDifficulty ≠ cf ∧ .metadata ≠ cf

instance (cf : ColumnFamily) : Decidable (BodyColumn cf) := inferInstanceAs (Decidable (_ ∧ _ ∧ _ ∧ _))

theorem addHeaderToBatch_column {cf : ColumnFamily} (body : BodyColumn cf) {acc next : History.HeaderBatch}
    {item : Header × Bytes} (untouched : batchColumn cf acc.batch = [])
    (added : History.addHeaderToBatch db acc item = .ok next) : batchColumn cf next.batch = [] := by
  obtain ⟨header, rawBytes⟩ := item
  obtain ⟨headers, chain, cumulative, -⟩ := body
  simp only [History.addHeaderToBatch] at added
  split at added
  · cases added
    exact untouched
  · split at added
    · cases added
    · cases added
      simp [History.storeCumulativeDifficulty, HeaderStore.putWithBytesBatched, untouched, headers, chain, cumulative]

theorem keeps_column_appendHeadersBatched {cf : ColumnFamily} (body : BodyColumn cf)
    (headers : List (Header × Bytes)) :
    Op.Keeps (fun view => view.db.columns.column cf) (History.appendHeadersBatched sr headers) := by
  cases headers with
  | nil => exact Op.keeps_pure _
  | cons first rest =>
      intro view
      simp only [History.appendHeadersBatched, Op.exec_bind, Op.exec_get, Op.exec_ofExcept]
      cases built : (first :: rest).foldlM (History.addHeaderToBatch view.db)
          (History.HeaderBatch.start view.db first.1) with
      | error e => rfl
      | ok acc =>
          have untouched := foldlM_invariant
            (fun acc : History.HeaderBatch => batchColumn cf acc.batch = [])
            (addHeaderToBatch_column body) rfl built
          exact keeps_column_selectChain body.2.2.2 untouched _ _ _ view

theorem storeHeadersBatch_db (sr : SigmaRust) (headers : List (Header × Bytes)) (state : StateManager) :
    (Node.storeHeadersBatch sr headers state).db =
      ((ErgoNode.History.appendHeadersBatched sr headers).exec state.historyView).2.db := by
  have ran : (StateManager.applyHeadersBatched sr headers).exec state =
      (((ErgoNode.History.appendHeadersBatched sr headers).exec state.historyView).1, { state with
        db := ((ErgoNode.History.appendHeadersBatched sr headers).exec state.historyView).2.db
        history := ((ErgoNode.History.appendHeadersBatched sr headers).exec state.historyView).2.mem }) := rfl
  unfold Node.storeHeadersBatch
  rw [ran]
  rcases (ErgoNode.History.appendHeadersBatched sr headers).exec state.historyView with ⟨result, after⟩
  cases result with
  | error e => rfl
  | ok selection =>
      dsimp only
      split <;> rfl

theorem column_storeHeadersBatch {cf : ColumnFamily} (body : BodyColumn cf) (st : StateManager)
    (headers : List (Header × Bytes)) :
    (Node.storeHeadersBatch sr headers st).db.columns.column cf = st.db.columns.column cf := by
  rw [storeHeadersBatch_db]
  exact @keeps_column_appendHeadersBatched sr cf body headers st.historyView

theorem applied_storeHeadersBatch {st : StateManager} (headers : List (Header × Bytes))
    (applied : Applied st.db blockId) :
    Applied (Node.storeHeadersBatch sr headers st).db blockId :=
  applied_of_column applied (column_storeHeadersBatch (by decide) st headers)

/-! ### Blocks -/

abbrev BlockOperation := BatchOperation fun k => Address.Value ⟨.blockTransactions, k⟩

def KeepsBlocks (batch : WriteBatch) : Prop :=
  ∀ op ∈ (batchColumn .blockTransactions batch : List BlockOperation), op.kind.result.isSome

theorem changeOps_blocks (sr : SigmaRust) (change : StateChange) (newHeight : Nat)
    (removed : List BoxEntry) :
    batchColumn .blockTransactions (Utxo.changeOps sr change newHeight removed) = [] := by
  simp [Utxo.changeOps, batchColumn_cons_of_ne]

theorem keepsBlocks_addToBatch {st : StateManager} {acc next : StateManager.BlockBatch}
    {item : FullBlock × StateChange} (keeps : KeepsBlocks acc.batch)
    (added : StateManager.addToBatch sr st acc item = .ok next) : KeepsBlocks next.batch := by
  obtain ⟨block, change⟩ := item
  simp only [StateManager.addToBatch, Except.bind_ok_eq_ok, Except.pure_eq_ok] at added
  obtain ⟨⟨batch, cumulative⟩, sections, boxes, changed, rfl⟩ := added
  obtain ⟨headerBytes, txs, -, -, -, rfl⟩ := History.addBlockToBatch_eq_ok.mp sections
  obtain ⟨removed, spec⟩ := Utxo.changeToBatch_spec changed
  have unindexed : Utxo.Unindexed .blockTransactions := fun kind => by simp
  intro op member
  rw [spec.column unindexed, changeOps_blocks, List.append_nil, batchColumn_append, blockOps_blocks,
    List.mem_append, List.mem_singleton] at member
  rcases member with old | rfl
  · exact keeps op old
  · rfl

theorem applied_applyBlocksBatched {st : StateManager} (blocks : List (FullBlock × StateChange))
    (applied : Applied st.db blockId) :
    Applied ((StateManager.applyBlocksBatched sr blocks).exec st).2.db blockId := by
  rcases ran : (StateManager.applyBlocksBatched sr blocks).exec st with ⟨result, after⟩
  cases blocks with
  | nil =>
      cases ran
      exact applied
  | cons first rest =>
      cases result with
      | ok selection =>
          obtain ⟨acc, built, done⟩ := Manager.applyBlocksBatched_eq_ok ran
          have keeps : KeepsBlocks acc.batch :=
            foldlM_invariant (fun acc : StateManager.BlockBatch => KeepsBlocks acc.batch)
              keepsBlocks_addToBatch (by intro op member; simp at member) built
          have column : after.db.columns.column .blockTransactions =
              (st.db.columns.column .blockTransactions).write (batchColumn .blockTransactions acc.batch) := by
            rw [done.columns, Store.column_write, History.putBestBlock_column (by decide)]
          change (after.db.columns.column .blockTransactions blockId).isSome
          rw [column]
          exact Store.isSome_write _ keeps applied
      | error e => exact applied_of_column applied (by rw [(Manager.applyBlocksBatched_eq_error ran).1])

end ErgoNode.Proof.Sync
