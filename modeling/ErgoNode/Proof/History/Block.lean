import ErgoNode.State.History

/-!
# What appending a full block leaves

A block's sections go to columns of their own; the best header and the best full block are decided
apart.
-/

namespace ErgoNode.Proof.History
open Lib

variable {sr : SigmaRust} {block : FullBlock}
variable {view viewAfter : OnDatabase History} {selection : ChainSelection}

def fullBlock (history : ErgoNode.History) : Option BlockId × Nat :=
  (history.bestFullBlockId, history.bestFullBlockHeight)

theorem fullBlock_withBestBlock (history : ErgoNode.History) (id : BlockId) (height cumulative : Nat) :
    fullBlock (history.withBestBlock id height cumulative) =
      if height > history.bestFullBlockHeight then (some id, height) else fullBlock history := by
  dsimp only [History.withBestBlock]
  by_cases heavier : cumulative > history.bestCumulativeDifficulty
  · rw [if_pos heavier]
    exact apply_ite fullBlock _ _ _
  · rw [if_neg heavier]
    exact apply_ite fullBlock _ _ _

theorem serializeTransactions_eq_ok {txs : BlockTransactions} {bytes : Bytes} :
    BlockStore.serializeTransactions sr txs = .ok bytes ↔
      ∃ encoded, List.Forall₂ (fun tx b => sr.txBytes tx = .ok b) txs.txs encoded ∧
        bytes = BigEndian.write 4 txs.txs.length ++ encoded.flatMap fun b => BigEndian.write 4 b.length ++ b := by
  simp only [BlockStore.serializeTransactions, Except.bind_ok_eq_ok, Except.pure_eq_ok, mapM_eq_ok,
    Except.mapError_ok_iff]
  constructor
  · rintro ⟨encoded, each, rfl⟩
    exact ⟨encoded, each, rfl⟩
  · rintro ⟨encoded, each, rfl⟩
    exact ⟨encoded, each, rfl⟩

def blockOps (block : FullBlock) (headerBytes : Bytes) (txs : Bytes) (cumulative : Nat) :
    WriteBatch :=
  [⟨⟨.headers, block.id⟩, .put headerBytes⟩, ⟨⟨.headerChain, block.height⟩, .put block.id⟩,
    ⟨⟨.cumulativeDifficulty, block.id⟩, .put cumulative⟩, ⟨⟨.blockTransactions, block.id⟩, .put txs⟩,
    ⟨⟨.extensions, block.extension.headerId⟩, .put (BlockStore.serializeExtension block.extension)⟩] ++
  match block.adProofs with
  | some proofs => [⟨⟨.adProofs, proofs.headerId⟩, .put proofs.proofBytes⟩]
  | none => []

theorem addBlockToBatch_eq_ok {batch result : WriteBatch} {parent cumulative : Nat} :
    History.addBlockToBatch sr batch block parent = .ok (result, cumulative) ↔
      ∃ headerBytes txs, sr.headerBytes block.header = .ok headerBytes ∧
        BlockStore.serializeTransactions sr block.transactions = .ok txs ∧
        cumulative = parent + nbitsToDifficulty block.header.nBits ∧
        result = batch ++ blockOps block headerBytes txs cumulative := by
  have ops (headerBytes : Bytes) (txs : Bytes) (cumulative : Nat) :
      (match block.adProofs with
        | some proofs => BlockStore.putAdProofsBatched (BlockStore.putExtensionBatched
            ((History.storeCumulativeDifficulty (HeaderStore.putWithBytesBatched batch block.header
              headerBytes) block.id cumulative).put .blockTransactions block.id txs) block.extension)
            proofs
        | none => BlockStore.putExtensionBatched
            ((History.storeCumulativeDifficulty (HeaderStore.putWithBytesBatched batch block.header
              headerBytes) block.id cumulative).put .blockTransactions block.id txs)
            block.extension) = batch ++ blockOps block headerBytes txs cumulative := by
    simp only [blockOps, BlockStore.putAdProofsBatched, BlockStore.putExtensionBatched,
      History.storeCumulativeDifficulty, HeaderStore.putWithBytesBatched, WriteBatch.put]
    split <;> simp [FullBlock.id, FullBlock.height]
  simp only [History.addBlockToBatch, HeaderStore.putBatched, BlockStore.putTransactionsBatched,
    Except.bind_ok_eq_ok, Except.mapError_ok_iff, Except.pure_eq_ok, Prod.mk.injEq]
  constructor
  · rintro ⟨_, ⟨headerBytes, encoded, rfl⟩, _, ⟨txs, serialized, rfl⟩, rfl, rfl⟩
    exact ⟨headerBytes, txs, encoded, serialized, rfl, ops headerBytes txs _⟩
  · rintro ⟨headerBytes, txs, encoded, serialized, rfl, rfl⟩
    exact ⟨_, ⟨headerBytes, encoded, rfl⟩, _, ⟨txs, serialized, rfl⟩, ops headerBytes txs _, rfl⟩

def sectionColumns : List ColumnFamily :=
  [.headers, .headerChain, .cumulativeDifficulty, .blockTransactions, .extensions, .adProofs]

theorem blockOps_column {cf : ColumnFamily} (other : cf ∉ sectionColumns) (block : FullBlock)
    (headerBytes : Bytes) (txs : Bytes) (cumulative : Nat) :
    batchColumn cf (blockOps block headerBytes txs cumulative) = [] := by
  apply batchColumn_eq_nil
  rintro op member rfl
  apply other
  rw [blockOps, List.mem_append] at member
  rcases member with member | member
  · simp only [List.mem_cons, List.not_mem_nil, or_false] at member
    rcases member with rfl | rfl | rfl | rfl | rfl <;> simp [sectionColumns]
  · cases proofs : block.adProofs with
    | none => simp [proofs] at member
    | some value =>
        rw [proofs, List.mem_singleton] at member
        subst member
        simp [sectionColumns]

theorem blockOps_blocks (block : FullBlock) (headerBytes : Bytes) (txs : Bytes) (cumulative : Nat) :
    batchColumn .blockTransactions (blockOps block headerBytes txs cumulative) = [⟨block.id, .put txs⟩] := by
  rw [blockOps, batchColumn_append]
  cases block.adProofs with
  | none => simp [batchColumn_cons_of_ne]
  | some proofs => simp [batchColumn_cons_of_ne]

theorem blockOps_extensions (block : FullBlock) (headerBytes : Bytes) (txs : Bytes) (cumulative : Nat) :
    batchColumn .extensions (blockOps block headerBytes txs cumulative) =
      [⟨block.extension.headerId, .put (BlockStore.serializeExtension block.extension)⟩] := by
  rw [blockOps, batchColumn_append]
  cases block.adProofs with
  | none => simp [batchColumn_cons_of_ne]
  | some proofs => simp [batchColumn_cons_of_ne]

theorem blockOps_adProofs (block : FullBlock) (headerBytes : Bytes) (txs : Bytes) (cumulative : Nat) :
    batchColumn .adProofs (blockOps block headerBytes txs cumulative) =
      block.adProofs.toList.map fun proofs => ⟨proofs.headerId, .put proofs.proofBytes⟩ := by
  rw [blockOps, batchColumn_append]
  cases block.adProofs with
  | none => simp [batchColumn_cons_of_ne]
  | some proofs => simp [batchColumn_cons_of_ne]

theorem putBestBlock_column {cf : ColumnFamily} (other : .metadata ≠ cf)
    (history : ErgoNode.History) (batch : WriteBatch) (id : BlockId) (height cumulative : Nat) :
    batchColumn cf (History.putBestBlock history batch id height cumulative) =
      batchColumn cf batch := by
  dsimp only [History.putBestBlock]
  split <;> split <;> simp [History.putBestHeader, History.putBestFullBlock, other]

theorem appendFullBlock_parts
    (done : (History.appendFullBlock sr block).exec view = (.ok selection, viewAfter)) :
    ∃ batch cumulative,
      History.addBlockToBatch sr [] block (History.parentCumulative view.db block.header) =
        .ok (batch, cumulative) ∧
      (Database.writeBatch (History.putBestBlock view.mem batch block.id block.height cumulative)).exec view.db =
        (.ok (), viewAfter.db) ∧
      viewAfter.mem = view.mem.withBestBlock block.id block.height cumulative := by
  simp only [History.appendFullBlock, Op.exec_bind_eq_ok, Op.exec_get, Op.exec_ofExcept,
    Prod.mk.injEq, Except.ok.injEq, OnDatabase.writeBatch, Op.exec_zoom, Op.exec_modify,
    Op.exec_pure] at done
  obtain ⟨_, _, ⟨rfl, rfl⟩, ⟨batch, cumulative⟩, _, ⟨built, rfl⟩, _, _, ⟨wrote, rfl⟩, _, _,
    ⟨-, rfl⟩, -, rfl⟩ := done
  exact ⟨batch, cumulative, built, Prod.ext wrote rfl, rfl⟩

theorem appendFullBlock_eq_ok
    (done : (History.appendFullBlock sr block).exec view = (.ok selection, viewAfter)) :
    ∃ batch cumulative,
      History.addBlockToBatch sr [] block (History.parentCumulative view.db block.header) =
        .ok (batch, cumulative) ∧
      viewAfter.db.columns = view.db.columns.write
        (History.putBestBlock view.mem batch block.id block.height cumulative) ∧
      viewAfter.mem = view.mem.withBestBlock block.id block.height cumulative := by
  obtain ⟨batch, cumulative, built, wrote, mem⟩ := appendFullBlock_parts done
  exact ⟨batch, cumulative, built, Database.columns_of_writeBatch_ok wrote, mem⟩

theorem appendFullBlock_eq_error {error : StateError}
    (failed : (History.appendFullBlock sr block).exec view = (.error error, viewAfter)) :
    viewAfter.db.columns = view.db.columns ∧ viewAfter.mem = view.mem := by
  simp only [History.appendFullBlock, Op.exec_bind_eq_error, Op.exec_get, Op.exec_ofExcept,
    Prod.mk.injEq, reduceCtorEq, false_and, false_or, Except.ok.injEq, OnDatabase.writeBatch,
    Op.exec_zoom, Op.exec_modify, Op.exec_pure, and_false, exists_false, or_false] at failed
  obtain ⟨_, _, ⟨rfl, rfl⟩, ⟨-, rfl⟩ | ⟨_, _, ⟨-, rfl⟩, wrote, rfl⟩⟩ := failed
  · exact ⟨rfl, rfl⟩
  · exact ⟨Database.columns_of_writeBatch_error (Prod.ext wrote rfl), rfl⟩

/-! ### The best full block -/

theorem keeps_selectChain (batch : WriteBatch) (id : BlockId) (height cumulative : Nat) :
    Op.Keeps (fun view => fullBlock view.mem) (History.selectChain sr batch id height cumulative) := by
  have writes : ∀ b, Op.Keeps (fun view => fullBlock view.mem)
      (OnDatabase.writeBatch b : Op (OnDatabase ErgoNode.History) StateError Unit) := fun _ _ => rfl
  exact Op.keeps_get.bind fun _ => .ite
    ((writes _).bind fun _ => Op.Keeps.bind (fun _ => rfl) fun _ => .ite
      (Op.keeps_get.bind fun _ => (Op.keeps_ofExcept _).bind fun _ => Op.keeps_pure _)
      (Op.keeps_pure _))
    ((writes _).bind fun _ => Op.keeps_pure _)

/-! ### What a write leaves alone -/

theorem keeps_key_writeBatch {M : Type} {cf : ColumnFamily} {key : cf.Key} {batch : WriteBatch}
    (untouched : ∀ op ∈ (batchColumn cf batch : List (BatchOperation fun k => Address.Value ⟨cf, k⟩)),
      op.address ≠ key) :
    Op.Keeps (fun view => view.db.columns.column cf key)
      (OnDatabase.writeBatch batch : Op (OnDatabase M) StateError Unit) := by
  intro view
  rcases wrote : (Database.writeBatch batch).exec view.db with ⟨result, after⟩
  simp only [OnDatabase.writeBatch, Op.exec_zoom, wrote]
  cases result with
  | ok _ =>
      rw [Database.columns_of_writeBatch_ok wrote, Store.column_write]
      exact Store.write_of_forall_ne _ untouched
  | error e => rw [Database.columns_of_writeBatch_error wrote]

theorem keeps_column_writeBatch {M : Type} {cf : ColumnFamily} {batch : WriteBatch}
    (untouched : batchColumn cf batch = []) :
    Op.Keeps (fun view => view.db.columns.column cf)
      (OnDatabase.writeBatch batch : Op (OnDatabase M) StateError Unit) := by
  intro view
  funext key
  exact keeps_key_writeBatch (by simp [untouched]) view

theorem keeps_column_selectChain {cf : ColumnFamily} (other : .metadata ≠ cf) {batch : WriteBatch}
    (untouched : batchColumn cf batch = []) (id : BlockId) (height cumulative : Nat) :
    Op.Keeps (fun view => view.db.columns.column cf)
      (History.selectChain sr batch id height cumulative) := by
  have best : batchColumn cf (History.putBestHeader batch id height cumulative) = [] := by
    simp [History.putBestHeader, other, untouched]
  exact Op.keeps_get.bind fun _ => .ite
    ((keeps_column_writeBatch best).bind fun _ => Op.Keeps.bind (fun _ => rfl) fun _ => .ite
      (Op.keeps_get.bind fun _ => (Op.keeps_ofExcept _).bind fun _ => Op.keeps_pure _)
      (Op.keeps_pure _))
    ((keeps_column_writeBatch untouched).bind fun _ => Op.keeps_pure _)

theorem keeps_appendHeaderInternal (header : Header) (rawBytes : Option Bytes) :
    Op.Keeps (fun view => fullBlock view.mem) (History.appendHeaderInternal sr header rawBytes) :=
  Op.keeps_get.bind fun _ => .ite (Op.keeps_pure _) (.ite (Op.keeps_throw _)
    ((Op.keeps_ofExcept _).bind fun _ => Op.Keeps.bind (fun _ => rfl) fun _ => keeps_selectChain _ _ _ _))

theorem keeps_appendHeadersBatched (headers : List (Header × Bytes)) :
    Op.Keeps (fun view => fullBlock view.mem) (History.appendHeadersBatched sr headers) := by
  cases headers with
  | nil => exact Op.keeps_pure _
  | cons first rest =>
      exact Op.keeps_get.bind fun _ => (Op.keeps_ofExcept _).bind fun _ => keeps_selectChain _ _ _ _

end ErgoNode.Proof.History
