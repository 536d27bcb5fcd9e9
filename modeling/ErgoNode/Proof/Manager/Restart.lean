import ErgoNode.Lib.Run
import ErgoNode.Proof.Manager.Calls
import ErgoNode.State.Restart

/-!
# Restart

Each counter is kept twice, in memory and in the metadata column. A start on the stored data finds what the
running objects hold as long as the two copies move together, whichever writes fail.
-/

namespace ErgoNode.Proof.Manager
open Lib StateManager Utxo
open ErgoNode.Proof.History (addBlockToBatch_eq_ok blockOps blockOps_column)

structure Counters where
  history : ErgoNode.History
  utxoHeight : Nat
  minimalFullBlockHeight : Nat
  isHeadersChainSynced : Bool
  deriving DecidableEq

def restarted (db : Database) : Counters where
  history := History.initFromStorage db
  utxoHeight := (UtxoState.initFromStorage db).height
  minimalFullBlockHeight := (HistoryPruning.initFromStorage 0 db).minimalFullBlockHeight
  isHeadersChainSynced := (HistoryPruning.initFromStorage 0 db).isHeadersChainSynced

/-! ### What a write does to the stored counters -/

section Restarted
variable {columns : Columns} {db other : Database} {batch : WriteBatch} {faults later : List Bool}

theorem restarted_congr (same : other.columns.column .metadata = db.columns.column .metadata) :
    restarted other = restarted db := by
  have read (key : MetadataKey) : other.get .metadata key = db.get .metadata key := congrFun same key
  simp only [restarted, History.initFromStorage, UtxoState.initFromStorage, HistoryPruning.initFromStorage, read]

theorem restarted_write (untouched : batchColumn .metadata batch = []) :
    restarted ⟨columns.write batch, later⟩ = restarted ⟨columns, faults⟩ := by
  refine restarted_congr ?_
  rw [Store.column_write, untouched, Store.write_nil]

theorem metadata_put {key other : MetadataKey} (value : key.Value) :
    columns.write (batch.put .metadata key value) ⟨.metadata, other⟩ =
      Function.update ((columns.write batch).column .metadata) key (some value) other := by
  change (columns.write _).column .metadata other = _
  rw [Store.column_write, WriteBatch.column_put, Store.write_append, ← Store.column_write]
  rfl

theorem restarted_putUtxoHeight (height : Nat) :
    restarted ⟨columns.write (batch.put .metadata .utxoHeight height), faults⟩ =
      { restarted ⟨columns.write batch, faults⟩ with utxoHeight := height } := by
  simp [restarted, History.initFromStorage, UtxoState.initFromStorage, HistoryPruning.initFromStorage, metadata_put,
    Database.get, Store.column_apply]

theorem restarted_putMinimal (height : Nat) :
    restarted ⟨columns.write (batch.put .metadata .minimalFullBlockHeight height), faults⟩ =
      { restarted ⟨columns.write batch, faults⟩ with minimalFullBlockHeight := height } := by
  simp [restarted, History.initFromStorage, UtxoState.initFromStorage, HistoryPruning.initFromStorage, metadata_put,
    Database.get, Store.column_apply]

theorem restarted_putSynced (synced : Bool) :
    restarted ⟨columns.write (batch.put .metadata .isHeadersChainSynced synced), faults⟩ =
      { restarted ⟨columns.write batch, faults⟩ with isHeadersChainSynced := synced } := by
  simp [restarted, History.initFromStorage, UtxoState.initFromStorage, HistoryPruning.initFromStorage, metadata_put,
    Database.get, Store.column_apply]

theorem restarted_putBestHeader (id : BlockId) (height cumulative : Nat) :
    restarted ⟨columns.write (History.putBestHeader batch id height cumulative), faults⟩ =
      { restarted ⟨columns.write batch, faults⟩ with
        history := (restarted ⟨columns.write batch, faults⟩).history.withBestHeader id height cumulative } := by
  simp [restarted, History.putBestHeader, History.withBestHeader, History.initFromStorage, UtxoState.initFromStorage,
    HistoryPruning.initFromStorage, metadata_put, Database.get, Store.column_apply]

theorem restarted_putBestFullBlock (id : BlockId) (height : Nat) :
    restarted ⟨columns.write (History.putBestFullBlock batch id height), faults⟩ =
      { restarted ⟨columns.write batch, faults⟩ with
        history := (restarted ⟨columns.write batch, faults⟩).history.withBestFullBlock id height } := by
  simp [restarted, History.putBestFullBlock, History.withBestFullBlock, History.initFromStorage,
    UtxoState.initFromStorage, HistoryPruning.initFromStorage, metadata_put, Database.get, Store.column_apply]

theorem restarted_putBestBlock {history : ErgoNode.History} (id : BlockId) (height cumulative : Nat) {counters : Counters}
    (before : restarted ⟨columns.write batch, faults⟩ = { counters with history }) :
    restarted ⟨columns.write (History.putBestBlock history batch id height cumulative), faults⟩ =
      { counters with history := history.withBestBlock id height cumulative } := by
  dsimp only [History.putBestBlock, History.withBestBlock]
  have header : restarted ⟨columns.write (if cumulative > history.bestCumulativeDifficulty then
      History.putBestHeader batch id height cumulative else batch), faults⟩ =
      { counters with history := if cumulative > history.bestCumulativeDifficulty then
          history.withBestHeader id height cumulative else history } := by
    split
    · rw [restarted_putBestHeader, before]
    · exact before
  have same : (if cumulative > history.bestCumulativeDifficulty then history.withBestHeader id height cumulative
      else history).bestFullBlockHeight = history.bestFullBlockHeight := by
    split <;> rfl
  rw [same]
  split
  · rw [restarted_putBestFullBlock, header]
  · exact header

end Restarted

/-! ### The history -/

/-- The database and the history agree; the other stored counters are those of `rest`. -/
def HistoryStored (rest : Counters) (view : OnDatabase ErgoNode.History) : Prop :=
  restarted view.db = { rest with history := view.mem }

section History
variable {sr : SigmaRust} {rest : Counters} {view : OnDatabase ErgoNode.History} {batch : WriteBatch}

theorem historyStored_selectChain (stored : HistoryStored rest view) (clean : batchColumn .metadata batch = [])
    (id : BlockId) (height cumulative : Nat) :
    Op.Ends (HistoryStored rest) (History.selectChain sr batch id height cumulative) view := by
  refine Op.Ends.get_bind (.ite (fun heavier => ?_) fun light => ?_)
  · refine OnDatabase.ends_writeBatch_bind (fun faults => stored) fun faults => Op.Ends.modify_bind ?_
    have moved : HistoryStored rest ⟨⟨view.db.columns.write (History.putBestHeader batch id height cumulative), faults⟩,
        view.mem.withBestHeader id height cumulative⟩ := by
      have before : restarted ⟨view.db.columns.write batch, faults⟩ = { rest with history := view.mem } :=
        (restarted_write clean).trans stored
      rw [HistoryStored, restarted_putBestHeader, before]
    exact .ite (fun _ => Op.Ends.get_bind (Op.Ends.ofExcept_bind moved fun _ _ => moved)) fun _ => moved
  · refine OnDatabase.ends_writeBatch_bind (fun faults => stored) fun faults => ?_
    exact (restarted_write clean).trans stored

theorem clean_headerBatch {header : Header} {rawBytes : Option Bytes}
    (built : History.headerBatch sr header rawBytes = .ok batch) : batchColumn .metadata batch = [] := by
  cases rawBytes with
  | some bytes =>
      cases built
      simp [HeaderStore.putWithBytesBatched]
  | none =>
      simp only [History.headerBatch, HeaderStore.putBatched, Except.bind_ok_eq_ok, Except.pure_eq_ok] at built
      obtain ⟨bytes, -, rfl⟩ := built
      simp [HeaderStore.putWithBytesBatched]

theorem historyStored_appendHeaderInternal (stored : HistoryStored rest view) (header : Header)
    (rawBytes : Option Bytes) :
    Op.Ends (HistoryStored rest) (History.appendHeaderInternal sr header rawBytes) view := by
  refine Op.Ends.get_bind (.ite (fun _ => stored) fun _ => .ite (fun _ => stored) fun _ => ?_)
  refine Op.Ends.ofExcept_bind stored fun batch built => ?_
  refine OnDatabase.ends_writeBatch_bind (fun faults => stored) fun faults => ?_
  refine historyStored_selectChain ?_ (by simp [History.storeCumulativeDifficulty]) _ _ _
  exact (restarted_write (clean_headerBatch built)).trans stored

theorem clean_headers {db : Database} {headers : List (Header × Bytes)} {acc next : History.HeaderBatch}
    (clean : batchColumn .metadata acc.batch = [])
    (built : headers.foldlM (History.addHeaderToBatch db) acc = .ok next) : batchColumn .metadata next.batch = [] := by
  refine @foldlM_invariant _ _ _ (fun acc : History.HeaderBatch => batchColumn .metadata acc.batch = [])
    _ ?_ _ _ _ clean built
  intro acc item next clean turn
  dsimp only [History.addHeaderToBatch] at turn
  split at turn
  · cases turn
    exact clean
  · split at turn
    · cases turn
    · cases turn
      simp [History.storeCumulativeDifficulty, HeaderStore.putWithBytesBatched, clean]

theorem historyStored_appendHeadersBatched (stored : HistoryStored rest view) (headers : List (Header × Bytes)) :
    Op.Ends (HistoryStored rest) (History.appendHeadersBatched sr headers) view := by
  cases headers with
  | nil => exact stored
  | cons first others =>
      refine Op.Ends.get_bind (Op.Ends.ofExcept_bind stored fun acc built => ?_)
      exact historyStored_selectChain stored (clean_headers rfl built) _ _ _

theorem historyStored_finalizeBlockBatch (stored : HistoryStored rest view) (clean : batchColumn .metadata batch = [])
    (id : BlockId) (height cumulative : Nat) :
    Op.Ends (HistoryStored rest) (History.finalizeBlockBatch batch id height cumulative) view := by
  refine Op.Ends.get_bind (OnDatabase.ends_writeBatch_bind (fun faults => stored) fun faults => ?_)
  refine Op.Ends.modify_bind ?_
  have before : restarted ⟨view.db.columns.write batch, faults⟩ = { rest with history := view.mem } :=
    (restarted_write clean).trans stored
  exact restarted_putBestBlock id height cumulative before

theorem clean_block {block : FullBlock} {parent cumulative : Nat} {next : WriteBatch}
    (clean : batchColumn .metadata batch = [])
    (built : History.addBlockToBatch sr batch block parent = .ok (next, cumulative)) :
    batchColumn .metadata next = [] := by
  obtain ⟨headerBytes, txs, -, -, -, rfl⟩ := addBlockToBatch_eq_ok.mp built
  rw [batchColumn_append, clean, blockOps_column (by decide), List.append_nil]

theorem historyStored_appendFullBlock (stored : HistoryStored rest view) (block : FullBlock) :
    Op.Ends (HistoryStored rest) (History.appendFullBlock sr block) view := by
  refine Op.Ends.get_bind (Op.Ends.ofExcept_bind stored fun built same => ?_)
  obtain ⟨batch, cumulative⟩ := built
  exact historyStored_finalizeBlockBatch stored (clean_block rfl same) block.id block.height cumulative

end History

/-! ### The UTXO set -/

def UtxoStored (rest : Counters) (view : OnDatabase UtxoState) : Prop :=
  restarted view.db = { rest with utxoHeight := view.mem.height }

section Utxo
variable {sr : SigmaRust} {rest : Counters} {view : OnDatabase UtxoState}

theorem restarted_change {lookup : BoxId → StateResult (Option BoxEntry)} {batch next : WriteBatch}
    {change : StateChange} {newHeight : Nat} {skipIndexes : Bool} (columns : Columns) (faults : List Bool)
    (built : UtxoState.changeToBatch sr ⟨columns, faults⟩ skipIndexes lookup batch change newHeight = .ok next) :
    restarted ⟨columns.write next, faults⟩ =
      { restarted ⟨columns.write batch, faults⟩ with utxoHeight := newHeight } := by
  obtain ⟨removed, spec⟩ := changeToBatch_spec built
  rw [← restarted_putUtxoHeight]
  refine restarted_congr ?_
  rw [Store.column_write, Store.column_write, spec.column (by simp [Unindexed])]
  simp [changeOps, batchColumn_cons_of_ne]

theorem utxoStored_applyChange (stored : UtxoStored rest view) (change : StateChange) (newHeight : Nat) :
    Op.Ends (UtxoStored rest) (UtxoState.applyChange sr change newHeight) view := by
  refine Op.Ends.get_bind (Op.Ends.ofExcept_bind stored fun batch built => ?_)
  refine OnDatabase.ends_writeBatch_bind (fun faults => stored) fun faults => ?_
  have before : restarted ⟨view.db.columns, view.db.faults⟩ = { rest with utxoHeight := view.mem.height } := stored
  have moved : restarted ⟨view.db.columns.write batch, view.db.faults⟩ = { rest with utxoHeight := newHeight } := by
    rw [restarted_change view.db.columns view.db.faults built, Store.write_nil, before]
  exact moved

theorem utxoStored_rollbackOneBlock (stored : UtxoStored rest view) (height : Nat) :
    Op.Ends (UtxoStored rest) (UtxoState.rollbackOneBlock sr height) view := by
  refine Op.Ends.get_bind (Op.Ends.ofExcept_bind stored fun undoBytes _ => ?_)
  refine Op.Ends.ofExcept_bind stored fun undo _ => Op.Ends.ofExcept_bind stored fun batch built => ?_
  obtain ⟨-, spec⟩ := undoToBatch_spec built
  have clean : batchColumn .metadata batch = [] := by
    rw [spec (by simp [Unindexed])]
    simp [undoOps, batchColumn_cons_of_ne]
  exact OnDatabase.ends_writeBatch (fun faults => stored) fun faults => (restarted_write clean).trans stored

/-- The stored height moves last, with the one in memory. -/
theorem utxoStored_rollback (stored : UtxoStored rest view) (toHeight : Nat) :
    Op.Ends (UtxoStored rest) (UtxoState.rollback sr toHeight) view := by
  refine Op.Ends.get_bind (.ite (fun _ => stored) fun _ => ?_)
  have unwound := @Op.Ends.forEach _ _ _ (UtxoStored rest) view (UtxoState.rollbackOneBlock sr)
    (fun height _ there => utxoStored_rollbackOneBlock there height)
    (UtxoState.heightsAbove toHeight view.mem.height) stored
  refine unwound.bind fun _ middle _ there => ?_
  refine OnDatabase.ends_writeBatch_bind (fun faults => there) fun faults => ?_
  have before : restarted ⟨middle.db.columns.write [], faults⟩ = { rest with utxoHeight := middle.mem.height } := there
  have moved : restarted ⟨middle.db.columns.write (WriteBatch.put [] .metadata .utxoHeight toHeight), faults⟩ =
      { rest with utxoHeight := toHeight } := by
    rw [restarted_putUtxoHeight, before]
  exact moved

end Utxo

/-! ### The state manager -/

def ManagerStored (rest : Counters) (st : StateManager) : Prop :=
  restarted st.db = { rest with history := st.history, utxoHeight := st.utxo.height }

section Manager
variable {sr : SigmaRust} {rest : Counters} {st : StateManager} {α : Type}

theorem managerStored_onHistory {x : Op (OnDatabase ErgoNode.History) StateError α}
    (kept : ∀ rest view, HistoryStored rest view → Op.Ends (HistoryStored rest) x view)
    (stored : ManagerStored rest st) : Op.Ends (ManagerStored rest) (onHistory x) st :=
  Op.Ends.zoom (kept { rest with utxoHeight := st.utxo.height } st.historyView stored)

theorem managerStored_onUtxo {x : Op (OnDatabase UtxoState) StateError α}
    (kept : ∀ rest view, UtxoStored rest view → Op.Ends (UtxoStored rest) x view)
    (stored : ManagerStored rest st) : Op.Ends (ManagerStored rest) (onUtxo x) st :=
  Op.Ends.zoom (kept { rest with history := st.history } st.utxoView stored)

theorem managerStored_rollbackTo (stored : ManagerStored rest st) (height : Nat) :
    Op.Ends (ManagerStored rest) (rollbackTo sr height) st :=
  managerStored_onUtxo (fun _ _ there => utxoStored_rollback there height) stored

theorem managerStored_applyBlock (stored : ManagerStored rest st) (block : FullBlock) (change : StateChange) :
    Op.Ends (ManagerStored rest) (StateManager.applyBlock sr block change) st := by
  refine Op.Ends.get_bind (.ite (fun _ => stored) fun _ => ?_)
  refine (managerStored_onHistory (fun _ _ there => historyStored_appendFullBlock there block) stored).bind
    fun _ _ _ appended => ?_
  refine (managerStored_onUtxo (fun _ _ there => utxoStored_applyChange there change block.height) appended).bind
    fun _ _ _ applied => ?_
  refine Op.Ends.bind ?_ fun _ _ _ verified => verified
  refine Op.Ends.get_bind (.ite (fun _ => ?_) fun _ => applied)
  exact Op.Ends.bind (managerStored_rollbackTo applied st.utxo.height) fun _ _ _ back => back

theorem restarted_addToBatch {acc next : BlockBatch} {blocks : List (FullBlock × StateChange)}
    (joined : blocks.foldlM (addToBatch sr st) acc = .ok next) (faults : List Bool) :
    restarted ⟨st.db.columns.write next.batch, faults⟩ =
      { restarted ⟨st.db.columns.write acc.batch, faults⟩ with
        utxoHeight := (blocks.getLast?.map (·.1.height)).getD
          (restarted ⟨st.db.columns.write acc.batch, faults⟩).utxoHeight } := by
  refine @foldlM_prefix_invariant _ _ _ (fun done (now : BlockBatch) =>
    restarted ⟨st.db.columns.write now.batch, faults⟩ = { restarted ⟨st.db.columns.write acc.batch, faults⟩ with
      utxoHeight := (done.getLast?.map (·.1.height)).getD
        (restarted ⟨st.db.columns.write acc.batch, faults⟩).utxoHeight }) (addToBatch sr st) ?_ blocks [] acc next rfl joined
  intro done now item later inv turn
  simp only [addToBatch, Except.bind_ok_eq_ok, Except.pure_eq_ok] at turn
  obtain ⟨⟨sections, sum⟩, built, pushed, changed, rfl⟩ := turn
  obtain ⟨headerBytes, txs, -, -, rfl, rfl⟩ := addBlockToBatch_eq_ok.mp built
  have clean := @restarted_write (st.db.columns.write now.batch) _ faults faults
    (@blockOps_column .metadata (by decide) item.1 headerBytes txs
      (now.cumulativeDifficulty + nbitsToDifficulty item.1.header.nBits))
  rw [← Store.write_append] at clean
  rw [restarted_change st.db.columns faults changed, clean, inv, List.getLast?_concat]
  rfl

theorem managerStored_applyBlocksBatched (stored : ManagerStored rest st) (blocks : List (FullBlock × StateChange)) :
    Op.Ends (ManagerStored rest) (StateManager.applyBlocksBatched sr blocks) st := by
  rcases ran : (StateManager.applyBlocksBatched sr blocks).exec st with ⟨error | selection, after⟩
  · obtain ⟨columns, history, utxo⟩ := applyBlocksBatched_eq_error ran
    rw [Op.Ends, ran, ManagerStored, history, utxo]
    have same : restarted after.db = restarted st.db := restarted_congr (by rw [columns])
    exact same.trans stored
  · rw [Op.Ends, ran]
    cases blocks with
    | nil =>
        cases ran
        exact stored
    | cons first others =>
        obtain ⟨acc, joined, applied⟩ := applyBlocksBatched_eq_ok ran
        have batch := restarted_addToBatch joined []
        rw [Store.write_nil, List.getLast?_cons, Option.map_some, Option.getD_some] at batch
        have before : restarted ⟨st.db.columns.write acc.batch, []⟩ =
            { rest with history := st.history, utxoHeight := (others.getLastD first).1.height } := by
          have start : restarted ⟨st.db.columns, []⟩ = { rest with history := st.history, utxoHeight := st.utxo.height } :=
            stored
          rw [batch, ← List.getLastD_eq_getLast?, start]
        have moved := @restarted_putBestBlock st.db.columns acc.batch [] st.history (others.getLastD first).1.id
          (others.getLastD first).1.height acc.cumulativeDifficulty
          { rest with utxoHeight := (others.getLastD first).1.height } before
        rw [ManagerStored, applied.history, applied.utxo]
        have columns : restarted after.db = restarted ⟨after.db.columns, []⟩ := rfl
        rw [columns, applied.columns, moved]

end Manager

/-! ### Pruning -/

def PruningStored (rest : Counters) (view : OnDatabase HistoryPruning) : Prop :=
  restarted view.db = { rest with
    minimalFullBlockHeight := view.mem.minimalFullBlockHeight
    isHeadersChainSynced := view.mem.isHeadersChainSynced }

/-- What is set in memory first gets stored, or is what is stored already. -/
def SyncedPersists (view : OnDatabase HistoryPruning) (synced : Bool) : Prop :=
  Database.writeFails view.db.faults = false ∨ synced = view.mem.isHeadersChainSynced

/-- The write of the minimal height works, and the one of the flag where there is one; or the first one
fails and the minimal height was the same before. -/
def PruningPersists (view : OnDatabase HistoryPruning) (header : Header) : Prop :=
  if Database.writeFails view.db.faults then view.mem.newMinimalHeight header = view.mem.minimalFullBlockHeight
  else view.mem.isHeadersChainSynced ∨ Database.writeFails view.db.faults.tail = false

section Pruning
variable {sr : SigmaRust} {rest : Counters} {view : OnDatabase HistoryPruning}

theorem pruningStored_setHeadersChainSynced (stored : PruningStored rest view) (synced : Bool) :
    Op.Ends (PruningStored rest) (HistoryPruning.setHeadersChainSynced synced) view ↔ SyncedPersists view synced := by
  unfold Op.Ends HistoryPruning.setHeadersChainSynced SyncedPersists
  rw [Op.exec_bind_of_ok (Op.exec_modify _ _)]
  cases fails : Database.writeFails view.db.faults with
  | false =>
      rw [OnDatabase.exec_writeBatch fails]
      have before : restarted ⟨view.db.columns.write [], view.db.faults.tail⟩ = _ := stored
      simp only [PruningStored, restarted_putSynced, before, true_or]
  | true =>
      rw [OnDatabase.exec_writeBatch_of_fails fails]
      have before : restarted ⟨view.db.columns, view.db.faults.tail⟩ = _ := stored
      simp only [PruningStored, before, Counters.mk.injEq, true_and, reduceCtorEq, false_or]
      exact eq_comm

theorem clean_pruneHeight {db : Database} {heights : List Nat} {batch : WriteBatch}
    (built : heights.foldlM (HistoryPruning.pruneHeight sr db) [] = .ok batch) : batchColumn .metadata batch = [] := by
  refine @foldlM_invariant _ _ _ (fun batch : WriteBatch => batchColumn .metadata batch = []) _ ?_ _ _ _ rfl built
  intro batch height next clean turn
  simp only [HistoryPruning.pruneHeight, Except.bind_ok_eq_ok] at turn
  obtain ⟨found, -, turn⟩ := turn
  cases found with
  | none =>
      cases turn
      exact clean
  | some header =>
      dsimp only at turn
      split at turn
      · cases turn
        simp [clean]
      · cases turn
        exact clean

theorem pruningStored_pruneBlocksBelow (stored : PruningStored rest view) (height : Nat) :
    Op.Ends (PruningStored rest) (HistoryPruning.pruneBlocksBelow sr height) view := by
  refine Op.Ends.get_bind (Op.Ends.ofExcept_bind stored fun batch built => .ite (fun _ => stored) fun _ => ?_)
  exact OnDatabase.ends_writeBatch (fun faults => stored) fun faults =>
    (restarted_write (clean_pruneHeight built)).trans stored

theorem pruningStored_markHeadersSynced (stored : PruningStored rest view) :
    Op.Ends (PruningStored rest) HistoryPruning.markHeadersSynced view ↔
      view.mem.isHeadersChainSynced ∨ Database.writeFails view.db.faults = false := by
  unfold HistoryPruning.markHeadersSynced Op.Ends
  rw [Op.exec_bind_of_ok (Op.exec_get view), Op.exec_ite]
  cases flag : view.mem.isHeadersChainSynced with
  | true => simpa using stored
  | false =>
      have set := pruningStored_setHeadersChainSynced stored true
      rw [SyncedPersists, flag] at set
      simpa [Op.Ends] using set

theorem markHeadersSynced_error (unsynced : view.mem.isHeadersChainSynced = false)
    (fails : Database.writeFails view.db.faults = true) :
    ∃ error after, HistoryPruning.markHeadersSynced.exec view = (.error error, after) := by
  unfold HistoryPruning.markHeadersSynced HistoryPruning.setHeadersChainSynced
  rw [Op.exec_bind_of_ok (Op.exec_get view), Op.exec_ite, unsynced, if_neg (by simp),
    Op.exec_bind_of_ok (Op.exec_modify _ _), OnDatabase.exec_writeBatch_of_fails fails]
  exact ⟨_, _, rfl⟩

theorem pruningStored_updateBestFullBlockPruning (stored : PruningStored rest view) (header : Header) :
    Op.Ends (PruningStored rest) (HistoryPruning.updateBestFullBlockPruning sr header) view ↔
      PruningPersists view header := by
  unfold Op.Ends HistoryPruning.updateBestFullBlockPruning PruningPersists
  rw [Op.exec_bind_of_ok (Op.exec_get view), Op.exec_bind_of_ok (Op.exec_modify _ _)]
  cases fails : Database.writeFails view.db.faults with
  | true =>
      rw [Op.exec_bind_of_error (OnDatabase.exec_writeBatch_of_fails fails _ _)]
      have before : restarted ⟨view.db.columns, view.db.faults.tail⟩ = _ := stored
      simp only [PruningStored, before, Counters.mk.injEq, true_and, and_true, if_true]
      exact eq_comm
  | false =>
      rw [Op.exec_bind_of_ok (OnDatabase.exec_writeBatch fails _ _)]
      simp only [Bool.false_eq_true, if_false]
      let next : OnDatabase HistoryPruning := ⟨⟨view.db.columns.write (WriteBatch.put [] .metadata
        .minimalFullBlockHeight (view.mem.newMinimalHeight header)), view.db.faults.tail⟩,
        { view.mem with minimalFullBlockHeight := view.mem.newMinimalHeight header }⟩
      have moved : PruningStored rest next := by
        have before : restarted ⟨view.db.columns.write [], view.db.faults.tail⟩ = _ := stored
        rw [PruningStored, restarted_putMinimal, before]
      have marked := pruningStored_markHeadersSynced moved
      by_cases persists : view.mem.isHeadersChainSynced ∨ Database.writeFails view.db.faults.tail = false
      · refine iff_of_true ?_ persists
        refine Op.Ends.bind (marked.mpr persists) fun _ _ _ there => .ite (fun _ => ?_) fun _ => there
        exact (pruningStored_pruneBlocksBelow there _).bind fun _ _ _ pruned => pruned
      · refine iff_of_false ?_ persists
        have unsynced := persists
        rw [not_or, Bool.not_eq_true, Bool.not_eq_false] at unsynced
        obtain ⟨error, after, failed⟩ := @markHeadersSynced_error next unsynced.1 unsynced.2
        rw [Op.exec_bind_of_error failed]
        intro kept
        refine persists (marked.mp ?_)
        rw [Op.Ends, failed]
        exact kept

end Pruning

/-! ### Runs of the node -/

structure RunningNode where
  manager : StateManager
  pruning : HistoryPruning

namespace RunningNode

def counters (node : RunningNode) : Counters :=
  ⟨node.manager.history, node.manager.utxo.height, node.pruning.minimalFullBlockHeight,
    node.pruning.isHeadersChainSynced⟩

def pruningView (node : RunningNode) : OnDatabase HistoryPruning := ⟨node.manager.db, node.pruning⟩

def start (db : Database) (mode : StateRootVerification) (blocksToKeep : Int) : RunningNode where
  manager := ⟨db, .initFromStorage db, .initFromStorage db, mode⟩
  pruning := .initFromStorage blocksToKeep db

example (faults : List Bool) (mode : StateRootVerification) :
    start ⟨Database.empty.columns, faults⟩ mode (-1) =
      ⟨⟨⟨Database.empty.columns, faults⟩, .new, .new, mode⟩, .withPruning (-1)⟩ := rfl

/-- A start on the stored data finds what the running objects hold. -/
def RestartFinds (node : RunningNode) : Prop := restarted node.manager.db = node.counters

end RunningNode

open RunningNode

def onManager {α : Type} (x : Op StateManager StateError α) : Op RunningNode StateError Unit :=
  Op.zoom RunningNode.manager (fun manager node => { node with manager }) do
    let _ ← x

def onPruning {α : Type} (x : Op (OnDatabase HistoryPruning) StateError α) : Op RunningNode StateError Unit :=
  Op.zoom pruningView (fun view node => { node with manager.db := view.db, pruning := view.mem }) do
    let _ ← x

def appendBlocksTogether (sr : SigmaRust) (blocks : List FullBlock) (parentCumulative : Nat) (finalBlock : FullBlock) :
    Op (OnDatabase ErgoNode.History) StateError ChainSelection := do
  let (batch, cumulative) ← MonadExcept.ofExcept (blocks.foldlM
    (fun acc block => History.addBlockToBatch sr acc.1 block acc.2) ([], parentCumulative))
  History.finalizeBlockBatch batch finalBlock.id finalBlock.height cumulative

inductive NodeCall where
  | appendHeader (header : Header)
  | appendHeaderWithBytes (header : Header) (rawBytes : Bytes)
  | appendHeadersBatched (headers : List (Header × Bytes))
  | appendFullBlock (block : FullBlock)
  | appendBlocksTogether (blocks : List FullBlock) (parentCumulative : Nat) (finalBlock : FullBlock)
  | applyBlock (block : FullBlock) (stateChange : StateChange)
  | applyBlocksBatched (blocks : List (FullBlock × StateChange))
  | rollbackTo (height : Nat)
  | setHeadersChainSynced (synced : Bool)
  | updateBestFullBlockPruning (header : Header)

namespace NodeCall

def exec (sr : SigmaRust) : NodeCall → Op RunningNode StateError Unit
  | appendHeader header => onManager (applyHeader sr header)
  | appendHeaderWithBytes header rawBytes => onManager (applyHeaderWithBytes sr header rawBytes)
  | appendHeadersBatched headers => onManager (applyHeadersBatched sr headers)
  | appendFullBlock block => onManager (onHistory (History.appendFullBlock sr block))
  | appendBlocksTogether blocks parentCumulative finalBlock =>
      onManager (onHistory (Manager.appendBlocksTogether sr blocks parentCumulative finalBlock))
  | applyBlock block stateChange => onManager (StateManager.applyBlock sr block stateChange)
  | applyBlocksBatched blocks => onManager (StateManager.applyBlocksBatched sr blocks)
  | rollbackTo height => onManager (StateManager.rollbackTo sr height)
  | setHeadersChainSynced synced => onPruning (HistoryPruning.setHeadersChainSynced synced)
  | updateBestFullBlockPruning header => onPruning (HistoryPruning.updateBestFullBlockPruning sr header)

/-- A pruning call's writes work as far as they have something to store. -/
def Persists (node : RunningNode) : NodeCall → Prop
  | setHeadersChainSynced synced => SyncedPersists node.pruningView synced
  | updateBestFullBlockPruning header => PruningPersists node.pruningView header
  | _ => True

end NodeCall

def nodeStep (sr : SigmaRust) (node : RunningNode) (call : NodeCall) : Option RunningNode :=
  some ((call.exec sr).exec node).2

section Runs
variable {sr : SigmaRust} {node after : RunningNode} {call : NodeCall} {α : Type}

theorem onManager_restartFinds {x : Op StateManager StateError α}
    (kept : ∀ rest st, ManagerStored rest st → Op.Ends (ManagerStored rest) x st) (finds : RestartFinds node) :
    Op.Ends RestartFinds (onManager x) node := by
  refine Op.Ends.zoom ?_
  exact Op.Ends.bind (kept node.counters node.manager finds) fun _ _ _ there => there

theorem onPruning_restartFinds_iff {x : Op (OnDatabase HistoryPruning) StateError α} :
    Op.Ends RestartFinds (onPruning x) node ↔ Op.Ends (PruningStored node.counters) x node.pruningView :=
  @Op.ends_discard_iff _ _ _ _ (PruningStored node.counters) x node.pruningView ()

theorem historyStored_appendBlocksTogether {rest : Counters} {view : OnDatabase ErgoNode.History}
    (stored : HistoryStored rest view) (blocks : List FullBlock) (parentCumulative : Nat) (finalBlock : FullBlock) :
    Op.Ends (HistoryStored rest) (appendBlocksTogether sr blocks parentCumulative finalBlock) view := by
  refine Op.Ends.ofExcept_bind stored fun built same => ?_
  have clean := @foldlM_invariant _ _ _ (fun acc : WriteBatch × Nat => batchColumn .metadata acc.1 = [])
    (fun acc block => History.addBlockToBatch sr acc.1 block acc.2) clean_block blocks _ built rfl same
  exact historyStored_finalizeBlockBatch stored clean finalBlock.id finalBlock.height built.2

theorem restartFinds_step_iff (finds : RestartFinds node) (taken : nodeStep sr node call = some after) :
    RestartFinds after ↔ call.Persists node := by
  cases taken
  cases call with
  | appendHeader header =>
      refine iff_of_true (onManager_restartFinds (fun rest st stored => ?_) finds) trivial
      exact managerStored_onHistory (fun _ _ there => historyStored_appendHeaderInternal there header none) stored
  | appendHeaderWithBytes header rawBytes =>
      refine iff_of_true (onManager_restartFinds (fun rest st stored => ?_) finds) trivial
      exact managerStored_onHistory (fun _ _ there => historyStored_appendHeaderInternal there header rawBytes) stored
  | appendHeadersBatched headers =>
      refine iff_of_true (onManager_restartFinds (fun rest st stored => ?_) finds) trivial
      exact managerStored_onHistory (fun _ _ there => historyStored_appendHeadersBatched there headers) stored
  | appendFullBlock block =>
      refine iff_of_true (onManager_restartFinds (fun rest st stored => ?_) finds) trivial
      exact managerStored_onHistory (fun _ _ there => historyStored_appendFullBlock there block) stored
  | appendBlocksTogether blocks parentCumulative finalBlock =>
      refine iff_of_true (onManager_restartFinds (fun rest st stored => ?_) finds) trivial
      exact managerStored_onHistory
        (fun _ _ there => historyStored_appendBlocksTogether there blocks parentCumulative finalBlock) stored
  | applyBlock block stateChange =>
      refine iff_of_true (onManager_restartFinds (fun rest st stored => ?_) finds) trivial
      exact managerStored_applyBlock stored block stateChange
  | applyBlocksBatched blocks =>
      refine iff_of_true (onManager_restartFinds (fun rest st stored => ?_) finds) trivial
      exact managerStored_applyBlocksBatched stored blocks
  | rollbackTo height =>
      refine iff_of_true (onManager_restartFinds (fun rest st stored => ?_) finds) trivial
      exact managerStored_rollbackTo stored height
  | setHeadersChainSynced synced =>
      have stored : PruningStored node.counters node.pruningView := finds
      exact onPruning_restartFinds_iff.trans (pruningStored_setHeadersChainSynced stored synced)
  | updateBestFullBlockPruning header =>
      have stored : PruningStored node.counters node.pruningView := finds
      exact onPruning_restartFinds_iff.trans (pruningStored_updateBestFullBlockPruning stored header)

/-- In every state of a run, whichever writes fail, a restart finds what the node holds exactly when the
pruning calls of the run persist what they set. -/
theorem restartFinds_always_iff (sr : SigmaRust) (db : Database) (mode : StateRootVerification) (blocksToKeep : Int)
    (calls : List NodeCall) :
    Always (nodeStep sr) RestartFinds (.start db mode blocksToKeep) calls ↔
      Along (nodeStep sr) (fun node call => call.Persists node) (.start db mode blocksToKeep) calls := by
  obtain ⟨final, ran⟩ := exists_run (fun _ _ => rfl : ∀ node call, (nodeStep sr node call).isSome)
    (.start db mode blocksToKeep) calls
  have start : RestartFinds (.start db mode blocksToKeep) := rfl
  exact always_iff_along (fun finds persists taken => (restartFinds_step_iff finds taken).mpr persists)
    (fun finds taken findsAfter => (restartFinds_step_iff finds taken).mp findsAfter) id start ran

end Runs

section Samples
open Sample

def flagFails : Database := ⟨Database.empty.columns, [false, true]⟩

theorem flagFails_not_found : ¬ Always (nodeStep chainCodec) RestartFinds (.start flagFails .warnOnly (-1))
    [.updateBestFullBlockPruning header11] := by
  intro always
  have found := always _ ⟨[.updateBestFullBlockPruning header11], List.prefix_rfl, rfl⟩
  exact absurd (congrArg Counters.isHeadersChainSynced found) (by decide)

end Samples
end ErgoNode.Proof.Manager
