import ErgoNode.Proof.History.Block
import ErgoNode.Proof.Utxo.Rollback
import ErgoNode.State.Manager
import ErgoNode.Proof.History.Index

/-!
# What a call of the state manager leaves

One inversion lemma a call: the checks it passed, the batch it wrote and the counters it moved.
-/

namespace ErgoNode.Proof.Manager
open Lib StateManager Utxo
open ErgoNode.Proof.History (fullBlock addBlockToBatch_eq_ok blockOps_column putBestBlock_column
  appendFullBlock_eq_ok)

variable {sr : SigmaRust} {st after : StateManager} {block : FullBlock} {change : StateChange}

theorem boxes_write_block {batch : WriteBatch} {parent cumulative : Nat}
    (built : History.addBlockToBatch sr [] block parent = .ok (batch, cumulative))
    (history : ErgoNode.History) (columns : Columns) :
    boxes (columns.write (History.putBestBlock history batch block.id block.height cumulative)) =
      boxes columns := by
  obtain ⟨headerBytes, txs, -, -, -, rfl⟩ := addBlockToBatch_eq_ok.mp built
  rw [boxes, Store.column_write, putBestBlock_column (by decide), List.nil_append,
    blockOps_column (by decide), Store.write_nil]

/-! ### Blocks -/

theorem verifyStateRoot_eq_ok {header : Header} {utxoHeight : Nat}
    (done : (verifyStateRoot sr header utxoHeight).exec st = (.ok (), after)) :
    rootRejected st header = false ∧ after = st := by
  simp only [verifyStateRoot, Op.exec_bind, Op.exec_get] at done
  split at done
  · cases done
  · next accepted =>
      cases done
      exact ⟨Bool.not_eq_true _ ▸ accepted, rfl⟩

structure BlockApplied (sr : SigmaRust) (st : StateManager) (block : FullBlock)
    (change : StateChange) (after : StateManager) : Prop where
  height : block.height = st.utxo.height + 1
  history : ∃ cumulative, after.history = st.history.withBestBlock block.id block.height cumulative
  utxo : after.utxo = { st.utxo with height := block.height }
  change : ∃ db, boxes db.columns = boxes st.db.columns ∧
    (UtxoState.applyChange sr change block.height).exec ⟨db, st.utxo⟩ = (.ok (), after.utxoView)

theorem applyBlock_parts {selection : ChainSelection}
    (done : (applyBlock sr block change).exec st = (.ok selection, after)) :
    block.height = st.utxo.height + 1 ∧ ∃ appended applied,
      (History.appendFullBlock sr block).exec st.historyView = (.ok selection, appended) ∧
      (UtxoState.applyChange sr change block.height).exec ⟨appended.db, st.utxo⟩ = (.ok (), applied) ∧
      after = { st with db := applied.db, utxo := applied.mem, history := appended.mem } := by
  simp only [applyBlock, Op.exec_bind_eq_ok, Op.exec_get, Prod.mk.injEq, Except.ok.injEq] at done
  obtain ⟨_, _, ⟨rfl, rfl⟩, done⟩ := done
  rw [Op.exec_ite] at done
  split at done
  · cases done
  · next matched =>
      simp only [Op.exec_bind_eq_ok, onHistory, onUtxo, Op.exec_zoom, Prod.mk.injEq] at done
      obtain ⟨_, _, ⟨appended, rfl⟩, _, _, ⟨applied, rfl⟩, _, _, verified, done⟩ := done
      obtain ⟨-, rfl⟩ := verifyStateRoot_eq_ok verified
      cases done
      exact ⟨not_not.mp matched, _, _, Prod.ext appended rfl, Prod.ext applied rfl, rfl⟩

theorem applyBlock_eq_ok {selection : ChainSelection}
    (done : (applyBlock sr block change).exec st = (.ok selection, after)) :
    BlockApplied sr st block change after := by
  obtain ⟨height, appended, applied, first, second, rfl⟩ := applyBlock_parts done
  obtain ⟨_, cumulative, built, written, history⟩ := appendFullBlock_eq_ok first
  obtain ⟨_, _, -, -, utxo⟩ := applyChange_eq_ok second
  refine ⟨height, ⟨cumulative, history⟩, utxo, _, ?_, second⟩
  exact (congrArg boxes written).trans (boxes_write_block built _ _)

theorem firstGap_eq_none {blocks : List FullBlock} {expected : Nat} :
    firstGap expected blocks = none ↔
      blocks.map FullBlock.height = List.range' expected blocks.length := by
  induction blocks generalizing expected with
  | nil => simp [firstGap]
  | cons block rest ih =>
      rw [firstGap, List.map_cons, List.length_cons, List.range'_succ, List.cons.injEq, ← ih]
      by_cases same : block.height = expected <;> simp [same]

theorem checkHeights_eq_ok {utxoHeight : Nat} {first : FullBlock} {rest : List FullBlock} :
    checkHeights utxoHeight first (first :: rest) = .ok () ↔
      (first :: rest).map FullBlock.height = List.range' (utxoHeight + 1) (rest.length + 1) := by
  rw [checkHeights]
  by_cases same : first.height = utxoHeight + 1
  · rw [if_neg (not_not.mpr same), same]
    rcases gap : firstGap (utxoHeight + 1) (first :: rest) with _ | ⟨expected, got⟩
    · simp [firstGap_eq_none.mp gap]
    · simp only [reduceCtorEq, false_iff]
      intro contiguous
      rw [firstGap_eq_none.mpr contiguous] at gap
      cases gap
  · rw [if_pos same]
    simp [List.range'_succ, same]

structure BlocksApplied (sr : SigmaRust) (st : StateManager) (blocks : List (FullBlock × StateChange))
    (last : FullBlock) (acc : BlockBatch) (after : StateManager) : Prop where
  heights : blocks.map (·.1.height) = List.range' (st.utxo.height + 1) blocks.length
  columns : after.db.columns = st.db.columns.write
    (History.putBestBlock st.history acc.batch last.id last.height acc.cumulativeDifficulty)
  history : after.history =
    st.history.withBestBlock last.id last.height acc.cumulativeDifficulty
  utxo : after.utxo = { st.utxo with height := last.height }

theorem applyBlocksBatched_eq_ok {first : FullBlock × StateChange}
    {rest : List (FullBlock × StateChange)} {selection : ChainSelection}
    (done : (applyBlocksBatched sr (first :: rest)).exec st = (.ok selection, after)) :
    ∃ acc, (first :: rest).foldlM (addToBatch sr st)
        ⟨[], History.parentCumulative st.db first.1.header, BoxMap.empty⟩ = .ok acc ∧
      BlocksApplied sr st (first :: rest) (rest.getLastD first).1 acc after := by
  simp only [applyBlocksBatched, Op.exec_bind_eq_ok, Op.exec_get, Op.exec_ofExcept, Prod.mk.injEq,
    Except.ok.injEq, onHistory, onUtxo, Op.exec_zoom, Op.exec_pure, History.executeBatch,
    History.updateInMemoryState, UtxoState.updateHeightInMemory, OnDatabase.writeBatch,
    Op.exec_modify] at done
  obtain ⟨_, _, ⟨rfl, rfl⟩, _, _, ⟨checked, rfl⟩, acc, _, ⟨built, rfl⟩, _, _, ⟨wrote, rfl⟩, _, _,
    ⟨-, rfl⟩, _, _, ⟨-, rfl⟩, -, rfl⟩ := done
  refine ⟨acc, built, ?_, Database.columns_of_writeBatch_ok (Prod.ext wrote rfl), rfl, rfl⟩
  have contiguous := checkHeights_eq_ok.mp checked
  simpa [List.map_map, Function.comp_def] using contiguous

theorem applyBlocksBatched_eq_error {blocks : List (FullBlock × StateChange)} {error : StateError}
    (failed : (applyBlocksBatched sr blocks).exec st = (.error error, after)) :
    after.db.columns = st.db.columns ∧ after.history = st.history ∧ after.utxo = st.utxo := by
  cases blocks with
  | nil => cases failed
  | cons first rest =>
      simp only [applyBlocksBatched, Op.exec_bind_eq_error, Op.exec_get, Op.exec_ofExcept, Prod.mk.injEq,
        onHistory, onUtxo, Op.exec_zoom, Op.exec_pure, History.executeBatch, reduceCtorEq,
        History.updateInMemoryState, UtxoState.updateHeightInMemory, OnDatabase.writeBatch,
        Op.exec_modify, false_and, and_false, exists_false, or_false, false_or, Except.ok.injEq] at failed
      obtain ⟨_, _, ⟨rfl, rfl⟩, failed⟩ := failed
      rcases failed with ⟨-, rfl⟩ | ⟨_, _, ⟨-, rfl⟩, failed⟩
      · exact ⟨rfl, rfl, rfl⟩
      · rcases failed with ⟨-, rfl⟩ | ⟨acc, _, ⟨-, rfl⟩, failed, rfl⟩
        · exact ⟨rfl, rfl, rfl⟩
        · exact ⟨Database.columns_of_writeBatch_error (Prod.ext failed rfl), rfl, rfl⟩

theorem rollbackTo_eq_ok {height : Nat}
    (done : (rollbackTo sr height).exec st = (.ok (), after)) :
    height < st.utxo.height ∧ after.utxo = { st.utxo with height := height } ∧
      after.history = st.history := by
  simp only [rollbackTo, onUtxo, Op.exec_zoom, Prod.mk.injEq] at done
  obtain ⟨ok, rfl⟩ := done
  obtain ⟨low, mem, -⟩ := rollback_eq_ok (Prod.ext ok rfl)
  exact ⟨low, mem, rfl⟩

theorem onHistory_eq_ok {α : Type} {x : Op (OnDatabase ErgoNode.History) StateError α} {a : α}
    (kept : Op.Keeps (fun view => fullBlock view.mem) x)
    (done : (onHistory x).exec st = (.ok a, after)) :
    after.utxo = st.utxo ∧ fullBlock after.history = fullBlock st.history := by
  simp only [onHistory, Op.exec_zoom, Prod.mk.injEq] at done
  obtain ⟨-, rfl⟩ := done
  exact ⟨rfl, kept _⟩

end ErgoNode.Proof.Manager

/-!
### The headers of a batch of blocks

A batch of blocks adds the header of each of them, serialized again and with the running total as its
cumulative difficulty. The UTXO set has no part in the columns of the history.
-/

namespace ErgoNode.Proof.Manager
open Lib StateManager Utxo
open ErgoNode.Proof.History (Added HeaderColumn Writes total blockOps addBlockToBatch_eq_ok putBestBlock_column
  writes_of_column)

structure BlocksAdded (sr : SigmaRust) (start : Nat) (blocks : List FullBlock) (added : List Added) : Prop where
  headers : added.map (·.header) = blocks.map (·.header)
  encoded : ∀ a ∈ added, sr.headerBytes a.header = .ok a.rawBytes
  cumulative : ∀ before a, before ++ [a] <+: added →
    a.cumulative = total start before + nbitsToDifficulty a.header.nBits

section Batch
variable {sr : SigmaRust} {st after : StateManager} {start : Nat} {acc next : BlockBatch}
variable {blocks : List (FullBlock × StateChange)} {item : FullBlock × StateChange}

def HistoryColumn (cf : ColumnFamily) : Prop := Unindexed cf ∧ .utxo ≠ cf ∧ .undoData ≠ cf ∧ .metadata ≠ cf

theorem headerColumn_ne {cf : ColumnFamily} (known : HeaderColumn cf) : HistoryColumn cf := by
  rcases known with rfl | rfl | rfl <;> exact ⟨fun kind => by simp, by simp, by simp, by simp⟩

theorem blockOps_headerColumn {cf : ColumnFamily} (known : HeaderColumn cf) (block : FullBlock)
    (headerBytes : Bytes) (txs : Bytes) (cumulative : Nat) :
    batchColumn cf (blockOps block headerBytes txs cumulative) =
      batchColumn cf (Added.ops ⟨block.header, headerBytes, cumulative⟩) := by
  rw [blockOps, batchColumn_append]
  rcases known with rfl | rfl | rfl <;> cases block.adProofs <;>
    simp [Added.ops, batchColumn_cons_of_ne, FullBlock.id, FullBlock.height]

structure HeadersBatched (sr : SigmaRust) (start : Nat) (blocks : List (FullBlock × StateChange))
    (added : List Added) (acc : BlockBatch) : Prop where
  blocks : BlocksAdded sr start (blocks.map Prod.fst) added
  sum : acc.cumulativeDifficulty = total start added
  column : ∀ {cf}, HeaderColumn cf → batchColumn cf acc.batch = batchColumn cf (added.flatMap Added.ops)

theorem headersBatched_nil (sr : SigmaRust) (start : Nat) :
    HeadersBatched sr start [] [] ⟨[], start, BoxMap.empty⟩ where
  blocks := ⟨rfl, by simp, fun before a prefixed => by simp at prefixed⟩
  sum := rfl
  column _ := rfl

theorem HeadersBatched.step {added : List Added} (batched : HeadersBatched sr start blocks added acc)
    (turn : addToBatch sr st acc item = .ok next) :
    ∃ more, HeadersBatched sr start (blocks ++ [item]) more next := by
  obtain ⟨block, change⟩ := item
  simp only [addToBatch, Except.bind_ok_eq_ok, Except.pure_eq_ok] at turn
  obtain ⟨⟨batch, cumulative⟩, sections, boxes, changed, rfl⟩ := turn
  obtain ⟨headerBytes, txs, encoded, -, sum, rfl⟩ := addBlockToBatch_eq_ok.mp sections
  obtain ⟨removed, spec⟩ := changeToBatch_spec changed
  rw [batched.sum] at sum
  refine ⟨added ++ [⟨block.header, headerBytes, cumulative⟩], ⟨?_, ?_, ?_⟩, ?_, ?_⟩
  · rw [List.map_append, List.map_append, List.map_append, batched.blocks.headers]
    rfl
  · intro a member
    rcases List.mem_append.mp member with old | new
    · exact batched.blocks.encoded a old
    · rw [List.mem_singleton.mp new]
      exact encoded
  · intro before a prefixed
    rcases List.prefix_concat_iff.mp prefixed with same | earlier
    · obtain ⟨rfl, last⟩ := List.append_inj' same rfl
      cases last
      exact sum
    · exact batched.blocks.cumulative before a earlier
  · simp [History.total]
  · intro cf known
    obtain ⟨unindexed, utxo, undoData, metadata⟩ := headerColumn_ne known
    rw [spec.column unindexed, batchColumn_append, batched.column known, blockOps_headerColumn known,
      List.flatMap_append, batchColumn_append]
    simp [changeOps, batchColumn_cons_of_ne, utxo, undoData, metadata]

theorem exists_headersBatched (built : blocks.foldlM (addToBatch sr st) ⟨[], start, BoxMap.empty⟩ = .ok acc) :
    ∃ added, HeadersBatched sr start blocks added acc :=
  foldlM_prefix_invariant (fun done acc => ∃ added, HeadersBatched sr start done added acc)
    (fun ⟨_, batched⟩ turn => batched.step turn) ⟨[], headersBatched_nil sr start⟩ built

theorem applyBlocksBatched_added {first : FullBlock × StateChange} {rest : List (FullBlock × StateChange)}
    {selection : ChainSelection}
    (done : (applyBlocksBatched sr (first :: rest)).exec st = (.ok selection, after)) :
    ∃ added, BlocksAdded sr (History.parentCumulative st.db first.1.header) ((first :: rest).map Prod.fst) added ∧
      Writes st.db.columns after.db.columns added ∧
      after.history = st.history.withBestBlock (rest.getLastD first).1.id (rest.getLastD first).1.height
        (total (History.parentCumulative st.db first.1.header) added) := by
  obtain ⟨acc, built, applied⟩ := applyBlocksBatched_eq_ok done
  obtain ⟨added, batched⟩ := exists_headersBatched built
  refine ⟨added, batched.blocks, ?_, ?_⟩
  · rw [applied.columns]
    apply writes_of_column
    intro cf known
    rw [putBestBlock_column (headerColumn_ne known).2.2.2, batched.column known]
  · rw [applied.history, batched.sum]

end Batch

/-! ### The UTXO set's part -/

section Keeps
variable {sr : SigmaRust} {cf : ColumnFamily}

theorem keeps_column_applyChange (apart : HistoryColumn cf) (change : StateChange) (newHeight : Nat) :
    Op.Keeps (fun view => view.db.columns.column cf) (UtxoState.applyChange sr change newHeight) := by
  obtain ⟨unindexed, utxo, undoData, metadata⟩ := apart
  refine Op.keeps_get.bind fun st => Op.Keeps.ofExcept_bind fun batch pushed => ?_
  obtain ⟨removed, spec⟩ := changeToBatch_spec pushed
  have untouched : batchColumn cf batch = [] := by
    rw [spec.column unindexed]
    simp [changeOps, batchColumn_cons_of_ne, utxo, undoData, metadata]
  exact (History.keeps_column_writeBatch untouched).bind fun _ => Op.keeps_modify fun _ => rfl

theorem keeps_column_rollbackOneBlock (apart : HistoryColumn cf) (height : Nat) :
    Op.Keeps (fun view => view.db.columns.column cf) (UtxoState.rollbackOneBlock sr height) := by
  obtain ⟨unindexed, utxo, undoData, -⟩ := apart
  refine Op.keeps_get.bind fun st => (Op.keeps_ofExcept _).bind fun undoBytes =>
    (Op.keeps_ofExcept _).bind fun undo => Op.Keeps.ofExcept_bind fun batch built => ?_
  obtain ⟨-, spec⟩ := undoToBatch_spec built
  have untouched : batchColumn cf batch = [] := by
    rw [spec unindexed]
    simp [undoOps, batchColumn_cons_of_ne, utxo, undoData]
  exact History.keeps_column_writeBatch untouched

theorem keeps_column_rollback (apart : HistoryColumn cf) (toHeight : Nat) :
    Op.Keeps (fun view => view.db.columns.column cf) (UtxoState.rollback sr toHeight) := by
  have height : batchColumn cf (WriteBatch.put [] .metadata .utxoHeight toHeight) = [] := by
    simp [apart.2.2.2]
  exact Op.keeps_get.bind fun st => .ite (Op.keeps_throw _)
    ((Op.Keeps.forEach (keeps_column_rollbackOneBlock apart) _).bind fun _ =>
      (History.keeps_column_writeBatch height).bind fun _ => Op.keeps_modify fun _ => rfl)

theorem keeps_onUtxo {α : Type} {x : Op (OnDatabase UtxoState) StateError α}
    (kept : Op.Keeps (fun view => view.db.columns.column cf) x) :
    Op.Keeps (fun st : StateManager => (st.db.columns.column cf, st.history)) (onUtxo x) :=
  fun st => congrArg (·, st.history) (kept st.utxoView)

theorem keeps_rollbackTo (apart : HistoryColumn cf) (height : Nat) :
    Op.Keeps (fun st => (st.db.columns.column cf, st.history)) (rollbackTo sr height) :=
  keeps_onUtxo (keeps_column_rollback apart height)

theorem keeps_verifyStateRoot (apart : HistoryColumn cf) (header : Header) (utxoHeight : Nat) :
    Op.Keeps (fun st => (st.db.columns.column cf, st.history)) (verifyStateRoot sr header utxoHeight) :=
  Op.keeps_get.bind fun _ => .ite
    ((Op.keeps_attempt (keeps_onUtxo (keeps_column_rollback apart utxoHeight))).bind fun _ => Op.keeps_throw _)
    (Op.keeps_pure ())

end Keeps

theorem applyBlock_history (sr : SigmaRust) (st : StateManager) (block : FullBlock) (change : StateChange) :
    let after := ((applyBlock sr block change).exec st).2
    after = st ∨ block.height = st.utxo.height + 1 ∧ ∀ {cf}, HistoryColumn cf →
      let appended := ((onHistory (History.appendFullBlock sr block)).exec st).2
      after.db.columns.column cf = appended.db.columns.column cf ∧ after.history = appended.history := by
  intro after
  by_cases height : block.height ≠ st.utxo.height + 1
  · left
    simp only [after, applyBlock, Op.exec_bind, Op.exec_get, if_pos height, Op.exec_throw]
  · refine .inr ⟨not_not.mp height, fun {cf} apart => ?_⟩
    have rest (selection : ChainSelection) :
        Op.Keeps (fun st : StateManager => (st.db.columns.column cf, st.history)) (do
          onUtxo (UtxoState.applyChange sr change block.height)
          verifyStateRoot sr block.header st.utxo.height
          return selection : Op StateManager StateError ChainSelection) :=
      (keeps_onUtxo (keeps_column_applyChange apart change block.height)).bind fun _ =>
        (keeps_verifyStateRoot apart block.header st.utxo.height).bind fun _ => Op.keeps_pure _
    have ran : (applyBlock sr block change).exec st = (do
        let selection ← onHistory (History.appendFullBlock sr block)
        onUtxo (UtxoState.applyChange sr change block.height)
        verifyStateRoot sr block.header st.utxo.height
        return selection : Op StateManager StateError ChainSelection).exec st := by
      unfold applyBlock
      rw [Op.exec_bind_of_ok (Op.exec_get st), Op.exec_ite, if_neg height]
    simp only [after]
    rw [ran]
    rcases first : (onHistory (History.appendFullBlock sr block)).exec st with ⟨error | selection, middle⟩
    · rw [Op.exec_bind_of_error first]
      exact ⟨rfl, rfl⟩
    · rw [Op.exec_bind_of_ok first]
      exact Prod.mk.inj (rest selection middle)

end ErgoNode.Proof.Manager
