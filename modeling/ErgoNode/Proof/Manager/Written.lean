import ErgoNode.Lib.Argmax
import ErgoNode.Proof.History.Growth
import ErgoNode.Proof.Manager.Atomic
import ErgoNode.Proof.Utxo.Indexes

/-!
# What a block writes

A block adds its sections, its undo data, its boxes and their index entries, on its own or as a part of a
batch. Both read the boxes they spend and the index lists from the database they start from.
-/

namespace ErgoNode.Proof.Manager
open Lib StateManager Utxo
open UtxoState (getBox boxInContext)
open ErgoNode.Proof.History (addBlockToBatch_eq_ok appendFullBlock_eq_ok blockOps blockOps_column putBestBlock_column
  serializeTransactions_eq_ok)

variable {sr : SigmaRust}

/-! ### What a block writes -/

def touchesOf (skipIndexes : Bool) (change : StateChange) (removed : List BoxEntry) : List (Touch BoxId BoxEntry) :=
  if skipIndexes then [] else changeTouches change removed

/-- `after` has what the block adds to `before`, where the block removed the boxes `removed`, read the index
lists from `read` and came to the difficulty `sum`. -/
structure BlockWritten (sr : SigmaRust) (read : IndexKey → List BoxId) (skipIndexes : Bool)
    (item : FullBlock × StateChange) (sum : Nat) (removed : List BoxEntry) (before after : Columns) : Prop where
  boxes : boxes after = (boxes before).settle BoxEntry.boxId (stored sr) item.2.created item.2.spent
  undo : after.column .undoData = Function.update (before.column .undoData) item.1.height
    (some (undoOf sr item.2 item.1.height removed))
  cumulative : after.column .cumulativeDifficulty =
    Function.update (before.column .cumulativeDifficulty) item.1.id (some sum)
  index : indexOf after = (touchesOf skipIndexes item.2 removed).foldl (Touch.update (indexKeys sr) read) (indexOf before)

structure SectionsWritten (block : FullBlock) (sum : Nat) (before after : Columns) : Prop where
  boxes : boxes after = boxes before
  undo : after.column .undoData = before.column .undoData
  cumulative : after.column .cumulativeDifficulty =
    Function.update (before.column .cumulativeDifficulty) block.id (some sum)
  index : indexOf after = indexOf before

section Written
variable {item : FullBlock × StateChange} {block : FullBlock} {sum : Nat} {removed : List BoxEntry} {before columns : Columns}
variable {db : Database} {batch : WriteBatch}

theorem indexOf_congr {other : Columns}
    (same : ∀ kind, columns.column (.index kind) = other.column (.index kind)) : indexOf columns = indexOf other := by
  funext k
  rw [indexOf, indexOf, same]

theorem sectionsWritten {ops : WriteBatch} {headerBytes : Bytes} {txs : Bytes}
    (same : ∀ cf, .metadata ≠ cf → batchColumn cf ops = batchColumn cf (blockOps block headerBytes txs sum)) :
    SectionsWritten block sum columns (columns.write ops) where
  boxes := by
    rw [boxes, Store.column_write, same _ (by decide), blockOps_column (by decide), Store.write_nil]
  undo := by rw [Store.column_write, same _ (by decide), blockOps_column (by decide), Store.write_nil]
  cumulative := by
    have ops : batchColumn .cumulativeDifficulty (blockOps block headerBytes txs sum) = [⟨block.id, .put sum⟩] := by
      rw [blockOps, batchColumn_append]
      cases block.adProofs <;> simp [batchColumn_cons_of_ne]
    rw [Store.column_write, same _ (by decide), ops, Store.write_cons, Store.write_nil, Store.apply]
    rfl
  index := by
    refine indexOf_congr fun kind => ?_
    rw [Store.column_write, same _ (by simp), blockOps_column (by simp [History.sectionColumns]), Store.write_nil]

theorem index_pushedBatch (encodable : ∀ entry ∈ item.2.created, Encodable sr entry) (skipIndexes : Bool)
    (newHeight : Nat) :
    indexOf (db.columns.write (pushedBatch sr db skipIndexes batch item.2 newHeight removed)) =
      (touchesOf skipIndexes item.2 removed).foldl (Touch.update (indexKeys sr) (indexOf db.columns))
        (indexOf (db.columns.write batch)) := by
  cases skipIndexes with
  | false => exact (stage_pushedBatch encodable newHeight removed).index
  | true =>
      have spent (pairs : List (BoxId × BoxEntry)) (acc : WriteBatch × UndoData) (kind : IndexKind) :
          batchColumn (.index kind) (pairs.foldl (fun acc xy => UtxoState.spendEntry sr db true acc xy.1 xy.2) acc).1 =
            batchColumn (.index kind) acc.1 := by
        induction pairs generalizing acc with
        | nil => rfl
        | cons pair rest ih =>
            rw [List.foldl_cons, ih]
            simp [UtxoState.spendEntry]
      have created (pairs : List (BoxEntry × StoredBox)) (acc : WriteBatch × UndoData) (kind : IndexKind) :
          batchColumn (.index kind) (pairs.foldl (fun acc xy => UtxoState.createEntry sr db true acc xy.1 xy.2) acc).1 =
            batchColumn (.index kind) acc.1 := by
        induction pairs generalizing acc with
        | nil => rfl
        | cons pair rest ih =>
            rw [List.foldl_cons, ih]
            simp [UtxoState.createEntry]
      refine indexOf_of_column fun kind => ?_
      simp [pushedBatch, spent, created]

theorem blockWritten (sections : SectionsWritten item.1 sum before (db.columns.write batch))
    (encodable : ∀ entry ∈ item.2.created, Encodable sr entry) (matched : item.2.spent.length = removed.length)
    (skipIndexes : Bool) :
    BlockWritten sr (indexOf db.columns) skipIndexes item sum removed before
      (db.columns.write (pushedBatch sr db skipIndexes batch item.2 item.1.height removed)) where
  boxes := by
    rw [← sections.boxes, boxes, Store.column_write, pushedBatch_column (by simp [Unindexed]) matched,
      Store.write_append, ← Store.column_write]
    simp [changeOps, batchColumn_cons_of_ne, Store.settle, puts]
  undo := by
    rw [← sections.undo, Store.column_write, pushedBatch_column (by simp [Unindexed]) matched, Store.write_append,
      ← Store.column_write]
    simp [changeOps, batchColumn_cons_of_ne, Store.apply]
  cumulative := by
    rw [← sections.cumulative, Store.column_write, pushedBatch_column (by simp [Unindexed]) matched,
      Store.write_append, ← Store.column_write]
    simp [changeOps, batchColumn_cons_of_ne]
  index := by rw [index_pushedBatch encodable, sections.index]

end Written

/-! ### A block on its own -/

structure BlockAlone (sr : SigmaRust) (now : StateManager) (item : FullBlock × StateChange) (removed : List BoxEntry)
    (after : StateManager) : Prop where
  height : item.1.height = now.utxo.height + 1
  works : Database.writeFails now.db.faults = false
  encodes : BlockEncodes sr item.1
  found : List.Forall₂ (fun boxId entry => getBox sr now.db boxId = .ok (some entry)) item.2.spent removed
  created : ∀ entry ∈ item.2.created, Encodable sr entry
  saved : ∀ entry ∈ removed, Encodable sr entry
  written : BlockWritten sr (indexOf now.db.columns) now.utxo.syncMode item
    (History.parentCumulative now.db item.1.header + nbitsToDifficulty item.1.header.nBits) removed now.db.columns
    after.db.columns
  history : after.history = now.history.withBestBlock item.1.id item.1.height
    (History.parentCumulative now.db item.1.header + nbitsToDifficulty item.1.header.nBits)
  utxo : after.utxo = { now.utxo with height := item.1.height }

section Alone
variable {now after : StateManager} {item : FullBlock × StateChange} {removed : List BoxEntry}

theorem blockAlone {selection : ChainSelection}
    (done : (StateManager.applyBlock sr item.1 item.2).exec now = (.ok selection, after)) :
    ∃ removed, BlockAlone sr now item removed after := by
  obtain ⟨height, appended, applied, first, second, rfl⟩ := applyBlock_parts done
  obtain ⟨encodes, works, -, sameBoxes⟩ := appendFullBlock_committed first
  obtain ⟨_, sum, built, wrote, history⟩ := appendFullBlock_eq_ok first
  obtain ⟨headerBytes, txs, -, -, rfl, rfl⟩ := addBlockToBatch_eq_ok.mp built
  obtain ⟨batch, pushed, written, utxo⟩ := applyChange_built second
  obtain ⟨removed, found, created, saved, rfl⟩ := changeToBatch_eq_ok_iff.mp pushed
  have sections : SectionsWritten item.1 (History.parentCumulative now.db item.1.header +
      nbitsToDifficulty item.1.header.nBits) now.db.columns (appended.db.columns.write []) := by
    rw [Store.write_nil, wrote]
    exact sectionsWritten fun cf other => putBestBlock_column other _ _ _ _ _
  have same : indexOf appended.db.columns = indexOf now.db.columns := sections.index
  refine ⟨removed, height, works, encodes, ?_, created, saved, ?_, history, utxo⟩
  · rwa [getBox_congr sameBoxes] at found
  · rw [← same, written]
    exact blockWritten sections created found.length_eq now.utxo.syncMode

end Alone

/-! ### A block of a batch -/

structure BlockInBatch (sr : SigmaRust) (st : StateManager) (acc : BlockBatch) (item : FullBlock × StateChange)
    (removed : List BoxEntry) (next : BlockBatch) : Prop where
  found : List.Forall₂ (fun boxId entry => boxInContext sr st.db item.2 acc.batchCreatedBoxes boxId = .ok (some entry))
    item.2.spent removed
  saved : ∀ entry ∈ removed, Encodable sr entry
  total : next.cumulativeDifficulty = acc.cumulativeDifficulty + nbitsToDifficulty item.1.header.nBits
  context : next.batchCreatedBoxes = acc.batchCreatedBoxes.afterBlock item.2
  written : BlockWritten sr (indexOf st.db.columns) st.utxo.syncMode item next.cumulativeDifficulty removed
    (st.db.columns.write acc.batch) (st.db.columns.write next.batch)

section InBatch
variable {st : StateManager} {acc next : BlockBatch} {item : FullBlock × StateChange} {removed : List BoxEntry}

theorem sectionsWritten_batch (headerBytes : Bytes) (txs : Bytes) (sum : Nat) :
    SectionsWritten item.1 sum (st.db.columns.write acc.batch)
      (st.db.columns.write (acc.batch ++ blockOps item.1 headerBytes txs sum)) := by
  rw [Store.write_append]
  exact sectionsWritten fun _ _ => rfl

theorem blockInBatch (turn : addToBatch sr st acc item = .ok next) :
    ∃ removed, BlockInBatch sr st acc item removed next := by
  simp only [addToBatch, Except.bind_ok_eq_ok, Except.pure_eq_ok] at turn
  obtain ⟨⟨batch, sum⟩, sections, pushed, changed, rfl⟩ := turn
  obtain ⟨headerBytes, txs, -, -, rfl, rfl⟩ := addBlockToBatch_eq_ok.mp sections
  obtain ⟨removed, found, created, saved, rfl⟩ := changeToBatch_eq_ok_iff.mp changed
  exact ⟨removed, found, saved, rfl, rfl,
    blockWritten (sectionsWritten_batch headerBytes txs _) created found.length_eq st.utxo.syncMode⟩

theorem addToBatch_total (encodes : BlockEncodes sr item.1) (created : ∀ entry ∈ item.2.created, Encodable sr entry)
    (saved : ∀ entry ∈ removed, Encodable sr entry)
    (found : List.Forall₂ (fun boxId entry =>
      boxInContext sr st.db item.2 acc.batchCreatedBoxes boxId = .ok (some entry)) item.2.spent removed) :
    ∃ next, addToBatch sr st acc item = .ok next := by
  obtain ⟨⟨headerBytes, encoded⟩, txs⟩ := encodes
  obtain ⟨_, each⟩ := exists_forall₂.mpr txs
  obtain ⟨txBytes, serialized⟩ : ∃ txBytes, BlockStore.serializeTransactions sr item.1.transactions = .ok txBytes :=
    ⟨_, serializeTransactions_eq_ok.mpr ⟨_, each, rfl⟩⟩
  let sum := acc.cumulativeDifficulty + nbitsToDifficulty item.1.header.nBits
  let sections := acc.batch ++ blockOps item.1 headerBytes txBytes sum
  let batch := pushedBatch sr st.db st.utxo.syncMode sections item.2 item.1.height removed
  have stored : History.addBlockToBatch sr acc.batch item.1 acc.cumulativeDifficulty = .ok (sections, sum) :=
    addBlockToBatch_eq_ok.mpr ⟨headerBytes, txBytes, encoded, serialized, rfl, rfl⟩
  have pushed : UtxoState.addChangeToBatchWithContext sr st.utxoView sections item.2 item.1.height
      acc.batchCreatedBoxes = .ok batch := changeToBatch_eq_ok_iff.mpr ⟨removed, found, created, saved, rfl⟩
  refine ⟨⟨batch, sum, acc.batchCreatedBoxes.afterBlock item.2⟩, ?_⟩
  simp only [addToBatch, Except.bind_ok_eq_ok, Except.pure_eq_ok]
  exact ⟨(sections, sum), stored, batch, pushed, rfl⟩

end InBatch

end ErgoNode.Proof.Manager
