import ErgoNode.Proof.Manager.Progress

/-!
# Blocks one by one and blocks together

Where each block of a batch sees what it would see on its own, the batch and the blocks one by one end alike.
-/

namespace ErgoNode.Proof.Manager
open Lib StateManager Utxo
open UtxoState (getIndexEntries)
open ErgoNode.Proof.History (putBestBlock_column bestHeader fullBlock)

variable {sr : SigmaRust}

structure SameState (sr : SigmaRust) (single batched : StateManager) : Prop where
  unspent : unspent sr batched.db = unspent sr single.db
  undoData : batched.db.columns.column .undoData = single.db.columns.column .undoData
  indexes : ∀ kind key boxId,
    boxId ∈ getIndexEntries batched.db kind key ↔ boxId ∈ getIndexEntries single.db kind key
  cumulative : batched.db.columns.column .cumulativeDifficulty = single.db.columns.column .cumulativeDifficulty
  utxo : batched.utxo.height = single.utxo.height
  history : batched.history = single.history

/-- The batch goes through and leaves what the blocks leave one by one. -/
def EndsAlike (sr : SigmaRust) (st : StateManager) (blocks : List (FullBlock × StateChange)) (single : StateManager) :
    Prop :=
  ∃ selection batched, (applyBlocksBatched sr blocks).exec st = (.ok selection, batched) ∧ SameState sr single batched

/-- Where the last one offered is better than the best so far, it is better than the others too. -/
def LastBeats (best : Option BlockId × Nat × Nat) (offered : List (Option BlockId × Nat × Nat)) : Prop :=
  ∀ last ∈ offered.getLast?, best.2.2 < last.2.2 → ∀ a ∈ offered.dropLast, a.2.2 < last.2.2

instance (best : Option BlockId × Nat × Nat) (offered : List (Option BlockId × Nat × Nat)) :
    Decidable (LastBeats best offered) :=
  inferInstanceAs (Decidable (∀ last ∈ offered.getLast?, _))

/-- Each created box is listed under its keys before its block where it was before the batch. -/
def EntersAlike (sr : SigmaRust) (st : StateManager) (blocks : List (FullBlock × StateChange)) : Prop :=
  ∀ reading ∈ readings sr st blocks,
    reading.2.written (indexKeys sr) reading.1 = reading.2.written (indexKeys sr) (indexOf st.db.columns)

instance (sr : SigmaRust) (st : StateManager) (blocks : List (FullBlock × StateChange)) :
    Decidable (EntersAlike sr st blocks) :=
  inferInstanceAs (Decidable (∀ reading ∈ readings sr st blocks, _))

/-- The blocks of the batch see what they would see one by one, or what they see does not matter in the end. -/
structure SeesAlike (sr : SigmaRust) (st : StateManager) (blocks : List (FullBlock × StateChange)) : Prop where
  enters : EntersAlike sr st blocks
  sees : Along (applyNext sr) (Sees sr st) (Progress.start st blocks) blocks
  settled : Touch.Settled (indexKeys sr) (indexOf st.db.columns) (readings sr st blocks)
  last : LastBeats (bestHeader st.history) (sums (Progress.start st blocks).total blocks)

section Ends
variable {st single : StateManager} {now next final : Progress} {acc acc' : BlockBatch}
variable {item first last : FullBlock × StateChange} {front blocks rest : List (FullBlock × StateChange)}

theorem applyBlocksBatched_total (works : Database.writeFails st.db.faults = false)
    (heights : (first :: rest).map (·.1.height) = List.range' (st.utxo.height + 1) (rest.length + 1))
    (joined : (first :: rest).foldlM (addToBatch sr st)
      ⟨[], History.parentCumulative st.db first.1.header, BoxMap.empty⟩ = .ok acc) :
    ∃ selection after, (applyBlocksBatched sr (first :: rest)).exec st = (.ok selection, after) := by
  have checked : checkHeights st.utxo.height first.1 (first.1 :: rest.map Prod.fst) = .ok () := by
    rw [checkHeights_eq_ok, List.length_map, ← heights]
    simp [List.map_map, Function.comp_def]
  have wrote (batch : WriteBatch) : (Database.writeBatch batch).exec st.db = (.ok (), _) :=
    Database.writeBatch_eq_ok_iff.mpr ⟨works, rfl⟩
  simp only [applyBlocksBatched, Op.exec_bind, Op.exec_get, Op.exec_ofExcept, List.map_cons, checked, joined,
    onHistory, onUtxo, Op.exec_zoom, History.executeBatch, OnDatabase.writeBatch, historyView, wrote,
    History.updateInMemoryState, UtxoState.updateHeightInMemory, Op.exec_modify, Op.exec_pure]
  exact ⟨_, _, rfl⟩

/-- A batch that matches the one-by-one run ends as it does, where its last block decides and the index lists agree. -/
theorem sameState (matching : Matches st final acc)
    (indexes : ∀ k i, i ∈ indexOf final.manager.db.columns k ↔ i ∈ indexOf (st.db.columns.write acc.batch) k)
    {after : StateManager} (applied : BlocksApplied sr st blocks last.1 acc after)
    (utxo : final.manager.utxo.height = last.1.height)
    (history : final.manager.history = st.history.withBestBlock last.1.id last.1.height acc.cumulativeDifficulty) :
    SameState sr final.manager after where
  unspent := by
    have same : boxes after.db.columns = boxes final.manager.db.columns := by
      rw [matching.boxes, applied.columns, boxes, Store.column_write, putBestBlock_column (by decide),
        ← Store.column_write]
    unfold unspent
    rw [getBox_congr same]
  undoData := by
    rw [matching.undo, applied.columns, Store.column_write, putBestBlock_column (by decide), ← Store.column_write]
  indexes := by
    have same : indexOf after.db.columns = indexOf (st.db.columns.write acc.batch) := by
      rw [applied.columns]
      refine indexOf_congr fun kind => ?_
      rw [Store.column_write, putBestBlock_column (by simp), ← Store.column_write]
    intro kind key boxId
    exact (congrFun same (kind, key) ▸ (indexes (kind, key) boxId).symm :)
  cumulative := by
    rw [matching.cumulative, applied.columns, Store.column_write, putBestBlock_column (by decide), ← Store.column_write]
  utxo := by rw [applied.utxo, utxo]
  history := by rw [applied.history, history]

theorem lt_last_height {start length : Nat} (heights : (front ++ [last]).map (·.1.height) = List.range' start length) :
    ∀ item ∈ front, item.1.height < last.1.height := by
  have sorted : ((front ++ [last]).map (·.1.height)).Pairwise (· < ·) := heights ▸ List.pairwise_lt_range'
  rw [List.map_append, List.pairwise_append] at sorted
  intro item member
  exact sorted.2.2 _ (List.mem_map_of_mem member) _ (List.mem_singleton.mpr rfl)

theorem sums_concat (total : Nat) (front : List (FullBlock × StateChange)) (last : FullBlock × StateChange) :
    sums total (front ++ [last]) =
      sums total front ++ [(some last.1.id, last.1.height, sumTo total (front ++ [last]))] := by
  rw [sums_append, sumTo, sumTo, List.foldl_append]
  rfl

theorem sumTo_le (total : Nat) (front : List (FullBlock × StateChange)) (last : FullBlock × StateChange) :
    sumTo total front ≤ sumTo total (front ++ [last]) := by
  rw [sumTo, sumTo, List.foldl_append]
  exact Nat.le_add_right _ _

theorem fullBlock_last (split : blocks = front ++ [last]) (ran : run (applyNext sr) now blocks = some final) :
    fullBlock final.manager.history =
      better (fun offered => offered.2) (fullBlock now.manager.history) (some last.1.id, last.1.height) := by
  subst split
  have lower : ∀ offered ∈ front.map fun item => (some item.1.id, item.1.height), offered.2 < last.1.height := by
    intro offered member
    obtain ⟨item, inFront, rfl⟩ := List.mem_map.mp member
    exact lt_last_height (utxo_run ran).1 item inFront
  have other : (some last.1.id, last.1.height) ∉ front.map fun item => (some item.1.id, item.1.height) :=
    fun member => absurd (lower _ member) (lt_irrefl _)
  rw [fullBlock_run ran, List.map_append]
  exact (foldl_better_concat_iff_of_le other fun offered member => (lower offered member).le).mpr fun _ => lower

theorem bestHeader_last_iff (split : blocks = front ++ [last]) (sees : Along (applyNext sr) (Sees sr st) now blocks)
    (ran : run (applyNext sr) now blocks = some final) :
    bestHeader final.manager.history = better (fun offered => offered.2.2) (bestHeader now.manager.history)
        (some last.1.id, last.1.height, final.total) ↔
      LastBeats (bestHeader now.manager.history) (sums now.total blocks) := by
  subst split
  have heights := (utxo_run ran).1
  have other : (some last.1.id, last.1.height, sumTo now.total (front ++ [last])) ∉ sums now.total front := by
    intro member
    obtain ⟨item, inFront, same⟩ := List.mem_map.mp (mem_sums member).1
    exact absurd same (lt_last_height heights item inFront).ne
  rw [bestHeader_run sees ran, total_run ran, LastBeats, sums_concat, List.getLast?_concat, List.dropLast_concat]
  simp only [Option.mem_def, Option.some.injEq, forall_eq']
  exact foldl_better_concat_iff_of_le other fun offered member =>
    (mem_sums member).2.trans (sumTo_le _ front last)

theorem height_last (split : blocks = front ++ [last]) (ran : run (applyNext sr) now blocks = some final) :
    final.manager.utxo.height = last.1.height := by
  subst split
  rw [run_append, Option.bind_eq_some_iff] at ran
  obtain ⟨middle, -, ran⟩ := ran
  obtain ⟨next, _, alone, same⟩ := blockAlone_of_run ran
  cases same
  rw [alone.utxo]

theorem getLast_split (first : FullBlock × StateChange) (rest : List (FullBlock × StateChange)) :
    ∃ front, first :: rest = front ++ [rest.getLastD first] := by
  refine ⟨(first :: rest).dropLast, ?_⟩
  rw [← List.getLast_eq_getLastD (by simp), List.dropLast_concat_getLast]

theorem works_of_run (ran : run (applyNext sr) now (first :: rest) = some final) :
    Database.writeFails now.manager.db.faults = false := by
  obtain ⟨_, _, alone, -⟩ := blockAlone_of_run ran
  exact alone.works

theorem run_start (singly : (applySingly sr blocks).exec st = (.ok (), single)) :
    ∃ final, run (applyNext sr) (Progress.start st blocks) blocks = some final ∧ final.manager = single :=
  run_of_applySingly singly

theorem endsAlike_of_seesAlike (singly : (applySingly sr blocks).exec st = (.ok (), single))
    (alike : SeesAlike sr st blocks) : EndsAlike sr st blocks single := by
  obtain ⟨final, ran, rfl⟩ := run_start singly
  cases blocks with
  | nil =>
      cases ran
      exact ⟨.ignored, st, rfl, rfl, rfl, fun _ _ _ => Iff.rfl, rfl, rfl, rfl⟩
  | cons first rest =>
      obtain ⟨acc, joined, matching⟩ := (matches_start st (first :: rest)).run alike.sees ran
      obtain ⟨selection, after, done⟩ := applyBlocksBatched_total (works_of_run ran) (utxo_run ran).1 joined
      obtain ⟨acc', joined', applied⟩ := applyBlocksBatched_eq_ok done
      cases joined.symm.trans joined'
      obtain ⟨front, split⟩ := getLast_split first rest
      refine ⟨selection, after, done, sameState matching ?_ applied (height_last split ran) ?_⟩
      · intro k i
        rw [index_run ran, index_batch alike.sees ran rfl rfl joined]
        exact alike.settled.same alike.enters (.inl fun _ => Iff.rfl) i
      · refine history_ext ?_ ?_
        · rw [bestHeader_better, matching.total]
          exact (bestHeader_last_iff split alike.sees ran).mpr alike.last
        · rw [fullBlock_better]
          exact fullBlock_last split ran

/-! ### What a batch that ends alike has seen -/

structure Untouched (blocks : List (FullBlock × StateChange)) (before after : Columns) : Prop where
  undo : ∀ height ∉ blocks.map (·.1.height), after.column .undoData height = before.column .undoData height
  cumulative : ∀ id ∉ blocks.map (·.1.id),
    after.column .cumulativeDifficulty id = before.column .cumulativeDifficulty id

theorem BlockWritten.untouched {read : IndexKey → List BoxId} {skipIndexes : Bool} {sum : Nat} {removed : List BoxEntry}
    {before middle after : Columns} (written : BlockWritten sr read skipIndexes item sum removed before middle)
    (later : Untouched rest middle after) : Untouched (item :: rest) before after where
  undo height other := by
    rw [List.map_cons, List.mem_cons, not_or] at other
    rw [later.undo height other.2, written.undo, Function.update_of_ne other.1]
  cumulative id other := by
    rw [List.map_cons, List.mem_cons, not_or] at other
    rw [later.cumulative id other.2, written.cumulative, Function.update_of_ne other.1]

theorem untouched_run (ran : run (applyNext sr) now blocks = some final) :
    Untouched blocks now.manager.db.columns final.manager.db.columns := by
  induction blocks generalizing now with
  | nil =>
      cases ran
      exact ⟨fun _ _ => rfl, fun _ _ => rfl⟩
  | cons item rest ih =>
      obtain ⟨middle, removed, alone, ran⟩ := blockAlone_of_run ran
      exact alone.written.untouched (ih ran)

theorem untouched_batch (joined : blocks.foldlM (addToBatch sr st) acc = .ok acc') :
    Untouched blocks (st.db.columns.write acc.batch) (st.db.columns.write acc'.batch) := by
  induction blocks generalizing acc with
  | nil =>
      cases joined
      exact ⟨fun _ _ => rfl, fun _ _ => rfl⟩
  | cons item rest ih =>
      rw [List.foldlM_cons, Except.bind_ok_eq_ok] at joined
      obtain ⟨middle, turn, joined⟩ := joined
      obtain ⟨removed, batched⟩ := blockInBatch turn
      exact batched.written.untouched (ih joined)

theorem map_stored_injective {removed others : List BoxEntry} (saved : ∀ entry ∈ removed, Encodable sr entry)
    (othersSaved : ∀ entry ∈ others, Encodable sr entry) (same : removed.map (stored sr) = others.map (stored sr)) :
    removed = others := by
  have decoded := mapM_deserialize_stored saved
  rw [same, mapM_deserialize_stored othersSaved] at decoded
  exact (Except.ok.inj decoded).symm

theorem lookups_agree {α β ε : Type} {f g : α → Except ε (Option β)} {xs : List α} {ys : List β}
    (first : List.Forall₂ (fun x y => f x = .ok (some y)) xs ys)
    (second : List.Forall₂ (fun x y => g x = .ok (some y)) xs ys) : ∀ x ∈ xs, f x = g x := by
  induction first with
  | nil => simp
  | cons head _ ih =>
      cases second with
      | cons same tail =>
          rw [List.forall_mem_cons]
          exact ⟨head.trans same.symm, ih tail⟩

/-- The undo record of a block tells which boxes it found, and its difficulty tells what its parent had. -/
theorem sees_of_same (heights : (blocks.map (·.1.height)).Nodup) (distinct : (blocks.map (·.1.id)).Nodup)
    (ran : run (applyNext sr) now blocks = some final) (joined : blocks.foldlM (addToBatch sr st) acc = .ok acc')
    (context : acc.batchCreatedBoxes = now.context) (total : acc.cumulativeDifficulty = now.total)
    (undo : final.manager.db.columns.column .undoData = (st.db.columns.write acc'.batch).column .undoData)
    (cumulative : final.manager.db.columns.column .cumulativeDifficulty =
      (st.db.columns.write acc'.batch).column .cumulativeDifficulty) :
    Along (applyNext sr) (Sees sr st) now blocks := by
  induction blocks generalizing now acc with
  | nil => exact along_nil
  | cons item rest ih =>
      rw [run_cons_eq_some] at ran
      rw [List.foldlM_cons, Except.bind_ok_eq_ok] at joined
      rw [List.map_cons, List.nodup_cons] at heights distinct
      obtain ⟨next, taken, ran⟩ := ran
      obtain ⟨accNext, turn, joined⟩ := joined
      obtain ⟨⟨removed, alone⟩, -, contextNext, totalNext⟩ := applyNext_eq_some taken
      obtain ⟨others, batched⟩ := blockInBatch turn
      have singleLater := untouched_run ran
      have batchLater := untouched_batch joined
      have record := congrFun undo item.1.height
      rw [singleLater.undo _ heights.1, batchLater.undo _ heights.1, alone.written.undo, batched.written.undo,
        Function.update_self, Function.update_self, Option.some.injEq, undoOf, undoOf, StoredUndo.mk.injEq] at record
      cases map_stored_injective alone.saved batched.saved record.2.1
      have sum := congrFun cumulative item.1.id
      rw [singleLater.cumulative _ distinct.1, batchLater.cumulative _ distinct.1, alone.written.cumulative,
        batched.written.cumulative, Function.update_self, Function.update_self, Option.some.injEq, batched.total,
        total, Nat.add_right_cancel_iff] at sum
      refine along_cons.mpr ⟨⟨?_, sum⟩, fun t step => ?_⟩
      · have found := batched.found
        rw [context] at found
        exact lookups_agree found alone.found
      · rw [taken] at step
        cases step
        refine ih heights.2 distinct.2 ran joined ?_ ?_
        · rw [batched.context, contextNext, context]
        · rw [batched.total, totalNext, total]

theorem seesAlike_of_endsAlike (singly : (applySingly sr blocks).exec st = (.ok (), single))
    (enters : EntersAlike sr st blocks) (distinct : (blocks.map (·.1.id)).Nodup)
    (alike : EndsAlike sr st blocks single) : SeesAlike sr st blocks := by
  obtain ⟨final, ran, rfl⟩ := run_start singly
  obtain ⟨selection, after, done, same⟩ := alike
  cases blocks with
  | nil => exact ⟨enters, along_nil, trivial, fun last member => by cases member⟩
  | cons first rest =>
      obtain ⟨acc, joined, applied⟩ := applyBlocksBatched_eq_ok done
      have heights : ((first :: rest).map (·.1.height)).Nodup := (utxo_run ran).1 ▸ List.nodup_range'
      obtain ⟨front, split⟩ := getLast_split first rest
      have column {cf : ColumnFamily} (other : .metadata ≠ cf) :
          after.db.columns.column cf = (st.db.columns.write acc.batch).column cf := by
        rw [applied.columns, Store.column_write, putBestBlock_column other, ← Store.column_write]
      have sees := sees_of_same heights distinct ran joined rfl rfl
        (by rw [← same.undoData, column (by decide)]) (by rw [← same.cumulative, column (by decide)])
      obtain ⟨acc', joined', matching⟩ := (matches_start st (first :: rest)).run sees ran
      cases joined.symm.trans joined'
      have lists : indexOf after.db.columns = indexOf (st.db.columns.write acc.batch) :=
        indexOf_congr fun kind => column (by simp)
      refine ⟨enters, sees, @Touch.settled_of_same _ _ _ _ _ _ _ (indexOf st.db.columns) (indexOf st.db.columns) _ enters ?_, ?_⟩
      · intro k i
        have single : indexOf final.manager.db.columns k = _ := congrFun (index_run ran) k
        have batch : indexOf after.db.columns k = _ :=
          (congrFun lists k).trans (congrFun (index_batch sees ran rfl rfl joined) k)
        have listed : i ∈ indexOf final.manager.db.columns k ↔ i ∈ indexOf after.db.columns k :=
          (same.indexes k.1 k.2 i).symm
        rw [single, batch] at listed
        exact listed
      · have best := congrArg bestHeader same.history
        rw [applied.history, bestHeader_better, matching.total] at best
        exact (bestHeader_last_iff split sees ran).mp best.symm

/-- Where blocks go through one by one, a batch of them ends alike if its blocks see alike. For blocks with
distinct ids that create boxes new to the indexes, only if. -/
theorem endsAlike_iff_seesAlike (sr : SigmaRust) {st single : StateManager} {blocks : List (FullBlock × StateChange)}
    (singly : (applySingly sr blocks).exec st = (.ok (), single)) :
    (SeesAlike sr st blocks → EndsAlike sr st blocks single) ∧
      ((blocks.map (·.1.id)).Nodup → EntersAlike sr st blocks → EndsAlike sr st blocks single →
        SeesAlike sr st blocks) := by
  constructor
  · exact endsAlike_of_seesAlike singly
  · intro distinct enters alike
    exact seesAlike_of_endsAlike singly enters distinct alike

end Ends

section Samples
open Sample

def emptyManager : StateManager := .new Database.empty

def afterFirstBlock : StateManager :=
  ((StateManager.applyBlock chainCodec (sampleBlock header11) emptyChange).exec emptyManager).2

def createAndSpend : List (FullBlock × StateChange) :=
  [(sampleBlock header12, ⟨[sampleEntry 1 2], []⟩), (sampleBlock header13, ⟨[], [.filled 1]⟩)]

theorem createAndSpend_endsAlike : EndsAlike chainCodec afterFirstBlock createAndSpend
    ((applySingly chainCodec createAndSpend).exec afterFirstBlock).2 :=
  (endsAlike_iff_seesAlike chainCodec rfl).1 ⟨by decide, by decide, by decide, by decide⟩

def firstTwo : List (FullBlock × StateChange) :=
  [(sampleBlock header11, emptyChange), (sampleBlock header12, emptyChange)]

theorem firstTwo_differ : ∃ single, (applySingly chainCodec firstTwo).exec emptyManager = (.ok (), single) ∧
    ¬ EndsAlike chainCodec emptyManager firstTwo single := by
  refine ⟨_, rfl, ?_⟩
  rintro ⟨selection, batched, done, same⟩
  have cumulative := congrFun same.cumulative header12.id
  cases done
  exact absurd cumulative (by decide)

end Samples
end ErgoNode.Proof.Manager
