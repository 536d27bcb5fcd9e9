import ErgoNode.State.Utxo

/-!
# What the batch of a change does

`changeToBatch` and `undoToBatch` column by column: the indexes apart, a change removes its spent
boxes, adds its created ones and leaves one undo record.
-/

namespace ErgoNode.Proof.Utxo
open Lib UtxoState

variable (sr : SigmaRust)

/-! ### Entries and their stored form -/

def stored (entry : BoxEntry) : StoredBox :=
  ⟨entry.creationHeight, entry.txId, entry.outputIndex, (sr.boxBytes entry.ergoBox).toOption.getD []⟩

def Encodable (entry : BoxEntry) : Prop := ∃ bytes, sr.boxBytes entry.ergoBox = .ok bytes

instance (entry : BoxEntry) : Decidable (Encodable sr entry) :=
  inferInstanceAs (Decidable (∃ bytes, sr.boxBytes entry.ergoBox = .ok bytes))

variable {sr} {entry : BoxEntry}

theorem serialize_eq_ok {box : StoredBox} :
    entry.serialize sr = .ok box ↔ Encodable sr entry ∧ box = stored sr entry := by
  simp only [BoxEntry.serialize, Except.bind_ok_eq_ok, Except.mapError_ok_iff, Except.pure_eq_ok,
    Encodable, stored]
  constructor
  · rintro ⟨bytes, encoded, rfl⟩
    exact ⟨⟨bytes, encoded⟩, by simp [encoded, Except.toOption]⟩
  · rintro ⟨⟨bytes, encoded⟩, rfl⟩
    exact ⟨bytes, encoded, by simp [encoded, Except.toOption]⟩

theorem deserialize_stored (encodable : Encodable sr entry) :
    BoxEntry.deserialize sr (stored sr entry) = .ok entry := by
  obtain ⟨bytes, encoded⟩ := encodable
  have parsed := sr.parse_boxBytes encoded
  simp [BoxEntry.deserialize, stored, encoded, Except.toOption, parsed, Except.mapError]

theorem stored_injective {other : BoxEntry} (encodable : Encodable sr entry)
    (otherEncodable : Encodable sr other) (same : stored sr entry = stored sr other) :
    entry = other := by
  have decoded := deserialize_stored encodable
  rw [same, deserialize_stored otherEncodable] at decoded
  exact (Except.ok.inj decoded).symm

theorem mapM_serialize_eq_ok {entries : List BoxEntry} {boxes : List StoredBox} :
    entries.mapM (BoxEntry.serialize sr) = .ok boxes ↔
      (∀ entry ∈ entries, Encodable sr entry) ∧ boxes = entries.map (stored sr) := by
  simp only [mapM_eq_ok, serialize_eq_ok]
  induction entries generalizing boxes with
  | nil => simp [List.forall₂_nil_left_iff]
  | cons entry entries ih =>
      simp only [List.forall₂_cons_left_iff, ih, List.forall_mem_cons, List.map_cons]
      constructor
      · rintro ⟨_, _, ⟨head, rfl⟩, ⟨tail, rfl⟩, rfl⟩
        exact ⟨⟨head, tail⟩, rfl⟩
      · rintro ⟨⟨head, tail⟩, rfl⟩
        exact ⟨_, _, ⟨head, rfl⟩, ⟨tail, rfl⟩, rfl⟩

theorem mapM_deserialize_stored {entries : List BoxEntry}
    (encodable : ∀ entry ∈ entries, Encodable sr entry) :
    (entries.map (stored sr)).mapM (BoxEntry.deserialize sr) = .ok entries := by
  rw [mapM_eq_ok, List.forall₂_map_left_iff, List.forall₂_same]
  exact fun entry member => deserialize_stored (encodable entry member)

variable (sr)

abbrev BoxStore := Store fun _ : BoxId => StoredBox

abbrev boxes (columns : Columns) : BoxStore := columns.column .utxo

/-- Every stored box is the stored form of an entry with that id. -/
def Sound (store : BoxStore) : Prop :=
  ∀ ⦃boxId box⦄, store boxId = some box →
    ∃ entry, entry.boxId = boxId ∧ Encodable sr entry ∧ box = stored sr entry

def SoundMap (map : BoxMap) : Prop :=
  ∀ ⦃boxId entry⦄, map boxId = some entry → entry.boxId = boxId ∧ Encodable sr entry

variable {sr} {db : Database} {boxId : BoxId}

theorem getBox_of_stored (encodable : Encodable sr entry)
    (found : boxes db.columns boxId = some (stored sr entry)) :
    getBox sr db boxId = .ok (some entry) := by
  have get : db.get .utxo boxId = some (stored sr entry) := found
  simp only [getBox, get, deserialize_stored encodable]
  rfl

theorem getBox_of_none (missing : boxes db.columns boxId = none) : getBox sr db boxId = .ok none := by
  have get : db.get .utxo boxId = none := missing
  simp only [getBox, get]
  rfl

theorem getBox_total (boxId : BoxId) (sound : Sound sr (boxes db.columns)) :
    ∃ found, getBox sr db boxId = .ok found := by
  rcases present : boxes db.columns boxId with _ | box
  · exact ⟨none, getBox_of_none present⟩
  · obtain ⟨entry, -, encodable, rfl⟩ := sound present
    exact ⟨some entry, getBox_of_stored encodable present⟩

/-- Over a sound database, the boxes found are the stored ones. -/
theorem getBox_eq_some (sound : Sound sr (boxes db.columns))
    (found : getBox sr db boxId = .ok (some entry)) :
    entry.boxId = boxId ∧ Encodable sr entry ∧ boxes db.columns boxId = some (stored sr entry) := by
  rcases present : boxes db.columns boxId with _ | box
  · rw [getBox_of_none present] at found
    cases found
  · obtain ⟨other, same, encodable, rfl⟩ := sound present
    rw [getBox_of_stored encodable present] at found
    cases found
    exact ⟨same, encodable, rfl⟩

/-! ### Index updates -/

def Unindexed (cf : ColumnFamily) : Prop := ∀ kind, cf ≠ .index kind

theorem updateIndexes_column {cf : ColumnFamily}
    {update : IndexKind → Digest32 → WriteBatch → WriteBatch}
    (same : ∀ kind key batch, batchColumn cf (update kind key batch) = batchColumn cf batch)
    (ergoBox : ErgoBox) (batch : WriteBatch) :
    batchColumn cf (updateIndexes sr update ergoBox batch) = batchColumn cf batch := by
  have tokens : ∀ (list : List Token) (b : WriteBatch),
      batchColumn cf (list.foldl (fun batch token => update .token token.tokenId batch) b) =
        batchColumn cf b := by
    intro list
    induction list with
    | nil => exact fun _ => rfl
    | cons token list ih => exact fun b => (ih _).trans (same _ _ _)
  rw [updateIndexes, tokens, same]

theorem addToIndexes_column {cf : ColumnFamily} (unindexed : Unindexed cf) (db : Database)
    (ergoBox : ErgoBox) (boxId : BoxId) (batch : WriteBatch) :
    batchColumn cf (addToIndexes sr db ergoBox boxId batch) = batchColumn cf batch := by
  apply updateIndexes_column
  intro kind key b
  dsimp only [addToIndex]
  split
  · rfl
  · exact WriteBatch.column_put_of_ne _ _ (Ne.symm (unindexed kind))

theorem removeFromIndexes_column {cf : ColumnFamily} (unindexed : Unindexed cf) (db : Database)
    (ergoBox : ErgoBox) (boxId : BoxId) (batch : WriteBatch) :
    batchColumn cf (removeFromIndexes sr db ergoBox boxId batch) = batchColumn cf batch := by
  apply updateIndexes_column
  intro kind key b
  dsimp only [removeFromIndex]
  split
  · exact WriteBatch.column_delete_of_ne _ (Ne.symm (unindexed kind))
  · exact WriteBatch.column_put_of_ne _ _ (Ne.symm (unindexed kind))

/-! ### The two loops of a change -/

section Loops
variable {skipIndexes : Bool} (acc : WriteBatch × UndoData)

theorem spend_undo (pairs : List (BoxId × BoxEntry)) :
    (pairs.foldl (fun acc xy => spendEntry sr db skipIndexes acc xy.1 xy.2) acc).2 =
      { acc.2 with spentBoxes := acc.2.spentBoxes ++ pairs.map Prod.snd } := by
  induction pairs generalizing acc with
  | nil => simp
  | cons pair pairs ih => rw [List.foldl_cons, ih]; simp [spendEntry]

theorem spend_column {cf : ColumnFamily} (unindexed : Unindexed cf)
    (pairs : List (BoxId × BoxEntry)) :
    batchColumn cf (pairs.foldl (fun acc xy => spendEntry sr db skipIndexes acc xy.1 xy.2) acc).1 =
      batchColumn cf acc.1 ++
        batchColumn cf ((pairs.map Prod.fst).map fun boxId => ⟨⟨.utxo, boxId⟩, .delete⟩) := by
  induction pairs generalizing acc with
  | nil => simp
  | cons pair pairs ih =>
      have step : batchColumn cf (spendEntry sr db skipIndexes acc pair.1 pair.2).1 =
          batchColumn cf (WriteBatch.delete acc.1 .utxo pair.1) := by
        simp only [spendEntry]
        split
        · rfl
        · rw [WriteBatch.delete, WriteBatch.delete, batchColumn_append, batchColumn_append,
            removeFromIndexes_column unindexed]
      rw [List.foldl_cons, ih, step, WriteBatch.delete, ← batchColumn_append, List.append_assoc,
        ← batchColumn_append]
      rfl

theorem create_undo (entries : List BoxEntry) :
    ((entries.zip (entries.map (stored sr))).foldl
      (fun acc xy => createEntry sr db skipIndexes acc xy.1 xy.2) acc).2 =
      { acc.2 with createdBoxIds := acc.2.createdBoxIds ++ entries.map BoxEntry.boxId } := by
  induction entries generalizing acc with
  | nil => simp
  | cons entry entries ih =>
      rw [List.map_cons, List.zip_cons_cons, List.foldl_cons, ih]
      simp [createEntry]

theorem create_column {cf : ColumnFamily} (unindexed : Unindexed cf) (entries : List BoxEntry) :
    batchColumn cf ((entries.zip (entries.map (stored sr))).foldl
      (fun acc xy => createEntry sr db skipIndexes acc xy.1 xy.2) acc).1 =
      batchColumn cf acc.1 ++
        batchColumn cf (entries.map fun entry => ⟨⟨.utxo, entry.boxId⟩, .put (stored sr entry)⟩) := by
  induction entries generalizing acc with
  | nil => simp
  | cons entry entries ih =>
      have step : batchColumn cf (createEntry sr db skipIndexes acc entry (stored sr entry)).1 =
          batchColumn cf (WriteBatch.put acc.1 .utxo entry.boxId (stored sr entry)) := by
        simp only [createEntry]
        split
        · rfl
        · rw [WriteBatch.put, WriteBatch.put, batchColumn_append, batchColumn_append,
            addToIndexes_column unindexed]
      rw [List.map_cons, List.zip_cons_cons, List.foldl_cons, ih, step, WriteBatch.put,
        ← batchColumn_append, List.append_assoc, ← batchColumn_append]
      rfl

end Loops

/-! ### The batch of a change -/

section Change
variable (sr)

def undoOf (change : StateChange) (newHeight : Nat) (removed : List BoxEntry) : StoredUndo :=
  ⟨newHeight, removed.map (stored sr), change.created.map BoxEntry.boxId⟩

def changeOps (change : StateChange) (newHeight : Nat) (removed : List BoxEntry) : WriteBatch :=
  (change.spent.map fun boxId => ⟨⟨.utxo, boxId⟩, .delete⟩) ++
    (change.created.map fun entry => ⟨⟨.utxo, entry.boxId⟩, .put (stored sr entry)⟩) ++
    [⟨⟨.undoData, newHeight⟩, .put (undoOf sr change newHeight removed)⟩] ++
    [⟨⟨.metadata, .utxoHeight⟩, .put newHeight⟩]

structure ChangeBatch (lookup : BoxId → StateResult (Option BoxEntry)) (batch : WriteBatch)
    (change : StateChange) (newHeight : Nat) (removed : List BoxEntry) (result : WriteBatch) :
    Prop where
  found : List.Forall₂ (fun boxId entry => lookup boxId = .ok (some entry)) change.spent removed
  created_encodable : ∀ entry ∈ change.created, Encodable sr entry
  removed_encodable : ∀ entry ∈ removed, Encodable sr entry
  column : ∀ {cf}, Unindexed cf →
    batchColumn cf result = batchColumn cf batch ++ batchColumn cf (changeOps sr change newHeight removed)

variable {sr} {skipIndexes : Bool} {lookup : BoxId → StateResult (Option BoxEntry)}
variable {batch result : WriteBatch} {change : StateChange} {newHeight : Nat}
variable {removed : List BoxEntry}

theorem requireBox_eq_ok : requireBox lookup boxId = .ok entry ↔ lookup boxId = .ok (some entry) := by
  simp only [requireBox, Except.bind_ok_eq_ok]
  constructor
  · rintro ⟨found, same, done⟩
    cases found with
    | none => cases done
    | some other =>
        cases done
        exact same
  · intro found
    exact ⟨some entry, found, rfl⟩

def pushedBatch (sr : SigmaRust) (db : Database) (skipIndexes : Bool) (batch : WriteBatch)
    (change : StateChange) (newHeight : Nat) (removed : List BoxEntry) : WriteBatch :=
  let spent := (change.spent.zip removed).foldl
    (fun acc xy => spendEntry sr db skipIndexes acc xy.1 xy.2) (batch, UndoData.new newHeight)
  let created := (change.created.zip (change.created.map (stored sr))).foldl
    (fun acc xy => createEntry sr db skipIndexes acc xy.1 xy.2) spent
  (created.1.put .undoData newHeight (undoOf sr change newHeight removed)).put
    .metadata .utxoHeight newHeight

theorem changeToBatch_eq_ok_iff :
    changeToBatch sr db skipIndexes lookup batch change newHeight = .ok result ↔
      ∃ removed, List.Forall₂ (fun boxId entry => lookup boxId = .ok (some entry)) change.spent removed ∧
        (∀ entry ∈ change.created, Encodable sr entry) ∧ (∀ entry ∈ removed, Encodable sr entry) ∧
        result = pushedBatch sr db skipIndexes batch change newHeight removed := by
  have undo (removed : List BoxEntry) (matched : change.spent.length = removed.length) :
      ((change.created.zip (change.created.map (stored sr))).foldl
        (fun acc xy => createEntry sr db skipIndexes acc xy.1 xy.2)
        ((change.spent.zip removed).foldl
          (fun acc xy => spendEntry sr db skipIndexes acc xy.1 xy.2)
          (batch, UndoData.new newHeight))).2 =
        ⟨newHeight, removed, change.created.map BoxEntry.boxId⟩ := by
    rw [create_undo, spend_undo, ← List.unzip_snd, List.unzip_zip matched]
    simp [UndoData.new]
  simp only [changeToBatch, foldlM_eq_mapM, Except.bind_ok_eq_ok, Except.pure_eq_ok, mapM_eq_ok,
    requireBox_eq_ok]
  constructor
  · rintro ⟨_, ⟨removed, found, rfl⟩, _, ⟨boxes, encoded, rfl⟩, bytes, serialized, rfl⟩
    obtain ⟨created, rfl⟩ := mapM_serialize_eq_ok.mp (mapM_eq_ok.mpr encoded)
    rw [undo removed found.length_eq, UndoData.serialize] at serialized
    simp only [Except.bind_ok_eq_ok, mapM_serialize_eq_ok, Except.pure_eq_ok] at serialized
    obtain ⟨_, ⟨saved, rfl⟩, rfl⟩ := serialized
    exact ⟨removed, found, created, saved, rfl⟩
  · rintro ⟨removed, found, created, saved, rfl⟩
    refine ⟨_, ⟨removed, found, rfl⟩, _, ⟨_, mapM_eq_ok.mp (mapM_serialize_eq_ok.mpr ⟨created, rfl⟩), rfl⟩,
      undoOf sr change newHeight removed, ?_, rfl⟩
    rw [undo removed found.length_eq, UndoData.serialize]
    simp only [mapM_serialize_eq_ok.mpr ⟨saved, rfl⟩]
    rfl

theorem pushedBatch_column {cf : ColumnFamily} (unindexed : Unindexed cf)
    (matched : change.spent.length = removed.length) :
    batchColumn cf (pushedBatch sr db skipIndexes batch change newHeight removed) =
      batchColumn cf batch ++ batchColumn cf (changeOps sr change newHeight removed) := by
  simp only [pushedBatch, WriteBatch.put, batchColumn_append, create_column _ unindexed,
    spend_column _ unindexed, ← List.unzip_fst, List.unzip_zip matched, changeOps, List.append_assoc]

theorem changeToBatch_spec
    (done : changeToBatch sr db skipIndexes lookup batch change newHeight = .ok result) :
    ∃ removed, ChangeBatch sr lookup batch change newHeight removed result := by
  obtain ⟨removed, found, created, saved, rfl⟩ := changeToBatch_eq_ok_iff.mp done
  exact ⟨removed, found, created, saved, fun unindexed => pushedBatch_column unindexed found.length_eq⟩

theorem changeToBatch_total (db : Database) (skipIndexes : Bool) (batch : WriteBatch)
    (newHeight : Nat) (found : ∀ boxId ∈ change.spent, ∃ entry,
      lookup boxId = .ok (some entry) ∧ Encodable sr entry)
    (created : ∀ entry ∈ change.created, Encodable sr entry) :
    ∃ result, changeToBatch sr db skipIndexes lookup batch change newHeight = .ok result := by
  obtain ⟨removed, pairs⟩ := exists_forall₂.mpr found
  have saved : ∀ entry ∈ removed, Encodable sr entry := by
    intro entry member
    obtain ⟨_, -, -, encodable⟩ := exists_left pairs member
    exact encodable
  exact ⟨_, changeToBatch_eq_ok_iff.mpr ⟨removed, pairs.imp fun _ _ both => both.1, created, saved, rfl⟩⟩

end Change

/-! ### Its effect on the columns -/

namespace ChangeBatch
variable {lookup : BoxId → StateResult (Option BoxEntry)} {batch result : WriteBatch}
variable {change : StateChange} {newHeight : Nat} {removed : List BoxEntry}

theorem boxes_write (spec : ChangeBatch sr lookup batch change newHeight removed result)
    (columns : Columns) :
    boxes (columns.write result) =
      (boxes (columns.write batch)).settle BoxEntry.boxId (stored sr) change.created change.spent := by
  rw [boxes, Store.column_write, spec.column (by simp [Unindexed]), Store.write_append,
    ← Store.column_write]
  simp [changeOps, batchColumn_cons_of_ne, Store.settle, puts]

theorem undo_write (spec : ChangeBatch sr lookup batch change newHeight removed result)
    (columns : Columns) :
    (columns.write result).column .undoData =
      Function.update ((columns.write batch).column .undoData) newHeight
        (some (undoOf sr change newHeight removed)) := by
  rw [Store.column_write, spec.column (by simp [Unindexed]), Store.write_append, ← Store.column_write]
  simp [changeOps, batchColumn_cons_of_ne, Store.apply]

end ChangeBatch

/-! ### The batch of a rollback -/

section Undo

theorem removeCreated_column {cf : ColumnFamily} (unindexed : Unindexed cf) (batch : WriteBatch)
    (boxId : BoxId) (found : Option BoxEntry) :
    batchColumn cf (removeCreated sr db batch boxId found) =
      batchColumn cf batch ++ batchColumn cf [⟨⟨.utxo, boxId⟩, .delete⟩] := by
  simp only [removeCreated, WriteBatch.delete, batchColumn_append]
  cases found with
  | none => rfl
  | some entry => rw [removeFromIndexes_column unindexed]

theorem restoreSpent_column {cf : ColumnFamily} (unindexed : Unindexed cf) (batch : WriteBatch)
    (entry : BoxEntry) :
    batchColumn cf (restoreSpent sr db batch entry (stored sr entry)) =
      batchColumn cf batch ++ batchColumn cf [⟨⟨.utxo, entry.boxId⟩, .put (stored sr entry)⟩] := by
  simp only [restoreSpent, WriteBatch.put, batchColumn_append, addToIndexes_column unindexed]

theorem remove_column {cf : ColumnFamily} (unindexed : Unindexed cf) (batch : WriteBatch)
    (pairs : List (BoxId × Option BoxEntry)) :
    batchColumn cf (pairs.foldl (fun batch xy => removeCreated sr db batch xy.1 xy.2) batch) =
      batchColumn cf batch ++
        batchColumn cf ((pairs.map Prod.fst).map fun boxId => ⟨⟨.utxo, boxId⟩, .delete⟩) := by
  induction pairs generalizing batch with
  | nil => simp
  | cons pair pairs ih =>
      rw [List.foldl_cons, ih, removeCreated_column unindexed, List.append_assoc,
        ← batchColumn_append]
      rfl

theorem restore_column {cf : ColumnFamily} (unindexed : Unindexed cf) (batch : WriteBatch)
    (entries : List BoxEntry) :
    batchColumn cf ((entries.zip (entries.map (stored sr))).foldl
      (fun batch xy => restoreSpent sr db batch xy.1 xy.2) batch) =
      batchColumn cf batch ++
        batchColumn cf (entries.map fun entry => ⟨⟨.utxo, entry.boxId⟩, .put (stored sr entry)⟩) := by
  induction entries generalizing batch with
  | nil => simp
  | cons entry entries ih =>
      rw [List.map_cons, List.zip_cons_cons, List.foldl_cons, ih, restoreSpent_column unindexed,
        List.append_assoc, ← batchColumn_append]
      rfl

def undoOps (sr : SigmaRust) (undo : UndoData) (height : Nat) : WriteBatch :=
  (undo.createdBoxIds.map fun boxId => ⟨⟨.utxo, boxId⟩, .delete⟩) ++
    (undo.spentBoxes.map fun entry => ⟨⟨.utxo, entry.boxId⟩, .put (stored sr entry)⟩) ++
    [⟨⟨.undoData, height⟩, .delete⟩]

variable {undo : UndoData} {height : Nat} {result : WriteBatch}

theorem undoToBatch_spec (done : undoToBatch sr db undo height = .ok result) :
    (∀ entry ∈ undo.spentBoxes, Encodable sr entry) ∧
      ∀ {cf}, Unindexed cf → batchColumn cf result = batchColumn cf (undoOps sr undo height) := by
  simp only [undoToBatch, foldlM_eq_mapM, Except.bind_ok_eq_ok, Except.pure_eq_ok] at done
  obtain ⟨_, ⟨found, read, rfl⟩, _, ⟨boxes, encoded, rfl⟩, rfl⟩ := done
  obtain ⟨encodable, rfl⟩ := mapM_serialize_eq_ok.mp encoded
  refine ⟨encodable, fun unindexed => ?_⟩
  simp only [WriteBatch.delete, batchColumn_append, restore_column unindexed, remove_column unindexed,
    ← List.unzip_fst, List.unzip_zip (mapM_eq_ok.mp read).length_eq, undoOps, batchColumn_nil,
    List.nil_append]

theorem undoToBatch_total (undo : UndoData) (height : Nat) (sound : Sound sr (boxes db.columns))
    (encodable : ∀ entry ∈ undo.spentBoxes, Encodable sr entry) :
    ∃ result, undoToBatch sr db undo height = .ok result := by
  obtain ⟨found, read⟩ := exists_mapM_eq_ok.mpr fun (boxId : BoxId)
    (_ : boxId ∈ undo.createdBoxIds) => getBox_total boxId sound
  simp only [undoToBatch, foldlM_eq_mapM, read, mapM_serialize_eq_ok.mpr ⟨encodable, rfl⟩]
  exact ⟨_, rfl⟩

variable (columns : Columns)
  (spec : ∀ {cf}, Unindexed cf → batchColumn cf result = batchColumn cf (undoOps sr undo height))
include spec

theorem boxes_write_undo :
    boxes (columns.write result) = (boxes columns).settle BoxEntry.boxId (stored sr)
      undo.spentBoxes undo.createdBoxIds := by
  rw [boxes, Store.column_write, spec (by simp [Unindexed])]
  simp [undoOps, batchColumn_cons_of_ne, Store.settle, puts]

theorem undo_write_undo :
    (columns.write result).column .undoData =
      Function.update (columns.column .undoData) height none := by
  rw [Store.column_write, spec (by simp [Unindexed])]
  simp [undoOps, Store.apply]

end Undo
end ErgoNode.Proof.Utxo
