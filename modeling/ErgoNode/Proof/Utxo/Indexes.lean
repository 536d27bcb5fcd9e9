import ErgoNode.Lib.Inverted
import ErgoNode.Lib.Run
import ErgoNode.Proof.Utxo.Rollback

/-!
# The two indexes

The tree index and the token index list the unspent boxes under their keys. Each index update reads the
list from the database, whatever the batch at hand has already put there; so two boxes with a key in
common that are touched by one write take back each other's update.
-/

namespace ErgoNode.Proof.Utxo
open Lib UtxoState

abbrev IndexKey := IndexKind × Digest32

def indexKeys (sr : SigmaRust) (entry : BoxEntry) : List IndexKey :=
  (.ergoTree, hashErgotree sr entry.ergoBox) ::
    (entry.ergoBox.tokens.getD []).map fun token => (.token, token.tokenId)

/-- Each entry of the two indexes lists the unspent boxes with its key, each once. -/
def IndexesUnspent (sr : SigmaRust) (db : Database) : Prop :=
  ∀ kind key, (getIndexEntries db kind key).Nodup ∧ ∀ boxId, boxId ∈ getIndexEntries db kind key ↔
    ∃ entry ∈ unspent sr db, entry.boxId = boxId ∧ (kind, key) ∈ indexKeys sr entry

def indexOf (columns : Columns) (k : IndexKey) : List BoxId := (columns.column (.index k.1) k.2).getD []

def entriesOf (sr : SigmaRust) (columns : Columns) : BoxMap :=
  fun boxId => (boxes columns boxId).bind fun box => (BoxEntry.deserialize sr box).toOption

section Columns
variable {sr : SigmaRust} {columns : Columns} {db : Database} {batch : WriteBatch} {kind : IndexKind} {key : Digest32}
variable {entry : BoxEntry} {boxId : BoxId}

theorem indexOf_write (kind : IndexKind) (key : Digest32) (op : OperationKind (List BoxId)) :
    indexOf (columns.write (batch ++ [⟨⟨.index kind, key⟩, op⟩])) =
      Function.update (indexOf (columns.write batch)) (kind, key) (op.result.getD []) := by
  funext k
  unfold indexOf
  rw [Store.write_append, Store.column_apply, Store.write_cons, Store.write_nil]
  by_cases same : k = (kind, key)
  · subst same
    rw [Function.update_self, Store.apply_same]
  · rw [Function.update_of_ne same, Store.apply_of_ne]
    · rfl
    · intro equal
      cases equal
      exact same rfl

theorem indexOf_of_column {next : WriteBatch} (same : ∀ kind, batchColumn (.index kind) next = batchColumn (.index kind) batch) :
    indexOf (columns.write next) = indexOf (columns.write batch) := by
  funext k
  rw [indexOf, indexOf, Store.column_write, Store.column_write, same]

theorem indexOf_addToIndex : indexOf (db.columns.write (addToIndex db kind key boxId batch)) =
    fun k => if k = (kind, key) ∧ boxId ∉ indexOf db.columns k then indexOf db.columns k ++ [boxId]
      else indexOf (db.columns.write batch) k := by
  funext k
  have entries : getIndexEntries db kind key = indexOf db.columns (kind, key) := rfl
  unfold addToIndex
  rw [entries]
  by_cases listed : boxId ∈ indexOf db.columns (kind, key)
  · rw [if_pos listed, if_neg]
    rintro ⟨rfl, missing⟩
    exact missing listed
  · rw [if_neg listed, WriteBatch.put, indexOf_write]
    by_cases same : k = (kind, key)
    · subst same
      rw [Function.update_self, if_pos ⟨rfl, listed⟩]
      rfl
    · rw [Function.update_of_ne same, if_neg fun both => same both.1]

theorem indexOf_removeFromIndex : indexOf (db.columns.write (removeFromIndex db kind key boxId batch)) =
    fun k => if k = (kind, key) then (indexOf db.columns k).filter (· ≠ boxId)
      else indexOf (db.columns.write batch) k := by
  have entries : getIndexEntries db kind key = indexOf db.columns (kind, key) := rfl
  have update : indexOf (db.columns.write (removeFromIndex db kind key boxId batch)) = Function.update
      (indexOf (db.columns.write batch)) (kind, key) ((indexOf db.columns (kind, key)).filter (· ≠ boxId)) := by
    dsimp only [removeFromIndex]
    rw [entries]
    split
    · next empty =>
        rw [WriteBatch.delete, indexOf_write, empty]
        rfl
    · rw [WriteBatch.put, indexOf_write]
      rfl
  funext k
  rw [update]
  by_cases same : k = (kind, key)
  · subst same
    rw [Function.update_self, if_pos rfl]
  · rw [Function.update_of_ne same, if_neg same]

theorem updateIndexes_eq (update : IndexKind → Digest32 → WriteBatch → WriteBatch) (batch : WriteBatch) :
    updateIndexes sr update entry.ergoBox batch =
      (indexKeys sr entry).foldl (fun batch k => update k.1 k.2 batch) batch := by
  rw [updateIndexes, indexKeys, List.foldl_cons, List.foldl_map]

theorem indexOf_addToIndexes : indexOf (db.columns.write (addToIndexes sr db entry.ergoBox boxId batch)) =
    fun k => if k ∈ indexKeys sr entry ∧ boxId ∉ indexOf db.columns k then indexOf db.columns k ++ [boxId]
      else indexOf (db.columns.write batch) k := by
  rw [addToIndexes, updateIndexes_eq]
  generalize indexKeys sr entry = keys
  induction keys generalizing batch with
  | nil => simp
  | cons first rest ih =>
      rw [List.foldl_cons, ih, indexOf_addToIndex]
      funext k
      by_cases listed : boxId ∈ indexOf db.columns k
      · simp [listed]
      · by_cases same : k = first
        · subst same
          simp [listed]
        · simp [listed, same]

theorem indexOf_removeFromIndexes : indexOf (db.columns.write (removeFromIndexes sr db entry.ergoBox boxId batch)) =
    fun k => if k ∈ indexKeys sr entry then (indexOf db.columns k).filter (· ≠ boxId)
      else indexOf (db.columns.write batch) k := by
  rw [removeFromIndexes, updateIndexes_eq]
  generalize indexKeys sr entry = keys
  induction keys generalizing batch with
  | nil => simp
  | cons first rest ih =>
      rw [List.foldl_cons, ih, indexOf_removeFromIndex]
      funext k
      by_cases same : k = first
      · subst same
        simp
      · simp [same]

theorem entriesOf_of_column {next : WriteBatch} (same : batchColumn .utxo next = batchColumn .utxo batch) :
    entriesOf sr (columns.write next) = entriesOf sr (columns.write batch) := by
  unfold entriesOf boxes
  rw [Store.column_write, Store.column_write, same]

theorem entriesOf_write (boxId : BoxId) (op : OperationKind StoredBox) :
    entriesOf sr (columns.write (batch ++ [⟨⟨.utxo, boxId⟩, op⟩])) =
      Function.update (entriesOf sr (columns.write batch)) boxId
        (op.result.bind fun box => (BoxEntry.deserialize sr box).toOption) := by
  funext other
  unfold entriesOf boxes
  rw [Store.write_append, Store.column_apply, Store.write_cons, Store.write_nil]
  by_cases same : other = boxId
  · subst same
    rw [Function.update_self, Store.apply_same]
  · rw [Function.update_of_ne same, Store.apply_of_ne]
    · rfl
    · intro equal
      cases equal
      exact same rfl

theorem entriesOf_put (encodable : Encodable sr entry) :
    entriesOf sr (columns.write (batch.put .utxo boxId (stored sr entry))) =
      Function.update (entriesOf sr (columns.write batch)) boxId (some entry) := by
  rw [WriteBatch.put, entriesOf_write, OperationKind.result_put, Option.bind_some, deserialize_stored encodable]
  rfl

theorem entriesOf_delete : entriesOf sr (columns.write (batch.delete .utxo boxId)) =
    Function.update (entriesOf sr (columns.write batch)) boxId none := by
  rw [WriteBatch.delete, entriesOf_write]
  rfl

end Columns

/-! ### What a write touches -/

structure Stage (sr : SigmaRust) (db : Database) (batch next : WriteBatch) (touches : List (Touch BoxId BoxEntry)) :
    Prop where
  entries : entriesOf sr (db.columns.write next) = touches.foldl Touch.apply (entriesOf sr (db.columns.write batch))
  index : indexOf (db.columns.write next) =
    touches.foldl (Touch.update (indexKeys sr) (indexOf db.columns)) (indexOf (db.columns.write batch))

section Stages
variable {sr : SigmaRust} {db : Database} {batch middle next : WriteBatch} {entry : BoxEntry} {boxId : BoxId}
variable {first second : List (Touch BoxId BoxEntry)} {change : StateChange} {removed : List BoxEntry}

theorem Stage.trans (one : Stage sr db batch middle first) (two : Stage sr db middle next second) :
    Stage sr db batch next (first ++ second) where
  entries := by rw [two.entries, one.entries, List.foldl_append]
  index := by rw [two.index, one.index, List.foldl_append]

theorem stage_nil (entries : batchColumn .utxo next = batchColumn .utxo batch)
    (index : ∀ kind, batchColumn (.index kind) next = batchColumn (.index kind) batch) :
    Stage sr db batch next [] :=
  ⟨entriesOf_of_column entries, indexOf_of_column index⟩

theorem stage_spend : Stage sr db batch
    ((removeFromIndexes sr db entry.ergoBox boxId batch).delete .utxo boxId) [.remove boxId (some entry)] where
  entries := by
    rw [entriesOf_delete, entriesOf_of_column (removeFromIndexes_column (by simp [Unindexed]) ..)]
    rfl
  index := by
    rw [indexOf_of_column fun kind => WriteBatch.column_delete_of_ne _ (by simp), indexOf_removeFromIndexes]
    funext k
    simp [Touch.update]

theorem stage_create (encodable : Encodable sr entry) : Stage sr db batch
    ((addToIndexes sr db entry.ergoBox entry.boxId batch).put .utxo entry.boxId (stored sr entry))
    [.add entry.boxId entry] where
  entries := by
    rw [entriesOf_put encodable, entriesOf_of_column (addToIndexes_column (by simp [Unindexed]) ..)]
    rfl
  index := by
    rw [indexOf_of_column fun kind => WriteBatch.column_put_of_ne _ _ (by simp), indexOf_addToIndexes]
    funext k
    simp [Touch.update]

theorem stage_delete : Stage sr db batch (batch.delete .utxo boxId) [.remove boxId none] where
  entries := entriesOf_delete
  index := by
    rw [indexOf_of_column fun kind => WriteBatch.column_delete_of_ne _ (by simp)]
    funext k
    simp [Touch.update]

/-! ### A change -/

def spendTouches (pairs : List (BoxId × BoxEntry)) : List (Touch BoxId BoxEntry) :=
  pairs.map fun pair => .remove pair.1 (some pair.2)

def createTouches (entries : List BoxEntry) : List (Touch BoxId BoxEntry) :=
  entries.map fun entry => .add entry.boxId entry

def changeTouches (change : StateChange) (removed : List BoxEntry) : List (Touch BoxId BoxEntry) :=
  spendTouches (change.spent.zip removed) ++ createTouches change.created

def singleTouches (sr : SigmaRust) (db : Database) (change : StateChange) :
    StateResult (List (Touch BoxId BoxEntry)) := do
  let removed ← change.spent.mapM (requireBox (getBox sr db))
  return changeTouches change removed

theorem stage_spendEntries (pairs : List (BoxId × BoxEntry)) (acc : WriteBatch × UndoData) :
    Stage sr db acc.1 (pairs.foldl (fun acc xy => spendEntry sr db false acc xy.1 xy.2) acc).1
      (spendTouches pairs) := by
  induction pairs generalizing acc with
  | nil => exact stage_nil rfl fun _ => rfl
  | cons pair rest ih => exact stage_spend.trans (ih (spendEntry sr db false acc pair.1 pair.2))

theorem stage_createEntries (entries : List BoxEntry) (encodable : ∀ entry ∈ entries, Encodable sr entry)
    (acc : WriteBatch × UndoData) :
    Stage sr db acc.1 ((entries.zip (entries.map (stored sr))).foldl
      (fun acc xy => createEntry sr db false acc xy.1 xy.2) acc).1 (createTouches entries) := by
  induction entries generalizing acc with
  | nil => exact stage_nil rfl fun _ => rfl
  | cons entry rest ih =>
      exact (stage_create (encodable entry List.mem_cons_self)).trans
        (ih (fun other member => encodable other (List.mem_cons_of_mem _ member))
          (createEntry sr db false acc entry (stored sr entry)))

theorem stage_pushedBatch (encodable : ∀ entry ∈ change.created, Encodable sr entry) (newHeight : Nat)
    (removed : List BoxEntry) :
    Stage sr db batch (pushedBatch sr db false batch change newHeight removed) (changeTouches change removed) := by
  have spend := @stage_spendEntries sr db (change.spent.zip removed) (batch, UndoData.new newHeight)
  have create := @stage_createEntries sr db change.created encodable
    ((change.spent.zip removed).foldl (fun acc xy => spendEntry sr db false acc xy.1 xy.2)
      (batch, UndoData.new newHeight))
  have pushed := (spend.trans create).trans
    (@stage_nil sr db _ (pushedBatch sr db false batch change newHeight removed) (by simp [pushedBatch])
      (by simp [pushedBatch]))
  rw [List.append_nil] at pushed
  exact pushed

theorem stage_change {lookup : BoxId → StateResult (Option BoxEntry)} {newHeight : Nat}
    (done : changeToBatch sr db false lookup batch change newHeight = .ok next) :
    ∃ removed, change.spent.mapM (requireBox lookup) = .ok removed ∧
      (∀ entry ∈ change.created, Encodable sr entry) ∧ Stage sr db batch next (changeTouches change removed) := by
  obtain ⟨removed, found, created, -, rfl⟩ := changeToBatch_eq_ok_iff.mp done
  refine ⟨removed, ?_, created, stage_pushedBatch created newHeight removed⟩
  rw [mapM_eq_ok]
  exact found.imp fun _ _ here => requireBox_eq_ok.mpr here

/-! ### Changes in one batch -/

def pushChange (sr : SigmaRust) (st : OnDatabase UtxoState) (acc : WriteBatch × BoxMap) (item : StateChange × Nat) :
    StateResult (WriteBatch × BoxMap) := do
  let batch ← addChangeToBatchWithContext sr st acc.1 item.1 item.2 acc.2
  return (batch, acc.2.afterBlock item.1)

def batchTouches (sr : SigmaRust) (db : Database) :
    BoxMap → List (StateChange × Nat) → StateResult (List (Touch BoxId BoxEntry))
  | _, [] => return []
  | context, (change, _) :: rest => do
      let removed ← change.spent.mapM (requireBox (boxInContext sr db change context))
      let later ← batchTouches sr db (context.afterBlock change) rest
      return changeTouches change removed ++ later

theorem stage_batch {st : OnDatabase UtxoState} (indexing : st.mem.syncMode = false) {items : List (StateChange × Nat)}
    {batch : WriteBatch} {context : BoxMap} {pushed : WriteBatch × BoxMap}
    (done : items.foldlM (pushChange sr st) (batch, context) = .ok pushed)
    (sound : Sound sr (boxes (st.db.columns.write batch))) :
    ∃ touches, batchTouches sr st.db context items = .ok touches ∧ Stage sr st.db batch pushed.1 touches ∧
      Sound sr (boxes (st.db.columns.write pushed.1)) := by
  induction items generalizing batch context with
  | nil =>
      cases done
      exact ⟨[], rfl, stage_nil rfl fun _ => rfl, sound⟩
  | cons item rest ih =>
      obtain ⟨change, height⟩ := item
      simp only [List.foldlM_cons, pushChange, addChangeToBatchWithContext, indexing, Except.bind_ok_eq_ok,
        Except.pure_eq_ok] at done
      obtain ⟨_, ⟨next, built, rfl⟩, later⟩ := done
      obtain ⟨removed, found, -, stage⟩ := stage_change built
      obtain ⟨_, spec⟩ := changeToBatch_spec built
      have soundNext : Sound sr (boxes (st.db.columns.write next)) := by
        rw [spec.boxes_write]
        exact sound_settle sound _ spec.created_encodable
      obtain ⟨touches, more, rest, soundAfter⟩ := ih later soundNext
      refine ⟨changeTouches change removed ++ touches, ?_, stage.trans rest, soundAfter⟩
      simp only [batchTouches, found, more]
      rfl

/-! ### A block taken back -/

def undoTouches (sr : SigmaRust) (db : Database) (undo : UndoData) : StateResult (List (Touch BoxId BoxEntry)) := do
  let found ← undo.createdBoxIds.mapM (getBox sr db)
  return (undo.createdBoxIds.zip found).map (fun pair => .remove pair.1 pair.2) ++ createTouches undo.spentBoxes

theorem stage_removeCreated (pairs : List (BoxId × Option BoxEntry)) (batch : WriteBatch) :
    Stage sr db batch (pairs.foldl (fun batch pair => removeCreated sr db batch pair.1 pair.2) batch)
      (pairs.map fun pair => .remove pair.1 pair.2) := by
  induction pairs generalizing batch with
  | nil => exact stage_nil rfl fun _ => rfl
  | cons pair rest ih =>
      have head : Stage sr db batch (removeCreated sr db batch pair.1 pair.2) [.remove pair.1 pair.2] := by
        rcases pair with ⟨boxId, _ | entry⟩
        · exact stage_delete
        · exact stage_spend
      exact head.trans (ih (removeCreated sr db batch pair.1 pair.2))

theorem stage_restoreSpent (entries : List BoxEntry) (encodable : ∀ entry ∈ entries, Encodable sr entry)
    (batch : WriteBatch) :
    Stage sr db batch ((entries.zip (entries.map (stored sr))).foldl
      (fun batch pair => restoreSpent sr db batch pair.1 pair.2) batch) (createTouches entries) := by
  induction entries generalizing batch with
  | nil => exact stage_nil rfl fun _ => rfl
  | cons entry rest ih =>
      exact (stage_create (encodable entry List.mem_cons_self)).trans
        (ih (fun other member => encodable other (List.mem_cons_of_mem _ member))
          (restoreSpent sr db batch entry (stored sr entry)))

theorem stage_undo {undo : UndoData} {height : Nat} (done : undoToBatch sr db undo height = .ok next) :
    ∃ touches, undoTouches sr db undo = .ok touches ∧ Stage sr db [] next touches := by
  simp only [undoToBatch, foldlM_eq_mapM, Except.bind_ok_eq_ok, Except.pure_eq_ok] at done
  obtain ⟨_, ⟨found, read, rfl⟩, _, ⟨serialized, encoded, rfl⟩, rfl⟩ := done
  obtain ⟨encodable, rfl⟩ := mapM_serialize_eq_ok.mp encoded
  refine ⟨(undo.createdBoxIds.zip found).map (fun pair => .remove pair.1 pair.2) ++ createTouches undo.spentBoxes,
    by simp only [undoTouches, read]; rfl, ?_⟩
  have removed := @stage_removeCreated sr db (undo.createdBoxIds.zip found) []
  have restored := @stage_restoreSpent sr db undo.spentBoxes encodable
    ((undo.createdBoxIds.zip found).foldl (fun batch pair => removeCreated sr db batch pair.1 pair.2) [])
  have taken := (removed.trans restored).trans (@stage_nil sr db _ (WriteBatch.delete ((undo.spentBoxes.zip
    (undo.spentBoxes.map (stored sr))).foldl (fun batch pair => restoreSpent sr db batch pair.1 pair.2)
      ((undo.createdBoxIds.zip found).foldl (fun batch pair => removeCreated sr db batch pair.1 pair.2) []))
    .undoData height) (by simp) (by simp))
  rw [List.append_nil] at taken
  exact taken

end Stages

/-! ### Runs -/

structure Indexed (sr : SigmaRust) (st : OnDatabase UtxoState) : Prop where
  sound : Sound sr (boxes st.db.columns)
  inverts : Inverts (indexKeys sr) (entriesOf sr st.db.columns) (indexOf st.db.columns)
  indexing : st.mem.syncMode = false

def Separate (sr : SigmaRust) (db : Database) (touches : StateResult (List (Touch BoxId BoxEntry))) : Prop :=
  ∀ list ∈ touches.toOption, Touch.Separate (indexKeys sr) (entriesOf sr db.columns) (entriesOf sr db.columns) [] list

instance (sr : SigmaRust) (db : Database) (touches : StateResult (List (Touch BoxId BoxEntry))) :
    Decidable (Separate sr db touches) :=
  inferInstanceAs (Decidable (∀ list ∈ touches.toOption, _))

theorem Separate.of_ok {sr : SigmaRust} {db : Database} {touches : StateResult (List (Touch BoxId BoxEntry))}
    {list : List (Touch BoxId BoxEntry)} (separate : Separate sr db touches) (found : touches = .ok list) :
    Touch.Separate (indexKeys sr) (entriesOf sr db.columns) (entriesOf sr db.columns) [] list :=
  separate list (Except.toOption_eq_some.mpr found)

section Steps
variable {sr : SigmaRust} {st : OnDatabase UtxoState} {batch : WriteBatch}

theorem entriesOf_eq_some (sound : Sound sr (boxes st.db.columns)) {boxId : BoxId} {entry : BoxEntry} :
    entriesOf sr st.db.columns boxId = some entry ↔ entry ∈ unspent sr st.db ∧ entry.boxId = boxId := by
  constructor
  · intro here
    obtain ⟨box, present, decoded⟩ := Option.bind_eq_some_iff.mp here
    obtain ⟨other, same, encodable, rfl⟩ := sound present
    rw [deserialize_stored encodable] at decoded
    cases decoded
    subst same
    exact ⟨getBox_of_stored encodable present, rfl⟩
  · rintro ⟨found, rfl⟩
    obtain ⟨-, encodable, present⟩ := getBox_eq_some sound found
    rw [entriesOf, present, Option.bind_some, deserialize_stored encodable]
    rfl

theorem Indexed.unspent (indexed : Indexed sr st) : IndexesUnspent sr st.db := by
  intro kind key
  refine ⟨indexed.inverts.nodup (kind, key), fun boxId => ?_⟩
  refine (indexed.inverts.listed (kind, key) boxId).trans ?_
  simp only [entriesOf_eq_some indexed.sound, and_assoc]

theorem Indexed.write (indexed : Indexed sr st) {touches : List (Touch BoxId BoxEntry)}
    (stage : Stage sr st.db [] batch touches) (sound : Sound sr (boxes (st.db.columns.write batch)))
    (separate : Touch.Separate (indexKeys sr) (entriesOf sr st.db.columns) (entriesOf sr st.db.columns) [] touches) :
    Op.Ends (Indexed sr) (OnDatabase.writeBatch batch) st := by
  rcases written : (Database.writeBatch batch).exec st.db with ⟨result, after⟩
  have here : ((OnDatabase.writeBatch batch).exec st).2 = { st with db := after } := by
    rw [OnDatabase.writeBatch, Op.exec_zoom, written]
  rw [Op.Ends, here]
  cases result with
  | error e =>
      have same := Database.columns_of_writeBatch_error written
      exact ⟨by rw [same]; exact indexed.sound, by rw [same]; exact indexed.inverts, indexed.indexing⟩
  | ok _ =>
      have moved := Database.columns_of_writeBatch_ok written
      refine ⟨by rw [moved]; exact sound, ?_, indexed.indexing⟩
      rw [moved, stage.entries, stage.index]
      exact indexed.inverts.batch separate

theorem Indexed.withHeight (indexed : Indexed sr st) (height : Nat) :
    Indexed sr { st with mem.height := height } :=
  ⟨indexed.sound, indexed.inverts, indexed.indexing⟩

theorem Indexed.applyChange (indexed : Indexed sr st) {change : StateChange} (newHeight : Nat)
    (separate : Separate sr st.db (singleTouches sr st.db change)) :
    Op.Ends (Indexed sr) (UtxoState.applyChange sr change newHeight) st := by
  refine Op.Ends.get_bind (Op.Ends.ofExcept_bind indexed fun batch built => ?_)
  rw [indexed.indexing] at built
  obtain ⟨removed, found, -, stage⟩ := stage_change built
  obtain ⟨_, spec⟩ := changeToBatch_spec built
  have sound : Sound sr (boxes (st.db.columns.write batch)) := by
    rw [spec.boxes_write]
    exact sound_settle indexed.sound _ spec.created_encodable
  have touched : singleTouches sr st.db change = .ok (changeTouches change removed) := by
    rw [singleTouches, found]
    rfl
  exact (indexed.write stage sound (separate.of_ok touched)).bind fun _ _ _ there => there.withHeight newHeight

def applyBatch (sr : SigmaRust) (items : List (StateChange × Nat)) : Op (OnDatabase UtxoState) StateError Unit := do
  let st ← get
  let (batch, _) ← MonadExcept.ofExcept (items.foldlM (pushChange sr st) ([], BoxMap.empty))
  OnDatabase.writeBatch batch
  match items.getLast? with
  | some (_, height) => updateHeightInMemory height
  | none => return ()

theorem Indexed.applyBatch (indexed : Indexed sr st) {items : List (StateChange × Nat)}
    (separate : Separate sr st.db (batchTouches sr st.db BoxMap.empty items)) :
    Op.Ends (Indexed sr) (applyBatch sr items) st := by
  refine Op.Ends.get_bind (Op.Ends.ofExcept_bind indexed fun pushed built => ?_)
  obtain ⟨touches, found, stage, sound⟩ := stage_batch indexed.indexing built indexed.sound
  refine (indexed.write stage sound (separate.of_ok found)).bind fun _ _ _ there => ?_
  cases items.getLast? with
  | none => exact there
  | some item => exact there.withHeight item.2

def blockTouches (sr : SigmaRust) (db : Database) (height : Nat) : StateResult (List (Touch BoxId BoxEntry)) :=
  match db.get .undoData height with
  | some undoBytes => do undoTouches sr db (← UndoData.deserialize sr undoBytes)
  | none => return []

theorem Indexed.rollbackOneBlock (indexed : Indexed sr st) {height : Nat}
    (separate : Separate sr st.db (blockTouches sr st.db height)) :
    Op.Ends (Indexed sr) (rollbackOneBlock sr height) st := by
  refine Op.Ends.get_bind ?_
  rcases record : st.db.get .undoData height with _ | undoBytes
  · exact indexed
  · refine Op.Ends.ofExcept_bind indexed fun bytes same => ?_
    cases same
    refine Op.Ends.ofExcept_bind indexed fun undo decoded => Op.Ends.ofExcept_bind indexed fun batch built => ?_
    obtain ⟨touches, found, stage⟩ := stage_undo built
    obtain ⟨encodable, spec⟩ := undoToBatch_spec built
    have sound : Sound sr (boxes (st.db.columns.write batch)) := by
      rw [boxes_write_undo _ spec]
      exact sound_settle indexed.sound _ encodable
    refine indexed.write stage sound (separate.of_ok ?_)
    simp only [blockTouches, record, decoded]
    exact found

def blockBack (sr : SigmaRust) (st : OnDatabase UtxoState) (height : Nat) : Option (OnDatabase UtxoState) :=
  match (UtxoState.rollbackOneBlock sr height).exec st with
  | (.ok _, after) => some after
  | (.error _, _) => none

theorem Indexed.rollbackBlocks {heights : List Nat} (indexed : Indexed sr st)
    (separate : Along (blockBack sr) (fun st height => Separate sr st.db (blockTouches sr st.db height)) st heights) :
    Op.Ends (Indexed sr) (Op.forEach (UtxoState.rollbackOneBlock sr) heights) st := by
  induction heights generalizing st with
  | nil => exact indexed
  | cons height rest ih =>
      refine (indexed.rollbackOneBlock separate.head).bind fun _ after ran there => ih there (separate.tail ?_)
      rw [blockBack, ran]

theorem Indexed.rollback (indexed : Indexed sr st) {toHeight : Nat}
    (separate : Along (blockBack sr) (fun st height => Separate sr st.db (blockTouches sr st.db height)) st
      (heightsAbove toHeight st.mem.height)) :
    Op.Ends (Indexed sr) (UtxoState.rollback sr toHeight) st := by
  refine Op.Ends.get_bind (.ite (fun _ => indexed) fun _ => ?_)
  refine (indexed.rollbackBlocks separate).bind fun _ middle _ there => ?_
  have stage := @stage_nil sr middle.db [] (WriteBatch.put [] .metadata .utxoHeight toHeight) (by simp) (by simp)
  have sound : Sound sr (boxes (middle.db.columns.write (WriteBatch.put [] .metadata .utxoHeight toHeight))) := by
    rw [boxes, Store.column_write, WriteBatch.column_put_of_ne _ _ (by simp)]
    exact there.sound
  exact (there.write stage sound trivial).bind fun _ _ _ last => last.withHeight toHeight

end Steps

inductive UtxoCall where
  | applyChange (change : StateChange) (newHeight : Nat)
  | applyBatch (items : List (StateChange × Nat))
  | rollback (toHeight : Nat)

namespace UtxoCall

def exec (sr : SigmaRust) : UtxoCall → Op (OnDatabase UtxoState) StateError Unit
  | applyChange change newHeight => UtxoState.applyChange sr change newHeight
  | applyBatch items => Utxo.applyBatch sr items
  | rollback toHeight => UtxoState.rollback sr toHeight

/-- Each write of the call touches no two boxes under one key. -/
def Fits (sr : SigmaRust) (st : OnDatabase UtxoState) : UtxoCall → Prop
  | applyChange change _ => Separate sr st.db (singleTouches sr st.db change)
  | applyBatch items => Separate sr st.db (batchTouches sr st.db BoxMap.empty items)
  | rollback toHeight => Along (blockBack sr) (fun st height => Separate sr st.db (blockTouches sr st.db height)) st
      (heightsAbove toHeight st.mem.height)

instance (sr : SigmaRust) (st : OnDatabase UtxoState) : DecidablePred (Fits sr st)
  | applyChange _ _ | applyBatch _ => inferInstanceAs (Decidable (Separate _ _ _))
  | rollback _ => inferInstanceAs (Decidable (Along _ _ _ _))

end UtxoCall

def utxoStep (sr : SigmaRust) (st : OnDatabase UtxoState) (call : UtxoCall) : Option (OnDatabase UtxoState) :=
  some ((call.exec sr).exec st).2

theorem indexed_step {sr : SigmaRust} {st after : OnDatabase UtxoState} {call : UtxoCall} (indexed : Indexed sr st)
    (fits : call.Fits sr st) (taken : utxoStep sr st call = some after) : Indexed sr after := by
  cases taken
  cases call with
  | applyChange change newHeight => exact indexed.applyChange newHeight fits
  | applyBatch items => exact indexed.applyBatch fits
  | rollback toHeight => exact indexed.rollback fits

theorem indexed_fresh (sr : SigmaRust) (faults : List Bool) :
    Indexed sr ⟨⟨Database.empty.columns, faults⟩, .new⟩ where
  sound := sound_empty
  inverts := ⟨fun _ => List.nodup_nil, fun k boxId => by simp [indexOf, entriesOf, Database.empty, Store.column_apply]⟩
  indexing := rfl

/-- Along a run of calls that fit, the indexes list the unspent boxes. -/
theorem indexesUnspent_reachable (sr : SigmaRust) (faults : List Bool) {calls : List UtxoCall}
    (fit : Along (utxoStep sr) (fun st call => call.Fits sr st) ⟨⟨Database.empty.columns, faults⟩, .new⟩ calls) :
    Always (utxoStep sr) (fun st => IndexesUnspent sr st.db) ⟨⟨Database.empty.columns, faults⟩, .new⟩ calls := by
  intro st visited
  exact (fit.invariant (Indexed sr) indexed_step (indexed_fresh sr faults) st visited).unspent

section Samples
open Sample

def otherTree : BoxEntry := ⟨{ sampleBox 2 with ergoTree := [0] }, 1, .zero, 0⟩

def treeCodec : SigmaRust :=
  codec [sampleBox 1, otherTree.ergoBox, sampleBox 3] [header11, header12, header13, header22] []

/-- Two boxes with different trees; then, in one batch, box 3 comes and goes; then all of it is taken back. -/
def apartCalls : List UtxoCall :=
  [.applyChange ⟨[sampleEntry 1 1, otherTree], []⟩ 1,
    .applyBatch [(⟨[sampleEntry 3 2], []⟩, 2), (⟨[], [.filled 3, .filled 2]⟩, 3)], .rollback 0]

theorem apartCalls_indexesUnspent :
    Always (utxoStep treeCodec) (fun st => IndexesUnspent treeCodec st.db) fresh apartCalls :=
  indexesUnspent_reachable treeCodec [] (by decide)

/-- The first block creates two boxes with one tree. -/
theorem sameTree_not_indexed :
    ¬ Always (utxoStep boxCodec) (fun st => IndexesUnspent boxCodec st.db) fresh [.applyChange firstChange 1] := by
  intro always
  have listed := always afterFirst ⟨[.applyChange firstChange 1], List.prefix_rfl, rfl⟩
    .ergoTree (hashErgotree boxCodec (sampleBox 1))
  have member := (listed.2 (.filled 1)).mpr ⟨sampleEntry 1 1, rfl, rfl, by decide⟩
  exact absurd member (by decide)

end Samples

end ErgoNode.Proof.Utxo
