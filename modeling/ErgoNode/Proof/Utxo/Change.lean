import ErgoNode.Proof.Sample
import ErgoNode.Proof.Utxo.Batch
import Mathlib.Data.List.Nodup
import Mathlib.Data.Set.Basic

/-!
# Applying one change

The two ways to apply a change find a spent box in different places; where both find it, both leave
the boxes of the state settled by the change.
-/

namespace ErgoNode.Proof.Utxo
open Lib UtxoState

variable {sr : SigmaRust} {db : Database} {entry : BoxEntry} {boxId : BoxId}
variable {change : StateChange} {newHeight : Nat} {context : BoxMap}

/-! ### Where a spent box is found -/

theorem boxInContext_of_created (sr : SigmaRust) (db : Database) (context : BoxMap)
    (member : boxId ∈ change.created.map BoxEntry.boxId) :
    ∃ entry ∈ change.created, entry.boxId = boxId ∧
      boxInContext sr db change context boxId = .ok (some entry) := by
  obtain ⟨entry, created, same, found⟩ :=
    Store.exists_of_write_puts BoxMap.empty id member
  refine ⟨entry, created, same, ?_⟩
  simp only [boxInContext, BoxMap.insertAll, found]
  rfl

theorem boxInContext_of_context (notCreated : boxId ∉ change.created.map BoxEntry.boxId)
    (found : context boxId = some entry) :
    boxInContext sr db change context boxId = .ok (some entry) := by
  have missing := Store.write_puts_of_not_mem BoxMap.empty id notCreated
  simp only [boxInContext, BoxMap.insertAll, missing, BoxMap.empty, found]
  rfl

theorem boxInContext_of_database (notCreated : boxId ∉ change.created.map BoxEntry.boxId)
    (absent : context boxId = none) :
    boxInContext sr db change context boxId = getBox sr db boxId := by
  have missing := Store.write_puts_of_not_mem BoxMap.empty id notCreated
  simp only [boxInContext, BoxMap.insertAll, missing, BoxMap.empty, absent]

def SoundLookup (lookup : BoxId → StateResult (Option BoxEntry)) : Prop :=
  ∀ ⦃boxId entry⦄, lookup boxId = .ok (some entry) → entry.boxId = boxId

theorem soundLookup_getBox (sound : Sound sr (boxes db.columns)) : SoundLookup (getBox sr db) :=
  fun _ _ found => (getBox_eq_some sound found).1

theorem soundLookup_boxInContext (sound : Sound sr (boxes db.columns)) (contextSound : SoundMap sr context) :
    SoundLookup (boxInContext sr db change context) := by
  intro boxId entry found
  by_cases created : boxId ∈ change.created.map BoxEntry.boxId
  · obtain ⟨other, -, same, first⟩ := boxInContext_of_created sr db context created
    rw [first] at found
    cases found
    exact same
  · rcases inContext : context boxId with _ | other
    · rw [boxInContext_of_database created inContext] at found
      exact soundLookup_getBox sound found
    · rw [boxInContext_of_context created inContext] at found
      cases found
      exact (contextSound inContext).1

/-! ### What a change leaves -/

theorem found_ids {lookup : BoxId → StateResult (Option BoxEntry)} {ids : List BoxId}
    {removed : List BoxEntry} (lookupSound : SoundLookup lookup)
    (found : List.Forall₂ (fun boxId entry => lookup boxId = .ok (some entry)) ids removed) :
    removed.map BoxEntry.boxId = ids := by
  induction found with
  | nil => rfl
  | cons head _ ih => rw [List.map_cons, lookupSound head, ih]

theorem sound_settle {store : BoxStore} (sound : Sound sr store) {created : List BoxEntry}
    (spent : List BoxId) (encodable : ∀ entry ∈ created, Encodable sr entry) :
    Sound sr (store.settle BoxEntry.boxId (stored sr) created spent) := by
  intro boxId box present
  by_cases inCreated : boxId ∈ created.map BoxEntry.boxId
  · obtain ⟨entry, member, same, now⟩ := Store.exists_settle_of_created store
      (stored sr) spent inCreated
    rw [now] at present
    cases present
    exact ⟨entry, same, encodable entry member, rfl⟩
  · rw [Store.settle_of_not_created _ inCreated] at present
    split at present
    · cases present
    · exact sound present

theorem applyChange_built {st after : OnDatabase UtxoState}
    (done : (applyChange sr change newHeight).exec st = (.ok (), after)) :
    ∃ batch, changeToBatch sr st.db st.mem.syncMode (getBox sr st.db) [] change newHeight = .ok batch ∧
      after.db.columns = st.db.columns.write batch ∧
      after.mem = { st.mem with height := newHeight } := by
  simp only [applyChange, Op.exec_bind_eq_ok, Op.exec_get, Op.exec_ofExcept, Prod.mk.injEq,
    Except.ok.injEq, Op.exec_modify] at done
  obtain ⟨_, _, ⟨rfl, rfl⟩, batch, _, ⟨pushed, rfl⟩, _, written, wrote, -, rfl⟩ := done
  simp only [OnDatabase.writeBatch, Op.exec_zoom, Prod.mk.injEq] at wrote
  obtain ⟨ok, rfl⟩ := wrote
  exact ⟨batch, pushed, Database.columns_of_writeBatch_ok (Prod.ext ok rfl), rfl⟩

theorem applyChange_eq_ok {st after : OnDatabase UtxoState}
    (done : (applyChange sr change newHeight).exec st = (.ok (), after)) :
    ∃ removed batch, ChangeBatch sr (getBox sr st.db) [] change newHeight removed batch ∧
      after.db.columns = st.db.columns.write batch ∧
      after.mem = { st.mem with height := newHeight } := by
  obtain ⟨batch, pushed, written, mem⟩ := applyChange_built done
  obtain ⟨removed, spec⟩ := changeToBatch_spec pushed
  exact ⟨removed, batch, spec, written, mem⟩

theorem applyChange_faults {st after : OnDatabase UtxoState}
    (done : (applyChange sr change newHeight).exec st = (.ok (), after)) :
    Database.writeFails st.db.faults = false ∧ after.db.faults = st.db.faults.tail := by
  simp only [applyChange, Op.exec_bind_eq_ok, Op.exec_get, Op.exec_ofExcept, Prod.mk.injEq,
    Except.ok.injEq, Op.exec_modify] at done
  obtain ⟨_, _, ⟨rfl, rfl⟩, batch, _, ⟨-, rfl⟩, _, written, wrote, -, rfl⟩ := done
  simp only [OnDatabase.writeBatch, Op.exec_zoom, Prod.mk.injEq] at wrote
  obtain ⟨ok, rfl⟩ := wrote
  obtain ⟨works, same⟩ := Database.writeBatch_eq_ok_iff.mp (Prod.ext ok rfl)
  exact ⟨works, congrArg Database.faults same⟩

theorem applyChange_eq_error {st after : OnDatabase UtxoState} {error : StateError}
    (failed : (applyChange sr change newHeight).exec st = (.error error, after)) :
    after.db.columns = st.db.columns ∧ after.mem = st.mem := by
  simp only [applyChange, Op.exec_bind_eq_error, Op.exec_get, Op.exec_ofExcept, Prod.mk.injEq, Except.ok.injEq,
    Op.exec_modify, reduceCtorEq, false_and, and_false, exists_false, or_false, false_or] at failed
  obtain ⟨_, _, ⟨rfl, rfl⟩, ⟨-, rfl⟩ | ⟨batch, _, ⟨-, rfl⟩, refused⟩⟩ := failed
  · exact ⟨rfl, rfl⟩
  · simp only [OnDatabase.writeBatch, Op.exec_zoom, Prod.mk.injEq] at refused
    obtain ⟨wrote, rfl⟩ := refused
    exact ⟨Database.columns_of_writeBatch_error (Prod.ext wrote rfl), rfl⟩

theorem sound_applyChange {st after : OnDatabase UtxoState} {change : StateChange} (sound : Sound sr (boxes st.db.columns))
    (done : (applyChange sr change newHeight).exec st = (.ok (), after)) :
    Sound sr (boxes after.db.columns) := by
  obtain ⟨removed, batch, spec, written, -⟩ := applyChange_eq_ok done
  rw [written, spec.boxes_write]
  exact sound_settle sound _ spec.created_encodable

theorem applyChange_of_batch {st : OnDatabase UtxoState} {batch : WriteBatch}
    (writes : st.db.faults = [])
    (pushed : changeToBatch sr st.db st.mem.syncMode (getBox sr st.db) [] change newHeight = .ok batch) :
    (applyChange sr change newHeight).exec st =
      (.ok (), ⟨⟨st.db.columns.write batch, []⟩, { st.mem with height := newHeight }⟩) := by
  simp only [applyChange, Op.exec_bind, Op.exec_get, Op.exec_ofExcept, pushed,
    OnDatabase.writeBatch, Op.exec_zoom, Database.exec_writeBatch_of_faults_nil writes, Op.exec_modify]

/-! ### The unspent boxes -/

def unspent (sr : SigmaRust) (db : Database) : Set BoxEntry :=
  {entry | getBox sr db entry.boxId = .ok (some entry)}

theorem mem_unspent (sound : Sound sr (boxes db.columns)) :
    entry ∈ unspent sr db ↔
      Encodable sr entry ∧ boxes db.columns entry.boxId = some (stored sr entry) := by
  constructor
  · intro found
    exact (getBox_eq_some sound found).2
  · rintro ⟨encodable, present⟩
    exact getBox_of_stored encodable present

/-- A change that can follow `store`: it creates fresh boxes that serialize, and it spends, once
each, boxes that are stored or that it creates. -/
structure ValidChange (sr : SigmaRust) (store : BoxStore) (change : StateChange) : Prop where
  created_encodable : ∀ entry ∈ change.created, Encodable sr entry
  created_distinct : (change.created.map BoxEntry.boxId).Nodup
  created_fresh : ∀ entry ∈ change.created, store entry.boxId = none
  spent_distinct : change.spent.Nodup
  spent_available : ∀ boxId ∈ change.spent,
    store boxId ≠ none ∨ boxId ∈ change.created.map BoxEntry.boxId

/-- The boxes after are those before and the created ones, less the spent ones. -/
def Settles (sr : SigmaRust) (before after : Database) (change : StateChange) : Prop :=
  unspent sr after =
    (unspent sr before ∪ {entry | entry ∈ change.created}) \ {entry | entry.boxId ∈ change.spent}

def NoIntraBlockSpend (change : StateChange) : Prop :=
  ∀ entry ∈ change.created, entry.boxId ∉ change.spent

instance : DecidablePred NoIntraBlockSpend := fun change =>
  inferInstanceAs (Decidable (∀ entry ∈ change.created, entry.boxId ∉ change.spent))

theorem settles_of_settle {before after : Database} (sound : Sound sr (boxes before.columns))
    (valid : ValidChange sr (boxes before.columns) change) (disjoint : NoIntraBlockSpend change)
    (settled : boxes after.columns = (boxes before.columns).settle BoxEntry.boxId (stored sr)
      change.created change.spent) : Settles sr before after change := by
  have soundAfter : Sound sr (boxes after.columns) := by
    rw [settled]
    exact sound_settle sound _ valid.created_encodable
  ext entry
  rw [Set.mem_sdiff, Set.mem_union, mem_unspent soundAfter, mem_unspent sound, settled,
    Set.mem_ofPred_eq, Set.mem_ofPred_eq]
  by_cases created : entry.boxId ∈ change.created.map BoxEntry.boxId
  · obtain ⟨other, member, same⟩ := List.mem_map.mp created
    have fresh := valid.created_fresh other member
    have kept := disjoint other member
    rw [← same, Store.settle_of_created _ valid.created_distinct member, fresh]
    constructor
    · rintro ⟨encodable, equal⟩
      have equal := stored_injective (valid.created_encodable other member) encodable
        (Option.some.inj equal)
      subst equal
      exact ⟨.inr member, kept⟩
    · rintro ⟨⟨-, absent⟩ | inCreated, -⟩
      · cases absent
      · have equal := List.inj_on_of_nodup_map valid.created_distinct member inCreated same
        subst equal
        exact ⟨valid.created_encodable other member, rfl⟩
  · have notMember : entry ∉ change.created := fun member => created (List.mem_map_of_mem member)
    rw [Store.settle_of_not_created _ created]
    by_cases gone : entry.boxId ∈ change.spent <;> simp [gone, notMember]

def ApplyChangeSettles (sr : SigmaRust) (st : OnDatabase UtxoState) (change : StateChange)
    (newHeight : Nat) : Prop :=
  ∃ after, (applyChange sr change newHeight).exec st = (.ok (), after) ∧
    Settles sr st.db after.db change

def BatchedChangeSettles (sr : SigmaRust) (st : OnDatabase UtxoState) (change : StateChange)
    (newHeight : Nat) (context : BoxMap) : Prop :=
  ∃ batch, addChangeToBatchWithContext sr st [] change newHeight context = .ok batch ∧
    Settles sr st.db ⟨st.db.columns.write batch, []⟩ change

section Settle
variable {st : OnDatabase UtxoState} (sound : Sound sr (boxes st.db.columns))
  (valid : ValidChange sr (boxes st.db.columns) change)
include sound valid

theorem stored_of_spent (member : boxId ∈ change.spent)
    (notCreated : boxId ∉ change.created.map BoxEntry.boxId) :
    ∃ entry, entry.boxId = boxId ∧ Encodable sr entry ∧
      boxes st.db.columns boxId = some (stored sr entry) := by
  have present := (valid.spent_available boxId member).resolve_right notCreated
  obtain ⟨box, found⟩ := Option.ne_none_iff_exists'.mp present
  obtain ⟨entry, same, encodable, rfl⟩ := sound found
  exact ⟨entry, same, encodable, found⟩

/-- `applyChange` looks in the database only, where a box of the same block never is. -/
theorem applyChangeSettles_iff (writes : st.db.faults = []) :
    ApplyChangeSettles sr st change newHeight ↔ NoIntraBlockSpend change := by
  constructor
  · rintro ⟨after, done, -⟩ entry created spent
    obtain ⟨removed, batch, spec, -⟩ := applyChange_eq_ok done
    obtain ⟨_, -, found⟩ := exists_right spec.found spent
    rw [getBox_of_none (valid.created_fresh entry created)] at found
    cases found
  · intro disjoint
    have found : ∀ boxId ∈ change.spent, ∃ entry, getBox sr st.db boxId = .ok (some entry) ∧
        Encodable sr entry := by
      intro boxId member
      have notCreated : boxId ∉ change.created.map BoxEntry.boxId := by
        intro created
        obtain ⟨entry, inCreated, rfl⟩ := List.mem_map.mp created
        exact disjoint entry inCreated member
      obtain ⟨entry, -, encodable, present⟩ := stored_of_spent sound valid member notCreated
      exact ⟨entry, getBox_of_stored encodable present, encodable⟩
    obtain ⟨batch, pushed⟩ := changeToBatch_total st.db st.mem.syncMode [] newHeight found
      valid.created_encodable
    obtain ⟨removed, spec⟩ := changeToBatch_spec pushed
    exact ⟨_, applyChange_of_batch writes pushed,
      settles_of_settle sound valid disjoint (spec.boxes_write st.db.columns)⟩

theorem batchedChange_succeeds (newHeight : Nat) (contextSound : SoundMap sr context) :
    ∃ batch, addChangeToBatchWithContext sr st [] change newHeight context = .ok batch := by
  refine changeToBatch_total _ _ _ _ ?_ valid.created_encodable
  intro boxId member
  by_cases created : boxId ∈ change.created.map BoxEntry.boxId
  · obtain ⟨entry, inCreated, -, found⟩ := boxInContext_of_created sr st.db context created
    exact ⟨entry, found, valid.created_encodable entry inCreated⟩
  · rcases inContext : context boxId with _ | entry
    · obtain ⟨entry, -, encodable, found⟩ := stored_of_spent sound valid member created
      exact ⟨entry, (boxInContext_of_database created inContext).trans
        (getBox_of_stored encodable found), encodable⟩
    · exact ⟨entry, boxInContext_of_context created inContext, (contextSound inContext).2⟩

/-- The batch always goes through; its puts come after its deletes, so a box that the change both
creates and spends stays. -/
theorem batchedChangeSettles_iff (contextSound : SoundMap sr context) :
    BatchedChangeSettles sr st change newHeight context ↔ NoIntraBlockSpend change := by
  constructor
  · rintro ⟨batch, pushed, settled⟩ entry created spent
    obtain ⟨removed, spec⟩ := changeToBatch_spec pushed
    have effect := spec.boxes_write st.db.columns
    have soundAfter : Sound sr (boxes (st.db.columns.write batch)) := by
      rw [effect]
      exact sound_settle sound _ valid.created_encodable
    have kept : entry ∈ unspent sr ⟨st.db.columns.write batch, []⟩ := by
      rw [mem_unspent soundAfter, effect]
      exact ⟨valid.created_encodable entry created,
        Store.settle_of_created _ valid.created_distinct created⟩
    rw [settled] at kept
    exact kept.2 spent
  · intro disjoint
    obtain ⟨batch, pushed⟩ := batchedChange_succeeds sound valid newHeight contextSound
    obtain ⟨removed, spec⟩ := changeToBatch_spec pushed
    exact ⟨batch, pushed,
      settles_of_settle sound valid disjoint (spec.boxes_write st.db.columns)⟩

end Settle

/-- Both ways to apply a valid change settle its boxes exactly when it spends none of the boxes
it creates. -/
theorem change_settles_iff {sr : SigmaRust} {st : OnDatabase UtxoState} {change : StateChange}
    (newHeight : Nat) {context : BoxMap} (sound : Sound sr (boxes st.db.columns))
    (writes : st.db.faults = []) (valid : ValidChange sr (boxes st.db.columns) change)
    (contextSound : SoundMap sr context) :
    (ApplyChangeSettles sr st change newHeight ∧
      BatchedChangeSettles sr st change newHeight context) ↔ NoIntraBlockSpend change := by
  rw [applyChangeSettles_iff sound valid writes, batchedChangeSettles_iff sound valid contextSound,
    and_self]

section Samples
open Sample

theorem sound_empty : Sound sr (boxes Database.empty.columns) := by
  intro _ _ present
  cases present

theorem soundMap_empty : SoundMap sr BoxMap.empty := by
  intro _ _ present
  cases present

theorem sound_afterFirst : Sound boxCodec (boxes afterFirst.db.columns) := by
  have done : (applyChange boxCodec firstChange 1).exec fresh = (.ok (), afterFirst) := rfl
  exact sound_applyChange sound_empty done

/-- The second block spends box 1 of the first and creates box 3. -/
theorem change_settles_second_block :
    ApplyChangeSettles boxCodec afterFirst ⟨[sampleEntry 3 2], [.filled 1]⟩ 2 ∧
      BatchedChangeSettles boxCodec afterFirst ⟨[sampleEntry 3 2], [.filled 1]⟩ 2 BoxMap.empty :=
  (change_settles_iff 2 sound_afterFirst rfl
    ⟨by decide, by decide, by decide, by decide, by decide⟩
    soundMap_empty).mpr (by decide)

/-- The second block creates box 3 and spends it again: neither way settles it. -/
theorem intra_block_spend_not_settled :
    ValidChange boxCodec (boxes afterFirst.db.columns) ⟨[sampleEntry 3 2], [.filled 1, .filled 3]⟩ ∧
      ¬ ApplyChangeSettles boxCodec afterFirst ⟨[sampleEntry 3 2], [.filled 1, .filled 3]⟩ 2 ∧
      ¬ BatchedChangeSettles boxCodec afterFirst ⟨[sampleEntry 3 2], [.filled 1, .filled 3]⟩ 2
        BoxMap.empty := by
  have valid : ValidChange boxCodec (boxes afterFirst.db.columns) ⟨[sampleEntry 3 2], [.filled 1, .filled 3]⟩ :=
    ⟨by decide, by decide, by decide, by decide, by decide⟩
  refine ⟨valid, ?_, ?_⟩
  · rw [applyChangeSettles_iff sound_afterFirst valid rfl]
    decide
  · rw [batchedChangeSettles_iff sound_afterFirst valid soundMap_empty]
    decide

end Samples

end ErgoNode.Proof.Utxo
