import ErgoNode.Proof.Utxo.Change

/-!
# Runs of changes

Changes reach the state one by one or several in one batch. Either way a run leaves one undo record
a block; where the overlay of a batch agrees with what the batch will write, each record holds the
boxes its block removed.
-/

namespace ErgoNode.Proof.Utxo
open Lib UtxoState

variable {sr : SigmaRust}

/-! ### Boxes and undo records -/

structure Core where
  boxes : BoxStore
  undo : Nat → Option StoredUndo

def core (columns : Columns) : Core := ⟨boxes columns, columns.column .undoData⟩

namespace Core

def apply (sr : SigmaRust) (before : Core) (change : StateChange) (height : Nat)
    (removed : List BoxEntry) : Core where
  boxes := before.boxes.settle BoxEntry.boxId (stored sr) change.created change.spent
  undo := Function.update before.undo height (some (undoOf sr change height removed))

def takeBack (sr : SigmaRust) (after : Core) (height : Nat) (removed : List BoxEntry)
    (createdBoxIds : List BoxId) : Core where
  boxes := after.boxes.settle BoxEntry.boxId (stored sr) removed createdBoxIds
  undo := Function.update after.undo height none

theorem undo_apply_self (before : Core) (change : StateChange) (height : Nat) (removed : List BoxEntry) :
    (before.apply sr change height removed).undo height = some (undoOf sr change height removed) :=
  Function.update_self ..

theorem undo_apply_of_ne (before : Core) (change : StateChange) {height other : Nat}
    (removed : List BoxEntry) (h : other ≠ height) :
    (before.apply sr change height removed).undo other = before.undo other :=
  Function.update_of_ne h _ _

theorem undo_takeBack_of_ne (after : Core) {height other : Nat} (removed : List BoxEntry)
    (ids : List BoxId) (h : other ≠ height) :
    (after.takeBack sr height removed ids).undo other = after.undo other :=
  Function.update_of_ne h _ _

theorem takeBack_apply {before : Core} {change : StateChange} {height : Nat}
    {removed : List BoxEntry} (fresh : ∀ entry ∈ change.created, before.boxes entry.boxId = none)
    (found : ∀ entry ∈ removed, before.boxes entry.boxId = some (stored sr entry))
    (ids : removed.map BoxEntry.boxId = change.spent) (distinct : change.spent.Nodup)
    (unused : before.undo height = none) :
    (before.apply sr change height removed).takeBack sr height removed
      (change.created.map BoxEntry.boxId) = before := by
  rw [← ids] at distinct
  simp only [takeBack, apply, ← ids, Store.settle_settle _ fresh found distinct,
    Function.update_idem, ← unused, Function.update_eq_self]

end Core

theorem core_write_change {lookup : BoxId → StateResult (Option BoxEntry)}
    {batch result : WriteBatch} {change : StateChange} {height : Nat} {removed : List BoxEntry}
    (spec : ChangeBatch sr lookup batch change height removed result) (columns : Columns) :
    core (columns.write result) = (core (columns.write batch)).apply sr change height removed := by
  rw [core, spec.boxes_write, spec.undo_write]
  rfl

inductive Applied (sr : SigmaRust) (Step : BoxStore → StateChange → List BoxEntry → Prop) :
    Core → Nat → List StateChange → Core → Prop
  | nil {before height} : Applied sr Step before height [] before
  | cons {before height change rest after} (removed : List BoxEntry)
      (step : Step before.boxes change removed)
      (later : Applied sr Step (before.apply sr change (height + 1) removed) (height + 1) rest after) :
      Applied sr Step before height (change :: rest) after

theorem Applied.append {Step : BoxStore → StateChange → List BoxEntry → Prop}
    {before middle after : Core} {height : Nat} {first second : List StateChange}
    (left : Applied sr Step before height first middle)
    (right : Applied sr Step middle (height + first.length) second after) :
    Applied sr Step before height (first ++ second) after := by
  induction left with
  | nil => exact right
  | cons removed step later ih =>
      refine .cons removed step (ih ?_)
      rwa [List.length_cons, ← Nat.add_assoc, Nat.add_right_comm] at right

structure Recorded (sr : SigmaRust) (change : StateChange) (removed : List BoxEntry) : Prop where
  ids : removed.map BoxEntry.boxId = change.spent
  removed_encodable : ∀ entry ∈ removed, Encodable sr entry
  created_encodable : ∀ entry ∈ change.created, Encodable sr entry

theorem Recorded.of_spec {lookup : BoxId → StateResult (Option BoxEntry)}
    {batch result : WriteBatch} {change : StateChange} {height : Nat} {removed : List BoxEntry}
    (spec : ChangeBatch sr lookup batch change height removed result)
    (lookupSound : SoundLookup lookup) : Recorded sr change removed :=
  ⟨found_ids lookupSound spec.found, spec.removed_encodable, spec.created_encodable⟩

structure Exact (sr : SigmaRust) (store : BoxStore) (change : StateChange)
    (removed : List BoxEntry) : Prop extends Recorded sr change removed where
  removed_stored : ∀ entry ∈ removed, store entry.boxId = some (stored sr entry)
  created_fresh : ∀ entry ∈ change.created, store entry.boxId = none
  spent_distinct : change.spent.Nodup

/-! ### Several changes in one batch -/

def addChangesToBatch (sr : SigmaRust) (st : OnDatabase UtxoState) :
    Nat → WriteBatch → BoxMap → List StateChange → StateResult (WriteBatch × BoxMap)
  | _, batch, context, [] => return (batch, context)
  | height, batch, context, change :: rest => do
      let batch ← addChangeToBatchWithContext sr st batch change (height + 1) context
      addChangesToBatch sr st (height + 1) batch (context.afterBlock change) rest

section Batch
variable {st : OnDatabase UtxoState} {change : StateChange} {changes : List StateChange}
variable {height : Nat} {batch result : WriteBatch} {context contextAfter : BoxMap}

theorem afterBlock_eq_some {boxId : BoxId} {entry : BoxEntry} (found : context.afterBlock change boxId = some entry) :
    boxId ∉ change.spent ∧ ((entry ∈ change.created ∧ entry.boxId = boxId) ∨
      (boxId ∉ change.created.map BoxEntry.boxId ∧ context boxId = some entry)) := by
  rw [BoxMap.afterBlock, BoxMap.removeAll, Store.write_deletes] at found
  split at found
  · cases found
  next unspent =>
  refine ⟨unspent, ?_⟩
  by_cases created : boxId ∈ change.created.map BoxEntry.boxId
  · obtain ⟨other, member, same, now⟩ := Store.exists_of_write_puts context id created
    rw [BoxMap.insertAll, now] at found
    cases found
    exact .inl ⟨member, same⟩
  · rw [BoxMap.insertAll, Store.write_puts_of_not_mem _ _ created] at found
    exact .inr ⟨created, found⟩

theorem soundMap_afterBlock (contextSound : SoundMap sr context)
    (encodable : ∀ entry ∈ change.created, Encodable sr entry) :
    SoundMap sr (context.afterBlock change) := by
  intro boxId entry found
  rcases (afterBlock_eq_some found).2 with ⟨created, same⟩ | ⟨-, old⟩
  · exact ⟨same, encodable entry created⟩
  · exact contextSound old

theorem addChangesToBatch_recorded (sound : Sound sr (boxes st.db.columns))
    (contextSound : SoundMap sr context)
    (done : addChangesToBatch sr st height batch context changes = .ok (result, contextAfter)) :
    Applied sr (fun _ => Recorded sr) (core (st.db.columns.write batch)) height changes
      (core (st.db.columns.write result)) := by
  induction changes generalizing height batch context with
  | nil =>
      cases done
      exact .nil
  | cons change rest ih =>
      rw [addChangesToBatch, Except.bind_ok_eq_ok] at done
      obtain ⟨next, pushed, later⟩ := done
      obtain ⟨removed, spec⟩ := changeToBatch_spec pushed
      refine .cons removed (.of_spec spec (soundLookup_boxInContext sound contextSound)) ?_
      rw [← core_write_change spec]
      exact ih (soundMap_afterBlock contextSound spec.created_encodable) later

/-- The overlay of a batch and the database together show the boxes the batch will leave. -/
structure Overlay (sr : SigmaRust) (database pending : BoxStore) (context : BoxMap) : Prop where
  found : ∀ ⦃boxId entry⦄, context boxId = some entry →
    entry.boxId = boxId ∧ Encodable sr entry ∧ pending boxId = some (stored sr entry)
  absent : ∀ ⦃boxId⦄, context boxId = none → pending boxId = none ∨ pending boxId = database boxId

theorem Overlay.empty (store : BoxStore) : Overlay sr store store BoxMap.empty where
  found _ _ present := by cases present
  absent _ _ := .inr rfl

theorem Overlay.lookup {pending : BoxStore} {boxId : BoxId}
    (overlay : Overlay sr (boxes st.db.columns) pending context)
    (sound : Sound sr (boxes st.db.columns))
    (notCreated : boxId ∉ change.created.map BoxEntry.boxId) (present : pending boxId ≠ none) :
    ∃ entry, boxInContext sr st.db change context boxId = .ok (some entry) ∧
      Encodable sr entry ∧ pending boxId = some (stored sr entry) := by
  rcases inContext : context boxId with _ | entry
  · rw [boxInContext_of_database notCreated inContext]
    have same := (overlay.absent inContext).resolve_left present
    obtain ⟨box, found⟩ := Option.ne_none_iff_exists'.mp (same ▸ present)
    obtain ⟨entry, -, encodable, rfl⟩ := sound found
    exact ⟨entry, getBox_of_stored encodable found, encodable, same.trans found⟩
  · obtain ⟨-, encodable, stored⟩ := overlay.found inContext
    exact ⟨entry, boxInContext_of_context notCreated inContext, encodable, stored⟩

theorem Overlay.afterBlock {database pending : BoxStore} (overlay : Overlay sr database pending context)
    (valid : ValidChange sr pending change) (disjoint : NoIntraBlockSpend change) :
    Overlay sr database (pending.settle BoxEntry.boxId (stored sr) change.created change.spent)
      (context.afterBlock change) where
  found := by
    intro boxId entry found
    rcases afterBlock_eq_some found with ⟨unspent, ⟨created, rfl⟩ | ⟨notCreated, old⟩⟩
    · exact ⟨rfl, valid.created_encodable entry created, Store.settle_of_created _ valid.created_distinct created⟩
    · obtain ⟨same, encodable, present⟩ := overlay.found old
      rw [Store.settle_of_not_created _ notCreated, if_neg unspent]
      exact ⟨same, encodable, present⟩
  absent := by
    intro boxId absent
    rw [BoxMap.afterBlock, BoxMap.removeAll, Store.write_deletes] at absent
    by_cases created : boxId ∈ change.created.map BoxEntry.boxId
    · obtain ⟨other, member, rfl, now⟩ := Store.exists_of_write_puts context id created
      rw [if_neg (disjoint other member), BoxMap.insertAll, now] at absent
      cases absent
    · rw [Store.settle_of_not_created _ created]
      split at absent
      · next spent => exact .inl (if_pos spent)
      · next unspent =>
          rw [BoxMap.insertAll, Store.write_puts_of_not_mem _ _ created] at absent
          rw [if_neg unspent]
          exact overlay.absent absent

theorem not_created_of_spent {boxId : BoxId} (disjoint : NoIntraBlockSpend change)
    (spent : boxId ∈ change.spent) : boxId ∉ change.created.map BoxEntry.boxId := by
  intro created
  obtain ⟨entry, member, rfl⟩ := List.mem_map.mp created
  exact disjoint entry member spent

/-- Where each spent box is found as it is stored, the change goes through and its record is exact. -/
theorem exact_of_lookup {store : BoxStore} {lookup : BoxId → StateResult (Option BoxEntry)}
    (db : Database) (skipIndexes : Bool) (batch : WriteBatch) (height : Nat) (valid : ValidChange sr store change)
    (lookupSound : SoundLookup lookup)
    (found : ∀ boxId ∈ change.spent, ∃ entry, lookup boxId = .ok (some entry) ∧ Encodable sr entry ∧
      store boxId = some (stored sr entry)) :
    ∃ result removed, changeToBatch sr db skipIndexes lookup batch change height = .ok result ∧
      ChangeBatch sr lookup batch change height removed result ∧ Exact sr store change removed := by
  obtain ⟨result, pushed⟩ := changeToBatch_total db skipIndexes batch height
    (fun boxId member => (found boxId member).imp fun _ h => ⟨h.1, h.2.1⟩) valid.created_encodable
  obtain ⟨removed, spec⟩ := changeToBatch_spec pushed
  have recorded := Recorded.of_spec spec lookupSound
  refine ⟨result, removed, pushed, spec, recorded, ?_, valid.created_fresh, valid.spent_distinct⟩
  intro entry member
  obtain ⟨boxId, spent, here⟩ := exists_left spec.found member
  obtain ⟨other, same, -, present⟩ := found boxId spent
  rw [here] at same
  cases same
  rw [lookupSound here, present]

end Batch

/-! ### Valid sequences -/

/-- Each change spends, once each, ids that are unspent at that point or that it creates. -/
def Spends (unspent : Set BoxId) : List StateChange → Prop
  | [] => True
  | change :: rest =>
      change.spent.Nodup ∧
      (∀ boxId ∈ change.spent, boxId ∈ unspent ∨ boxId ∈ change.created.map BoxEntry.boxId) ∧
      Spends ((unspent ∪ {boxId | boxId ∈ change.created.map BoxEntry.boxId}) \
        {boxId | boxId ∈ change.spent}) rest

def createdIds (changes : List StateChange) : List BoxId :=
  changes.flatMap fun change => change.created.map BoxEntry.boxId

/-- Changes that can follow `store` one after the other; no id is created twice. -/
structure ValidSequence (sr : SigmaRust) (store : BoxStore) (changes : List StateChange) : Prop where
  encodable : ∀ change ∈ changes, ∀ entry ∈ change.created, Encodable sr entry
  distinct : (createdIds changes).Nodup
  fresh : ∀ boxId ∈ createdIds changes, store boxId = none
  spends : Spends {boxId | store boxId ≠ none} changes

section Valid
variable {store : BoxStore} {change : StateChange} {rest : List StateChange}

theorem createdIds_cons : createdIds (change :: rest) =
    change.created.map BoxEntry.boxId ++ createdIds rest := List.flatMap_cons

theorem ValidSequence.head (valid : ValidSequence sr store (change :: rest)) :
    ValidChange sr store change where
  created_encodable := valid.encodable change List.mem_cons_self
  created_distinct := by
    have distinct := valid.distinct
    rw [createdIds_cons] at distinct
    exact distinct.of_append_left
  created_fresh entry member := by
    apply valid.fresh
    rw [createdIds_cons]
    exact List.mem_append_left _ (List.mem_map_of_mem member)
  spent_distinct := valid.spends.1
  spent_available := valid.spends.2.1

theorem settle_ne_none (created : List BoxEntry) (spent : List BoxId)
    (disjoint : ∀ entry ∈ created, entry.boxId ∉ spent) :
    {boxId | store.settle BoxEntry.boxId (stored sr) created spent boxId ≠ none} =
      ({boxId | store boxId ≠ none} ∪ {boxId | boxId ∈ created.map BoxEntry.boxId}) \
        {boxId | boxId ∈ spent} := by
  ext boxId
  simp only [Set.mem_sdiff, Set.mem_union, Set.mem_ofPred_eq]
  by_cases inCreated : boxId ∈ created.map BoxEntry.boxId
  · obtain ⟨entry, member, rfl, now⟩ := Store.exists_settle_of_created store (stored sr)
      spent inCreated
    simp [now, disjoint entry member, inCreated]
  · rw [Store.settle_of_not_created _ inCreated]
    by_cases gone : boxId ∈ spent <;> simp [gone, inCreated]

theorem ValidSequence.tail (valid : ValidSequence sr store (change :: rest))
    (disjoint : NoIntraBlockSpend change) :
    ValidSequence sr (store.settle BoxEntry.boxId (stored sr) change.created change.spent) rest := by
  have distinct := valid.distinct
  rw [createdIds_cons, List.nodup_append] at distinct
  refine ⟨fun c member => valid.encodable c (List.mem_cons_of_mem _ member), distinct.2.1, ?_, ?_⟩
  · intro boxId member
    have notCreated : boxId ∉ change.created.map BoxEntry.boxId :=
      fun created => distinct.2.2 boxId created boxId member rfl
    have unstored := valid.fresh boxId (by rw [createdIds_cons]; exact List.mem_append_right _ member)
    rw [Store.settle_of_not_created _ notCreated, unstored, ite_self]
  · rw [settle_ne_none _ _ disjoint]
    exact valid.spends.2.2

theorem addChangesToBatch_exact {st : OnDatabase UtxoState} {changes : List StateChange}
    (height : Nat) (batch : WriteBatch) {context : BoxMap}
    (sound : Sound sr (boxes st.db.columns))
    (overlay : Overlay sr (boxes st.db.columns) (boxes (st.db.columns.write batch)) context)
    (valid : ValidSequence sr (boxes (st.db.columns.write batch)) changes)
    (disjoint : ∀ change ∈ changes, NoIntraBlockSpend change) :
    ∃ result contextAfter,
      addChangesToBatch sr st height batch context changes = .ok (result, contextAfter) ∧
      Applied sr (Exact sr) (core (st.db.columns.write batch)) height changes
        (core (st.db.columns.write result)) := by
  induction changes generalizing height batch context with
  | nil => exact ⟨batch, context, rfl, .nil⟩
  | cons change rest ih =>
      have head := disjoint change List.mem_cons_self
      have lookupSound : SoundLookup (boxInContext sr st.db change context) :=
        soundLookup_boxInContext sound fun _ _ found =>
          ⟨(overlay.found found).1, (overlay.found found).2.1⟩
      obtain ⟨next, removed, pushed, spec, exactly⟩ := exact_of_lookup st.db st.mem.syncMode batch
        (height + 1) valid.head lookupSound
        (by
          intro boxId spent
          have notCreated := not_created_of_spent head spent
          exact overlay.lookup sound notCreated
            ((valid.spends.2.1 boxId spent).resolve_right notCreated))
      have settled := spec.boxes_write st.db.columns
      obtain ⟨result, contextAfter, later, applied⟩ := ih (height + 1) next
        (by rw [settled]; exact overlay.afterBlock valid.head head)
        (by rw [settled]; exact valid.tail head)
        (fun c member => disjoint c (List.mem_cons_of_mem _ member))
      refine ⟨result, contextAfter, ?_, .cons removed exactly ?_⟩
      · rw [addChangesToBatch, addChangeToBatchWithContext, pushed]
        exact later
      · rw [← core_write_change spec]
        exact applied

end Valid

end ErgoNode.Proof.Utxo
