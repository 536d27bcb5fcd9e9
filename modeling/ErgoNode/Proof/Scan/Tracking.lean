import ErgoNode.Proof.Scan.Registrations
import Mathlib.Logic.Equiv.List
import Mathlib.Tactic.DeriveEncodable

/-!
# The boxes of scans

A box has one record for all the scans that track it. Calls that read the record before they write it keep what
it says; a box that is added is written over it.
-/

namespace ErgoNode.Proof.Scan
open Lib ScanStorage

/-! ### Records -/

def RoundTrips {T : Type} (json : Serde T) : Prop :=
  ∀ value, ∃ data, json.toVec value = .ok data ∧ json.fromSlice data = .ok value

theorem RoundTrips.deserialize_serialize {T : Type} {json : Serde T} (trips : RoundTrips json) (value : T) :
    json.deserialize (json.serialize value) = some value := by
  obtain ⟨data, written, read⟩ := trips value
  rw [Serde.deserialize, Serde.serialize, written]
  change (json.fromSlice data).toOption = _
  rw [read]
  rfl

section Records
variable {json : ScanJson} {st : ScanStorage} {columns : ScanColumns} {boxId : Bytes} {scanBox : ScanBox}

def tracked (json : ScanJson) (st : ScanStorage) (boxId : Bytes) : Option ScanBox :=
  (cells st.storage.columns (.scanBoxes, boxId)).bind json.scanBox.deserialize

def Keyed (json : ScanJson) (st : ScanStorage) : Prop :=
  ∀ boxId scanBox, tracked json st boxId = some scanBox → scanBox.boxId = boxId

theorem tracked_apply {key : Bytes} {kind : OperationKind Bytes} :
    tracked json (settle st (st.storage.columns.apply ⟨(.scanBoxes, key), kind⟩)) boxId =
      if key = boxId then kind.result.bind json.scanBox.deserialize else tracked json st boxId := by
  unfold tracked settle
  rw [cells_apply]
  by_cases same : key = boxId
  · subst same
    rw [if_pos rfl, Store.apply_same]
  · rw [if_neg same, Store.apply_of_ne]
    exact fun equal => same (Prod.mk.inj equal).2

theorem tracked_put (trips : RoundTrips json.scanBox) {key : Bytes} :
    tracked json (settle st (st.storage.columns.apply
      ⟨(.scanBoxes, key), .put (json.scanBox.serialize scanBox)⟩)) boxId =
      if key = boxId then some scanBox else tracked json st boxId := by
  rw [tracked_apply]
  exact if_congr Iff.rfl (trips.deserialize_serialize scanBox) rfl

theorem keyed_put (trips : RoundTrips json.scanBox) {key : Bytes} (same : scanBox.boxId = key)
    (keyed : Keyed json st) : Keyed json (settle st (st.storage.columns.apply
      ⟨(.scanBoxes, key), .put (json.scanBox.serialize scanBox)⟩)) := by
  intro boxId later there
  rw [tracked_put trips] at there
  split at there
  · next here =>
      cases there
      exact same.trans here
  · exact keyed boxId later there

theorem tracked_apply_scans {key : Bytes} {kind : OperationKind Bytes} :
    tracked json (settle st (st.storage.columns.apply ⟨(.scans, key), kind⟩)) boxId = tracked json st boxId := by
  unfold tracked settle
  rw [cells_apply, Store.apply_of_ne]
  intro equal
  cases equal

end Records

/-! ### Calls that let go of no box -/

/-- Every box stays with its scans, and stays spent once it is. -/
structure Stays (json : ScanJson) (before after : ScanStorage) : Prop where
  keyed : Keyed json before → Keyed json after
  carried : ∀ boxId scanBox, tracked json before boxId = some scanBox → ∃ later,
    tracked json after boxId = some later ∧ scanBox.scanIds ⊆ later.scanIds ∧
      (scanBox.spent = true → later.spent = true)

namespace Stays
variable {json : ScanJson} {before middle after : ScanStorage}

theorem of_same (same : ∀ boxId, tracked json after boxId = tracked json before boxId) : Stays json before after where
  keyed := fun keyed boxId scanBox there => keyed boxId scanBox (same boxId ▸ there)
  carried := fun boxId scanBox there => ⟨scanBox, (same boxId).trans there, List.Subset.refl _, fun spent => spent⟩

theorem refl (st : ScanStorage) : Stays json st st := of_same fun _ => rfl

theorem trans (first : Stays json before middle) (second : Stays json middle after) : Stays json before after where
  keyed := fun keyed => second.keyed (first.keyed keyed)
  carried := by
    intro boxId scanBox there
    obtain ⟨between, here, scans, spent⟩ := first.carried boxId scanBox there
    obtain ⟨later, found, more, still⟩ := second.carried boxId between here
    exact ⟨later, found, List.Subset.trans scans more, fun gone => still (spent gone)⟩

theorem put (trips : RoundTrips json.scanBox) {key : Bytes} {scanBox : ScanBox}
    (same : Keyed json before → scanBox.boxId = key)
    (more : ∀ old, tracked json before key = some old → old.scanIds ⊆ scanBox.scanIds ∧
      (old.spent = true → scanBox.spent = true)) :
    Stays json before (settle before (before.storage.columns.apply
      ⟨(.scanBoxes, key), .put (json.scanBox.serialize scanBox)⟩)) where
  keyed := fun keyed => keyed_put trips (same keyed) keyed
  carried := by
    intro boxId old there
    rw [tracked_put trips]
    split
    · next here => exact ⟨scanBox, rfl, more old (here ▸ there)⟩
    · exact ⟨old, there, List.Subset.refl _, fun spent => spent⟩

end Stays

section Staying
variable {A : Type} {json : ScanJson} {error : StorageError → ScanError} {answer : ScanColumns → A}
variable {order : Iteration Bytes Bytes} {checks : Bool} {before st : ScanStorage}

theorem stays_settle (st : ScanStorage) : Stays json st (settle st st.storage.columns) := .of_same fun _ => rfl

theorem stays_markBoxSpent (trips : RoundTrips json.scanBox) (boxId spendingTxId : Bytes) (spendingHeight : UInt32)
    (stays : Stays json before st) :
    Op.Ends (Stays json before) (markBoxSpent json boxId spendingTxId spendingHeight) st := by
  apply ends_call_bind (stays.trans (stays_settle st))
  split
  · exact stays.trans (stays_settle st)
  · next scanBox found =>
      have here : tracked json st boxId = some scanBox := found
      apply ends_call
      · exact stays.trans ((stays_settle st).trans (stays_settle _))
      · have named : Keyed json (settle st st.storage.columns) →
            (scanBox.markSpent spendingTxId spendingHeight).boxId = boxId := fun keyed => keyed boxId scanBox here
        apply stays.trans ((stays_settle st).trans (.put trips named _))
        intro old there
        have same : tracked json st boxId = some old := there
        rw [here] at same
        cases same
        exact ⟨List.Subset.refl _, fun _ => rfl⟩

theorem stays_processBlock (trips : RoundTrips json.scanBox) (height : UInt32) (createdBoxes : List (Bytes × Bytes))
    (spentBoxIds : List Bytes) (spendingTxId : Bytes) :
    Op.Ends (Stays json st) (processBlock json height createdBoxes spentBoxIds spendingTxId) st := by
  apply Op.Ends.forEach _ spentBoxIds (.refl st)
  intro boxId middle stays
  apply Op.Ends.bind
  · apply ends_call_bind (stays.trans (stays_settle middle))
    split <;> exact stays.trans (stays_settle middle)
  · intro found _ _ stays
    apply Op.Ends.ite
    · exact fun _ => stays_markBoxSpent trips boxId spendingTxId 0 stays
    · exact fun _ => stays

theorem stays_register (request : ScanRequest) : Op.Ends (Stays json st) (register json checks request) st := by
  apply Op.Ends.bind
  · apply Op.Ends.get_bind
    apply Op.Ends.ofExcept_bind (.refl st)
    intro nextScanId _
    exact .of_same fun _ => rfl
  · intro scanId taken _ stays
    apply Op.Ends.mapError
    apply Op.Ends.ofExcept_bind stays
    intro scan _
    apply ends_call_bind (stays.trans (stays_settle taken))
    exact stays.trans (.of_same fun _ => tracked_apply_scans)

theorem stays_loadScans : Op.Ends (Stays json st) (loadScans json order checks) ⟨st.storage, ∅, 1⟩ := by
  apply Op.Ends.bind
  · apply Op.Ends.mapError
    exact ends_call (.of_same fun _ => rfl) (.of_same fun _ => rfl)
  · intro entries loaded _ stays
    apply Op.Ends.get_bind
    apply Op.Ends.ofExcept_bind stays
    intro nextScanId _
    exact stays.trans (.of_same fun _ => rfl)

theorem new_eq_left {storage : ScanDb} :
    ScanStorage.new json order checks storage = left (loadScans json order checks) ⟨storage, ∅, 1⟩ := by
  unfold ScanStorage.new left
  rcases (loadScans json order checks).exec ⟨storage, ∅, 1⟩ with ⟨result, loaded⟩
  cases result with
  | ok _ => rfl
  | error stop => cases stop <;> rfl

theorem left_of_ends {P : ScanStorage → Prop} {call : PanickyScanOp A} {after : ScanStorage} (ends : Op.Ends P call st)
    (taken : left call st = some after) : P after := by
  unfold left at taken
  unfold Op.Ends at ends
  split at taken
  · cases taken
  · next ran =>
      cases taken
      rw [ran] at ends
      exact ends

end Staying

/-! ### Calls that let go of boxes -/

/-- Boxes are taken from scans, and a record goes with the last scan of its box. -/
structure Releases (json : ScanJson) (removed : ScanId → Bytes → Prop) (before after : ScanStorage) : Prop where
  keyed : Keyed json before → Keyed json after
  carried : ∀ boxId scanBox, tracked json before boxId = some scanBox →
    (tracked json after boxId = none ∧ ∀ scanId ∈ scanBox.scanIds, removed scanId boxId) ∨
      ∃ later, tracked json after boxId = some later ∧
        (∀ scanId ∈ scanBox.scanIds, removed scanId boxId ∨ scanId ∈ later.scanIds) ∧
        (scanBox.spent = true → later.spent = true)

section Releasing
variable {json : ScanJson} {order : Iteration Bytes Bytes} {removed : ScanId → Bytes → Prop} {scanId : ScanId}
variable {before st after : ScanStorage} {boxId : Bytes} {scanBox : ScanBox}

theorem Stays.releases (stays : Stays json before after) : Releases json removed before after where
  keyed := stays.keyed
  carried := by
    intro boxId scanBox there
    obtain ⟨later, here, scans, spent⟩ := stays.carried boxId scanBox there
    exact .inr ⟨later, here, fun scanId member => .inr (scans member), spent⟩

def releasedFrom (scanId : ScanId) (scanBox : ScanBox) : Option ScanBox :=
  if (scanBox.withoutScan scanId).scanIds = [] then none else some (scanBox.withoutScan scanId)

theorem result_untracked (trips : RoundTrips json.scanBox) (scanId : ScanId) (scanBox : ScanBox) :
    (untracked json (scanBox.withoutScan scanId)).result.bind json.scanBox.deserialize =
      releasedFrom scanId scanBox := by
  unfold untracked releasedFrom
  split
  · rfl
  · exact trips.deserialize_serialize _

theorem releases_of_released (scanId : ScanId) (removes : ∀ boxId,
    tracked json after boxId = tracked json before boxId ∨ (removed scanId boxId ∧
      tracked json after boxId = (tracked json before boxId).bind (releasedFrom scanId))) :
    Releases json removed before after where
  keyed := by
    intro keyed boxId scanBox there
    rcases removes boxId with same | ⟨-, changed⟩
    · exact keyed boxId scanBox (same ▸ there)
    · rw [changed] at there
      obtain ⟨old, here, left⟩ := Option.bind_eq_some_iff.mp there
      unfold releasedFrom at left
      split at left
      · cases left
      · cases left
        exact keyed boxId old here
  carried := by
    intro boxId scanBox there
    rcases removes boxId with same | ⟨here, changed⟩
    · exact .inr ⟨scanBox, same.trans there, fun id member => .inr member, fun spent => spent⟩
    · rw [there, Option.bind_some] at changed
      unfold releasedFrom at changed
      split at changed
      · next none =>
          refine .inl ⟨changed, fun id member => ?_⟩
          have gone := List.filter_eq_nil_iff.mp none id member
          rw [show id = scanId by simpa using gone]
          exact here
      · refine .inr ⟨_, changed, fun id member => ?_, fun spent => spent⟩
        by_cases same : id = scanId
        · exact .inl (same ▸ here)
        · exact .inr (List.mem_filter.mpr ⟨member, by simpa using same⟩)

theorem releases_stopTracking (trips : RoundTrips json.scanBox) (here : removed scanId boxId) :
    Op.Ends (Releases json removed st) (stopTracking json scanId boxId) st := by
  apply ends_call_bind (stays_settle st).releases
  split
  · exact (stays_settle st).releases
  · next scanBox found =>
      have there : tracked json st boxId = some scanBox := found
      have changed (kind : OperationKind Bytes) (made : untracked json (scanBox.withoutScan scanId) = kind) :
          Releases json removed st (settle (settle st st.storage.columns)
            (st.storage.columns.apply ⟨(.scanBoxes, boxId), kind⟩)) := by
        subst made
        apply releases_of_released scanId
        intro other
        have left := @tracked_apply json (settle st st.storage.columns) other boxId
          (untracked json (scanBox.withoutScan scanId))
        by_cases same : boxId = other
        · subst same
          rw [if_pos rfl, result_untracked trips] at left
          rw [there]
          exact .inr ⟨here, left⟩
        · rw [if_neg same] at left
          exact .inl left
      have failed : Releases json removed st (settle (settle st st.storage.columns) st.storage.columns) :=
        ((stays_settle st).trans (stays_settle _)).releases
      split
      · next made => exact ends_call failed (changed _ made)
      · next value made => exact ends_call failed (changed _ made)

theorem mem_removals {columns : ScanColumns} {kind : OperationKind Bytes} :
    ⟨(.scanBoxes, boxId), kind⟩ ∈ (order.entries (columns .scanBoxes)).filterMap (removal json scanId) ↔
      ∃ data, cells columns (.scanBoxes, boxId) = some data ∧
        removal json scanId (boxId, data) = some ⟨(.scanBoxes, boxId), kind⟩ := by
  rw [List.mem_filterMap]
  constructor
  · rintro ⟨⟨key, data⟩, member, made⟩
    have same := address_of_removal made
    cases same
    exact ⟨data, (Entries.mem_of_perm (order.perm _)).mp member, made⟩
  · rintro ⟨data, there, made⟩
    exact ⟨(boxId, data), (Entries.mem_of_perm (order.perm _)).mpr there, made⟩

theorem cells_removals_of_none {columns : ScanColumns}
    (none : ∀ data ∈ cells columns (.scanBoxes, boxId), removal json scanId (boxId, data) = none) :
    (cells columns).write ((order.entries (columns .scanBoxes)).filterMap (removal json scanId)) (.scanBoxes, boxId) =
      cells columns (.scanBoxes, boxId) := by
  apply Store.write_of_forall_ne
  rintro ⟨_, kind⟩ member rfl
  obtain ⟨data, there, made⟩ := mem_removals.mp member
  rw [none data there] at made
  cases made

theorem cells_removals_of_some {columns : ScanColumns} {kind : OperationKind Bytes} {data : Bytes}
    (found : cells columns (.scanBoxes, boxId) = some data)
    (made : removal json scanId (boxId, data) = some ⟨(.scanBoxes, boxId), kind⟩) :
    (cells columns).write ((order.entries (columns .scanBoxes)).filterMap (removal json scanId)) (.scanBoxes, boxId) =
      kind.result := by
  apply Store.write_of_agree
  · exact ⟨kind, mem_removals.mpr ⟨data, found, made⟩⟩
  · intro other there
    obtain ⟨again, same, making⟩ := mem_removals.mp there
    rw [found] at same
    cases same
    rw [made] at making
    cases making
    rfl

theorem tracked_removals (trips : RoundTrips json.scanBox) :
    tracked json (settle st (st.storage.columns.write
      ((order.entries (st.storage.columns .scanBoxes)).filterMap (removal json scanId)))) boxId =
      (tracked json st boxId).bind fun scanBox =>
        if scanId ∈ scanBox.scanIds then releasedFrom scanId scanBox else some scanBox := by
  unfold tracked settle
  rw [cells_write]
  cases found : cells st.storage.columns (.scanBoxes, boxId) with
  | none =>
      rw [cells_removals_of_none, found]
      · rfl
      · intro data there
        rw [found] at there
        cases there
  | some data =>
      rw [Option.bind_some]
      have unchanged (none : removal json scanId (boxId, data) = none) :=
        @cells_removals_of_none json order scanId boxId st.storage.columns fun other there => by
          rw [found] at there
          cases there
          exact none
      cases read : json.scanBox.deserialize data with
      | none =>
          rw [unchanged, found, Option.bind_some, read]
          · rfl
          · rw [removal, read]
            rfl
      | some scanBox =>
          have made : removal json scanId (boxId, data) = if scanId ∈ scanBox.scanIds then
              some ⟨(.scanBoxes, boxId), untracked json (scanBox.withoutScan scanId)⟩ else none := by
            rw [removal, read]
            rfl
          rw [Option.bind_some]
          by_cases member : scanId ∈ scanBox.scanIds
          · rw [if_pos member] at made ⊢
            rw [cells_removals_of_some found made, result_untracked trips]
          · rw [if_neg member] at made ⊢
            rw [unchanged made, found, Option.bind_some, read]

theorem releases_deregister (trips : RoundTrips json.scanBox) (here : ∀ boxId, removed scanId boxId) :
    Op.Ends (Releases json removed st) (deregister json order scanId) st := by
  apply Op.Ends.get_bind
  apply Op.Ends.ite
  · exact fun _ => (Stays.refl st).releases
  · intro _
    apply ends_call_bind (stays_settle st).releases
    have deleted (boxId : Bytes) : tracked json (settle st (st.storage.columns.apply
        ⟨(.scans, scanKey scanId), .delete⟩)) boxId = tracked json st boxId := tracked_apply_scans
    apply Op.Ends.bind
    · apply ends_call_bind
      · exact Stays.releases (.of_same deleted)
      · apply ends_call
        · exact Stays.releases (.of_same deleted)
        · apply releases_of_released scanId
          intro boxId
          have written := @tracked_removals json order scanId
            (settle st (st.storage.columns.apply ⟨(.scans, scanKey scanId), .delete⟩)) boxId trips
          rw [deleted] at written
          cases there : tracked json st boxId with
          | none =>
              rw [there] at written
              exact .inl written
          | some scanBox =>
              rw [there, Option.bind_some] at written
              by_cases member : scanId ∈ scanBox.scanIds
              · rw [if_pos member] at written
                exact .inr ⟨here boxId, written⟩
              · rw [if_neg member] at written
                exact .inl written
    · intro _ _ _ released
      exact ⟨released.keyed, released.carried⟩

end Releasing

/-! ### Boxes listed for a scan -/

section Listing
variable {json : ScanJson} {order : Iteration Bytes Bytes} {st : ScanStorage} {scanId : ScanId} {boxId : Bytes}

def healthy (st : ScanStorage) : ScanStorage := { st with storage := ⟨st.storage.columns, []⟩ }

def Lists (json : ScanJson) (order : Iteration Bytes Bytes) (st : ScanStorage) (scanId : ScanId) (boxId : Bytes) :
    Prop :=
  ∃ boxes, (((getUnspentBoxes json order scanId).exec (healthy st)).1 = .ok boxes ∨
    ((getSpentBoxes json order scanId).exec (healthy st)).1 = .ok boxes) ∧ ∃ scanBox ∈ boxes, scanBox.boxId = boxId

theorem mem_boxesOf {spent : Bool} {scanBox : ScanBox} :
    scanBox ∈ boxesOf json spent scanId (order.entries (st.storage.columns .scanBoxes)) ↔
      (∃ key, tracked json st key = some scanBox) ∧ scanBox.spent = spent ∧ scanId ∈ scanBox.scanIds := by
  unfold boxesOf
  rw [List.mem_filter, List.mem_filterMap, decide_eq_true_iff]
  apply and_congr_left'
  constructor
  · rintro ⟨⟨key, data⟩, member, read⟩
    have found : cells st.storage.columns (.scanBoxes, key) = some data :=
      (Entries.mem_of_perm (order.perm _)).mp member
    exact ⟨key, by rw [tracked, found, Option.bind_some, read]⟩
  · rintro ⟨key, there⟩
    obtain ⟨data, found, read⟩ := Option.bind_eq_some_iff.mp there
    exact ⟨(key, data), (Entries.mem_of_perm (order.perm _)).mpr found, read⟩

theorem lists_iff (keyed : Keyed json st) : Lists json order st scanId boxId ↔
    ∃ scanBox, tracked json st boxId = some scanBox ∧ scanId ∈ scanBox.scanIds := by
  have unspent : ((getUnspentBoxes json order scanId).exec (healthy st)).1 =
      .ok (boxesOf json false scanId (order.entries (st.storage.columns .scanBoxes))) := rfl
  have spent : ((getSpentBoxes json order scanId).exec (healthy st)).1 =
      .ok (boxesOf json true scanId (order.entries (st.storage.columns .scanBoxes))) := rfl
  unfold Lists
  rw [unspent, spent]
  constructor
  · rintro ⟨boxes, answer, scanBox, member, rfl⟩
    have listed : ∃ spent, scanBox ∈ boxesOf json spent scanId (order.entries (st.storage.columns .scanBoxes)) := by
      rcases answer with same | same
      · exact ⟨false, Except.ok.inj same ▸ member⟩
      · exact ⟨true, Except.ok.inj same ▸ member⟩
    obtain ⟨spent, listed⟩ := listed
    obtain ⟨⟨key, there⟩, -, scans⟩ := mem_boxesOf.mp listed
    obtain rfl := keyed key scanBox there
    exact ⟨scanBox, there, scans⟩
  · rintro ⟨scanBox, there, scans⟩
    have listed := (@mem_boxesOf json order st scanId scanBox.spent scanBox).mpr ⟨⟨boxId, there⟩, rfl, scans⟩
    cases same : scanBox.spent with
    | false => exact ⟨_, .inl rfl, scanBox, same ▸ listed, keyed boxId scanBox there⟩
    | true => exact ⟨_, .inr rfl, scanBox, same ▸ listed, keyed boxId scanBox there⟩

end Listing

/-! ### What every step keeps -/

def Removes : Action → ScanId → Bytes → Prop
  | .stopTracking scanId boxId, id, key => id = scanId ∧ key = boxId
  | .deregister scanId, id, _ => id = scanId
  | _, _, _ => False

/-- A box keeps each scan that it is not taken from on purpose, a spent box is not unspent again, and a scan
lists its boxes until they are taken from it. -/
structure Keeps (json : ScanJson) (order : Iteration Bytes Bytes) (action : Action) (before after : ScanStorage) :
    Prop where
  scans : ∀ boxId scanBox, tracked json before boxId = some scanBox → ∀ scanId ∈ scanBox.scanIds,
    Removes action scanId boxId ∨ ∃ later, tracked json after boxId = some later ∧ scanId ∈ later.scanIds
  spent : ∀ boxId scanBox later, tracked json before boxId = some scanBox → tracked json after boxId = some later →
    scanBox.spent = true → later.spent = true
  lists : ∀ scanId boxId, Lists json order before scanId boxId →
    Removes action scanId boxId ∨ Lists json order after scanId boxId

/-- The box is added with all the scans it has, and as spent if it is, unless its record is not written. -/
def Merging (json : ScanJson) (st : ScanStorage) (scanBox : ScanBox) : Prop :=
  Database.writeFails st.storage.faults = true ∨ ∀ old ∈ tracked json st scanBox.boxId,
    old.scanIds ⊆ scanBox.scanIds ∧ (old.spent = true → scanBox.spent = true)

def added : Action → Option ScanBox
  | .addBox scanBox => some scanBox
  | .addBoxToScans boxId scanIds inclusionHeight confirmationsNum boxData =>
      some (.new boxId scanIds inclusionHeight confirmationsNum boxData)
  | _ => none

/-- A box that is added again comes with what its record says. -/
def Merges (json : ScanJson) (st : ScanStorage) (action : Action) : Prop :=
  ∀ scanBox ∈ added action, Merging json st scanBox

instance (json : ScanJson) (st : ScanStorage) (scanBox : ScanBox) : Decidable (Merging json st scanBox) :=
  inferInstanceAs (Decidable (_ ∨ ∀ old ∈ tracked json st scanBox.boxId, (_ : List ScanId) ⊆ _ ∧ (_ → _)))

instance (json : ScanJson) (st : ScanStorage) (action : Action) : Decidable (Merges json st action) :=
  inferInstanceAs (Decidable (∀ scanBox ∈ added action, Merging json st scanBox))

section Keeping
variable {json : ScanJson} {order : Iteration Bytes Bytes} {checks : Bool} {action : Action}
variable {before after st : ScanStorage} {scanBox : ScanBox}

theorem Releases.keeps (released : Releases json (Removes action) before after) (keyed : Keyed json before) :
    Keeps json order action before after := by
  have scans (boxId : Bytes) (scanBox : ScanBox) (there : tracked json before boxId = some scanBox)
      (scanId : ScanId) (member : scanId ∈ scanBox.scanIds) : Removes action scanId boxId ∨
        ∃ later, tracked json after boxId = some later ∧ scanId ∈ later.scanIds := by
    rcases released.carried boxId scanBox there with ⟨-, all⟩ | ⟨later, here, kept, -⟩
    · exact .inl (all scanId member)
    · exact (kept scanId member).imp_right fun still => ⟨later, here, still⟩
  constructor
  · exact scans
  · intro boxId scanBox later there here spent
    rcases released.carried boxId scanBox there with ⟨gone, -⟩ | ⟨other, same, -, still⟩
    · rw [gone] at here
      cases here
    · rw [here] at same
      cases same
      exact still spent
  · intro scanId boxId listed
    obtain ⟨scanBox, there, member⟩ := (lists_iff keyed).mp listed
    exact (scans boxId scanBox there scanId member).imp_right (lists_iff (released.keyed keyed)).mpr

theorem exec_addBox : ((addBox json scanBox).exec st).2 = if Database.writeFails st.storage.faults then
    settle st st.storage.columns else settle st (st.storage.columns.apply
      ⟨(.scanBoxes, scanBox.boxId), .put (json.scanBox.serialize scanBox)⟩) := by
  rw [addBox, ScanDb.put, exec_call]
  split <;> rfl

/-- A box that is added takes the place of its record, so just what it says is kept. -/
theorem keeps_addBox_iff (trips : RoundTrips json.scanBox) (keyed : Keyed json st)
    (adds : ∀ scanId boxId, ¬ Removes action scanId boxId) :
    Keeps json order action st ((addBox json scanBox).exec st).2 ↔ Merging json st scanBox := by
  rw [exec_addBox]
  constructor
  · intro keeps
    rw [Merging, or_iff_not_imp_left]
    intro works old there
    rw [if_neg works] at keeps
    have now : tracked json (settle st (st.storage.columns.apply
        ⟨(.scanBoxes, scanBox.boxId), .put (json.scanBox.serialize scanBox)⟩)) scanBox.boxId = some scanBox := by
      rw [tracked_put trips, if_pos rfl]
    constructor
    · intro scanId member
      rcases keeps.scans scanBox.boxId old there scanId member with removed | ⟨later, here, still⟩
      · exact (adds _ _ removed).elim
      · rw [now] at here
        cases here
        exact still
    · exact keeps.spent scanBox.boxId old scanBox there now
  · intro merging
    split
    · exact (stays_settle st).releases.keeps keyed
    · next works =>
        have more := merging.resolve_left works
        have stays : Stays json st (settle st (st.storage.columns.apply
            ⟨(.scanBoxes, scanBox.boxId), .put (json.scanBox.serialize scanBox)⟩)) :=
          .put trips (fun _ => rfl) fun old there => more old there
        exact stays.releases.keeps keyed

theorem keyed_fresh (faults : List Bool) : Keyed json (fresh faults) := by
  intro boxId scanBox there
  cases there

theorem keyed_addBox (trips : RoundTrips json.scanBox) (keyed : Keyed json st) :
    Keyed json ((addBox json scanBox).exec st).2 := by
  rw [exec_addBox]
  split
  · exact (stays_settle st).keyed keyed
  · exact keyed_put trips rfl keyed

theorem step_of_added (adds : added action = some scanBox) :
    step json order checks st action = some ((addBox json scanBox).exec st).2 ∧
      ∀ scanId boxId, ¬ Removes action scanId boxId := by
  cases action with
  | addBox other =>
      cases adds
      exact ⟨rfl, fun _ _ removed => removed⟩
  | addBoxToScans boxId scanIds inclusionHeight confirmationsNum boxData =>
      cases adds
      exact ⟨rfl, fun _ _ removed => removed⟩
  | _ => cases adds

theorem releases_step (trips : RoundTrips json.scanBox) (none : added action = none)
    (taken : step json order checks st action = some after) : Releases json (Removes action) st after := by
  cases action with
  | register request => exact (left_of_ends (stays_register request) taken).releases
  | restart =>
      rw [step, new_eq_left] at taken
      exact (left_of_ends stays_loadScans taken).releases
  | deregister scanId =>
      cases taken
      exact releases_deregister trips fun _ => rfl
  | addBox scanBox => cases none
  | addBoxToScans boxId scanIds inclusionHeight confirmationsNum boxData => cases none
  | stopTracking scanId boxId =>
      cases taken
      exact releases_stopTracking trips ⟨rfl, rfl⟩
  | markBoxSpent boxId spendingTxId spendingHeight =>
      cases taken
      exact (stays_markBoxSpent trips boxId spendingTxId spendingHeight (.refl st)).releases
  | processBlock height createdBoxes spentBoxIds spendingTxId =>
      cases taken
      exact (stays_processBlock trips height createdBoxes spentBoxIds spendingTxId).releases

theorem keyed_step (trips : RoundTrips json.scanBox) (keyed : Keyed json st)
    (taken : step json order checks st action = some after) : Keyed json after := by
  cases adds : added action with
  | none => exact (releases_step trips adds taken).keyed keyed
  | some scanBox =>
      rw [(step_of_added adds).1] at taken
      cases taken
      exact keyed_addBox trips keyed

theorem keeps_step_iff (trips : RoundTrips json.scanBox) (keyed : Keyed json st) :
    (∀ after, step json order checks st action = some after → Keeps json order action st after) ↔
      Merges json st action := by
  unfold Merges
  cases adds : added action with
  | none =>
      apply iff_of_true
      · exact fun after taken => (releases_step trips adds taken).keeps keyed
      · intro scanBox member
        cases member
  | some scanBox =>
      obtain ⟨taken, unremoved⟩ := @step_of_added json order checks action st scanBox adds
      have keeps := @keeps_addBox_iff json order action st scanBox trips keyed unremoved
      rw [taken]
      simpa using keeps

/-- Along every run of a node, whichever calls fail, boxes keep their scans and stay spent just when each box that
is added again comes with what its record says. -/
theorem keeps_iff_merges (trips : RoundTrips json.scanBox) {faults : List Bool} {path : List Action} :
    Along (step json order checks)
        (fun st action => ∀ after, step json order checks st action = some after → Keeps json order action st after)
        (fresh faults) path ↔
      Along (step json order checks) (Merges json) (fresh faults) path := by
  have start : Keyed json (fresh faults) := keyed_fresh faults
  apply along_iff_along _ _ start along_true
  · exact fun keyed _ => keeps_step_iff trips keyed
  · exact fun keyed _ _ taken => keyed_step trips keyed taken

end Keeping

/-! ### A box of two scans -/

instance encodableUInt8 : Encodable UInt8 := .ofLeftInverse UInt8.toNat UInt8.ofNat fun _ => UInt8.ofNat_toNat
instance encodableUInt32 : Encodable UInt32 := .ofLeftInverse UInt32.toNat UInt32.ofNat fun _ => UInt32.ofNat_toNat
instance encodableInt16 : Encodable Int16 := .ofLeftInverse Int16.toInt Int16.ofInt fun _ => Int16.ofInt_toInt _
deriving instance Encodable for ScanBox

def digits (n : Nat) : Bytes := (Nat.toDigits 10 n).map fun digit => UInt8.ofNat digit.toNat

def arrayText (items : List Bytes) : Bytes :=
  Utf8.encode "[" ++ (items.intersperse (Utf8.encode ",")).flatten ++ Utf8.encode "]"

def bytesText (bytes : Bytes) : Bytes := arrayText (bytes.map fun byte => digits byte.toNat)

def scanIdText (scanId : ScanId) : Bytes :=
  if scanId < 0 then Utf8.encode "-" ++ digits scanId.toInt.natAbs else digits scanId.toInt.natAbs

def optionText {A : Type} (text : A → Bytes) (value : Option A) : Bytes := (value.map text).getD (Utf8.encode "null")

def boxText (scanBox : ScanBox) : Bytes := List.flatten [
  Utf8.encode "\x7b\"boxId\":", bytesText scanBox.boxId,
  Utf8.encode ",\"scanIds\":", arrayText (scanBox.scanIds.map scanIdText),
  Utf8.encode ",\"spent\":", Utf8.encode (if scanBox.spent then "true" else "false"),
  Utf8.encode ",\"spendingTxId\":", optionText bytesText scanBox.spendingTxId,
  Utf8.encode ",\"spendingHeight\":", optionText (fun height => digits height.toNat) scanBox.spendingHeight,
  Utf8.encode ",\"inclusionHeight\":", digits scanBox.inclusionHeight.toNat,
  Utf8.encode ",\"confirmationsNum\":", digits scanBox.confirmationsNum.toNat,
  Utf8.encode ",\"boxData\":", bytesText scanBox.boxData, Utf8.encode "\x7d"]

def firstBox : ScanBox := .new [1, 2] [1] 100 0 [5]
def sharedBox : ScanBox := .new [1, 2] [1, 2] 100 0 [5]
def otherBox : ScanBox := .new [1, 2] [2] 100 0 [5]
def sampleBoxes : List ScanBox := [firstBox, sharedBox, otherBox]

def sampleBoxSerde : Serde ScanBox where
  toVec scanBox := .ok (if scanBox ∈ sampleBoxes then boxText scanBox else List.replicate (Encodable.encode scanBox) 0)
  fromSlice data :=
    match sampleBoxes.find? fun scanBox => boxText scanBox = data with
    | some scanBox => .ok scanBox
    | none =>
        match Encodable.decode data.length with
        | some scanBox => .ok scanBox
        | none => .error "not in the table"

theorem sampleBoxSerde_roundTrips : RoundTrips sampleBoxSerde := by
  have apart : (sampleBoxes.map boxText).Nodup := by decide +kernel
  have texts : ∀ a ∈ sampleBoxes, (boxText a).head? = some 123 := by decide +kernel
  intro scanBox
  refine ⟨_, rfl, ?_⟩
  unfold sampleBoxSerde
  dsimp only
  by_cases member : scanBox ∈ sampleBoxes
  · rw [if_pos member]
    cases found : sampleBoxes.find? fun other => boxText other = boxText scanBox with
    | none => exact (List.find?_eq_none.mp found scanBox member (decide_eq_true rfl)).elim
    | some other =>
        have same : boxText other = boxText scanBox := by simpa using List.find?_some found
        rw [List.inj_on_of_nodup_map apart (List.mem_of_find?_eq_some found) member same]
  · rw [if_neg member]
    have none : (sampleBoxes.find? fun other => boxText other = List.replicate (Encodable.encode scanBox) 0) = none := by
      apply List.find?_eq_none.mpr
      intro other there same
      have head := texts other there
      rw [of_decide_eq_true same] at head
      cases count : Encodable.encode scanBox with
      | zero => simp [count] at head
      | succ count => simp [count, List.replicate_succ] at head
    rw [none, List.length_replicate, Encodable.encodek]

def sampleBoxJson : ScanJson := ⟨Registry.allBoxesSerde, sampleBoxSerde⟩

/-- A box is added for a scan and again for two, and is taken from the first scan. -/
def mergedPath : List Action :=
  [.addBoxToScans [1, 2] [1] 100 0 [5], .addBoxToScans [1, 2] [1, 2] 100 0 [5], .stopTracking 1 [1, 2]]

theorem mergedPath_keeps :
    Along (step sampleBoxJson Registry.entryOrder true)
      (fun st action => ∀ after, step sampleBoxJson Registry.entryOrder true st action = some after →
        Keeps sampleBoxJson Registry.entryOrder action st after) (fresh []) mergedPath :=
  (keeps_iff_merges sampleBoxSerde_roundTrips).mpr (by decide +kernel)

def overwritingPath : List Action := [.addBoxToScans [1, 2] [1] 100 0 [5], .addBoxToScans [1, 2] [2] 100 0 [5]]

theorem overwritingPath_loses :
    ¬ Along (step sampleBoxJson Registry.entryOrder true)
      (fun st action => ∀ after, step sampleBoxJson Registry.entryOrder true st action = some after →
        Keeps sampleBoxJson Registry.entryOrder action st after) (fresh []) overwritingPath := by
  intro along
  have later := (along_cons.mp along).2 _ rfl
  have keyed := keyed_step sampleBoxSerde_roundTrips (keyed_fresh []) (show step sampleBoxJson Registry.entryOrder true
    (fresh []) (.addBoxToScans [1, 2] [1] 100 0 [5]) = some _ from rfl)
  have merges := (keeps_step_iff sampleBoxSerde_roundTrips keyed).mp (along_cons.mp later).1
  exact absurd merges (by decide +kernel)

end ErgoNode.Proof.Scan
