import ErgoNode.Lib.Entries
import ErgoNode.Lib.Run
import ErgoNode.Storage.Scan

/-!
# The ids of scans

A scan gets the id after the last one that was given, or after the highest one that was loaded when the node
started. The ids stay apart as long as the node does not start without the scan whose id is the highest.
-/

namespace ErgoNode.Proof.Scan
open Lib ScanStorage

/-! ### Calls to the storage -/

section Calls
variable {A : Type} {error : StorageError → ScanError} {answer : ScanColumns → A}
variable {change : ScanColumns → ScanColumns} {st : ScanStorage} {P : ScanStorage → Prop}

def settle (st : ScanStorage) (columns : ScanColumns) : ScanStorage :=
  { st with storage := ⟨columns, st.storage.faults.tail⟩ }

theorem exec_call : (onStorage error (ScanDb.call answer change)).exec st =
    if Database.writeFails st.storage.faults then (.error (error .database), settle st st.storage.columns)
    else (.ok (answer st.storage.columns), settle st (change st.storage.columns)) := by
  rw [onStorage, Op.exec_mapError, Op.exec_zoom, ScanDb.exec_call]
  split <;> rfl

theorem ends_call (failed : P (settle st st.storage.columns))
    (changed : P (settle st (change st.storage.columns))) :
    Op.Ends P (onStorage error (ScanDb.call answer change)) st := by
  unfold Op.Ends
  rw [exec_call]
  split
  · exact failed
  · exact changed

theorem ends_call_bind {B : Type} {rest : A → ScanOp B} (failed : P (settle st st.storage.columns))
    (later : Op.Ends P (rest (answer st.storage.columns)) (settle st (change st.storage.columns))) :
    Op.Ends P (onStorage error (ScanDb.call answer change) >>= rest) st := by
  unfold Op.Ends at later ⊢
  rw [Op.exec_bind, exec_call]
  cases Database.writeFails st.storage.faults with
  | true => exact failed
  | false => exact later

end Calls

section Columns
variable {columns : ScanColumns} {op : ScanOperation} {batch : List ScanOperation}

def cells (columns : ScanColumns) : Store fun _ : ScanColumn × Bytes => Bytes :=
  fun address => (columns address.1).lookup address.2

theorem cells_apply : cells (columns.apply op) = (cells columns).apply op := by
  obtain ⟨⟨column, place⟩, kind⟩ := op
  funext ⟨cf, key⟩
  unfold cells ScanColumns.apply Store.apply
  by_cases same : (cf, key) = (column, place)
  · cases same
    cases kind <;> simp
  · rw [Function.update_of_ne same]
    by_cases here : cf = column
    · subst here
      have apart : key ≠ place := fun equal => same (by rw [equal])
      dsimp only
      rw [Function.update_self]
      cases kind with
      | put value => exact AList.lookup_insert_ne apart
      | delete => exact AList.lookup_erase_ne apart
    · dsimp only
      rw [Function.update_of_ne here]

theorem cells_write : cells (columns.write batch) = (cells columns).write batch := by
  induction batch generalizing columns with
  | nil => rfl
  | cons op batch ih =>
      change cells ((columns.apply op).write batch) = _
      rw [ih, cells_apply, Store.write_cons]

end Columns

/-! ### What a node may do -/

inductive Action where
  | register (request : ScanRequest)
  | deregister (scanId : ScanId)
  | restart
  | addBox (scanBox : ScanBox)
  | addBoxToScans (boxId : Bytes) (scanIds : List ScanId) (inclusionHeight confirmationsNum : UInt32) (boxData : Bytes)
  | stopTracking (scanId : ScanId) (boxId : Bytes)
  | markBoxSpent (boxId spendingTxId : Bytes) (spendingHeight : UInt32)
  | processBlock (height : UInt32) (createdBoxes : List (Bytes × Bytes)) (spentBoxIds : List Bytes)
      (spendingTxId : Bytes)

section Steps
variable (json : ScanJson) (order : Iteration Bytes Bytes) (checks : Bool)

def left {A : Type} (call : PanickyScanOp A) (st : ScanStorage) : Option ScanStorage :=
  match call.exec st with
  | (.error .panic, _) => none
  | (_, after) => some after

def step (st : ScanStorage) : Action → Option ScanStorage
  | .register request => left (register json checks request) st
  | .deregister scanId => some ((deregister json order scanId).exec st).2
  | .restart => ScanStorage.new json order checks st.storage
  | .addBox scanBox => some ((addBox json scanBox).exec st).2
  | .addBoxToScans boxId scanIds inclusionHeight confirmationsNum boxData =>
      some ((addBoxToScans json boxId scanIds inclusionHeight confirmationsNum boxData).exec st).2
  | .stopTracking scanId boxId => some ((stopTracking json scanId boxId).exec st).2
  | .markBoxSpent boxId spendingTxId spendingHeight =>
      some ((markBoxSpent json boxId spendingTxId spendingHeight).exec st).2
  | .processBlock height createdBoxes spentBoxIds spendingTxId =>
      some ((processBlock json height createdBoxes spentBoxIds spendingTxId).exec st).2

end Steps

def fresh (faults : List Bool) : ScanStorage := ⟨⟨fun _ => ∅, faults⟩, ∅, 1⟩

section Ids
variable {checks : Bool} {scanId : ScanId}

theorem following_of_lt (room : scanId < Int16.maxValue) : following checks scanId = .ok (scanId + 1) := by
  unfold following
  rw [if_neg]
  rintro ⟨-, rfl⟩
  exact absurd room (by decide)

theorem toInt_following (room : scanId < Int16.maxValue) : (scanId + 1).toInt = scanId.toInt + 1 := by
  have high : scanId.toInt < 32767 := Int16.lt_iff_toInt_lt.mp room
  have low := scanId.le_toInt
  rw [Int16.toInt_add, Int.bmod_eq_of_le] <;> simp <;> omega

theorem lt_following {other : ScanId} (le : other ≤ scanId) (room : scanId < Int16.maxValue) : other < scanId + 1 := by
  have below := Int16.le_iff_toInt_le.mp le
  rw [Int16.lt_iff_toInt_lt, toInt_following room]
  omega

end Ids

/-! ### Loading -/

section Loading
variable {json : ScanJson} {order : Iteration Bytes Bytes} {checks : Bool} {storage : ScanDb}
variable {scans : List Scan} {scan : Scan} {scanId : ScanId} {start : ScanId × Table ScanId Scan}

def storedScans (json : ScanJson) (columns : ScanColumns) : List Scan :=
  (columns .scans).entries.filterMap fun entry => json.scan.deserialize entry.2

def loadScan (loaded : ScanId × Table ScanId Scan) (scan : Scan) : ScanId × Table ScanId Scan :=
  (if scan.scanId > loaded.1 then scan.scanId else loaded.1, loaded.2.insert scan.scanId scan)

theorem foldl_loadEntry {entries : List (Bytes × Bytes)} : entries.foldl (loadEntry json) start =
    (entries.filterMap fun entry => json.scan.deserialize entry.2).foldl loadScan start := by
  rw [List.foldl_filterMap]
  congr 1
  funext loaded entry
  unfold loadEntry
  cases json.scan.deserialize entry.2 <;> rfl

theorem start_le_loaded : start.1 ≤ (scans.foldl loadScan start).1 := by
  induction scans generalizing start with
  | nil => exact Int16.le_refl _
  | cons scan rest ih =>
      apply Int16.le_trans _ ih
      unfold loadScan
      dsimp only
      split
      · next higher => exact Int16.le_of_lt higher
      · exact Int16.le_refl _

theorem le_loaded (member : scan ∈ scans) : scan.scanId ≤ (scans.foldl loadScan start).1 := by
  induction scans generalizing start with
  | nil => cases member
  | cons first rest ih =>
      cases member with
      | tail _ later => exact ih later
      | head =>
          rw [List.foldl_cons]
          apply Int16.le_trans _ start_le_loaded
          unfold loadScan
          dsimp only
          split
          · exact Int16.le_refl _
          · next lower => exact Int16.not_lt.mp lower

theorem loaded_eq_or : (scans.foldl loadScan start).1 = start.1 ∨
    ∃ scan ∈ scans, (scans.foldl loadScan start).1 = scan.scanId := by
  induction scans generalizing start with
  | nil => exact .inl rfl
  | cons first rest ih =>
      rcases @ih (loadScan start first) with same | ⟨scan, member, same⟩
      · rw [List.foldl_cons, same]
        unfold loadScan
        dsimp only
        split
        · exact .inr ⟨first, List.mem_cons_self, rfl⟩
        · exact .inl rfl
      · exact .inr ⟨scan, List.mem_cons_of_mem _ member, same⟩

theorem lookup_loaded (there : (scans.foldl loadScan start).2.lookup scanId = some scan) :
    start.2.lookup scanId = some scan ∨ (scan.scanId = scanId ∧ scan ∈ scans) := by
  induction scans generalizing start with
  | nil => exact .inl there
  | cons first rest ih =>
      rcases ih there with before | ⟨same, member⟩
      · rcases Entries.lookup_insert_iff.mp before with ⟨rfl, rfl⟩ | ⟨-, earlier⟩
        · exact .inr ⟨rfl, List.mem_cons_self⟩
        · exact .inl earlier
      · exact .inr ⟨same, List.mem_cons_of_mem _ member⟩

theorem mem_read {columns : ScanColumns} :
    (scan ∈ (order.entries (columns .scans)).filterMap fun entry => json.scan.deserialize entry.2) ↔
      scan ∈ storedScans json columns := by
  unfold storedScans
  rw [((order.perm (columns .scans)).filterMap _).mem_iff, List.filterMap_map]
  rfl

def loadedFrom (json : ScanJson) (order : Iteration Bytes Bytes) (columns : ScanColumns) : ScanId × Table ScanId Scan :=
  ((order.entries (columns .scans)).filterMap fun entry => json.scan.deserialize entry.2).foldl loadScan (0, ∅)

theorem loadedFrom_lt {columns : ScanColumns}
    (room : ∀ scan ∈ storedScans json columns, scan.scanId < Int16.maxValue) :
    (loadedFrom json order columns).1 < Int16.maxValue := by
  rcases loaded_eq_or with none | ⟨scan, member, same⟩
  · rw [loadedFrom, none]
    decide
  · rw [loadedFrom, same]
    exact room scan (mem_read.mp member)

theorem new_of_fails (fails : Database.writeFails storage.faults = true) :
    ScanStorage.new json order checks storage = some ⟨⟨storage.columns, storage.faults.tail⟩, ∅, 1⟩ := by
  have iterated : (Op.mapError Stop.error (onStorage .storage (ScanDb.iter order .scans))).exec ⟨storage, ∅, 1⟩ =
      (.error (.error (.storage .database)), ⟨⟨storage.columns, storage.faults.tail⟩, ∅, 1⟩) := by
    rw [Op.exec_mapError, ScanDb.iter, exec_call, fails]
    rfl
  rw [ScanStorage.new, loadScans, Op.exec_bind_of_error iterated]

theorem new_of_works (works : Database.writeFails storage.faults = false)
    (room : ∀ scan ∈ storedScans json storage.columns, scan.scanId < Int16.maxValue) :
    ScanStorage.new json order checks storage = some ⟨⟨storage.columns, storage.faults.tail⟩,
      (loadedFrom json order storage.columns).2, (loadedFrom json order storage.columns).1 + 1⟩ := by
  have iterated : (Op.mapError Stop.error (onStorage .storage (ScanDb.iter order .scans))).exec ⟨storage, ∅, 1⟩ =
      (.ok (order.entries (storage.columns .scans)), ⟨⟨storage.columns, storage.faults.tail⟩, ∅, 1⟩) := by
    rw [Op.exec_mapError, ScanDb.iter, exec_call, works]
    rfl
  rw [ScanStorage.new, loadScans, Op.exec_bind_of_ok iterated, Op.exec_bind_of_ok (Op.exec_get _)]
  dsimp only
  rw [foldl_loadEntry, ← loadedFrom, following_of_lt (loadedFrom_lt room)]
  rfl

end Loading

/-! ### Registering -/

section Registering
variable {json : ScanJson} {checks : Bool} {request : ScanRequest} {scan : Scan} {scanId : ScanId} {st : ScanStorage}

theorem scanId_of_toScan (made : request.toScan scanId = .ok scan) : scan.scanId = scanId := by
  unfold ScanRequest.toScan at made
  split at made
  · cases made
  · cases made
    rfl

theorem exec_registerAs (made : request.toScan scanId = .ok scan) : (registerAs json scanId request).exec st =
    if Database.writeFails st.storage.faults then
      (.error (withText "Failed to persist scan: " .database), settle st st.storage.columns)
    else (.ok scan, { settle st (st.storage.columns.apply ⟨(.scans, scanKey scanId), .put (json.scan.serialize scan)⟩) with
      scans := st.scans.insert scanId scan }) := by
  unfold registerAs ScanDb.put
  rw [made]
  change Op.exec (onStorage _ _ >>= _) st = _
  rw [Op.exec_bind, exec_call]
  cases Database.writeFails st.storage.faults <;> rfl

/-- A scan that is refused, or that cannot be stored, changes neither the stored scans nor those in memory. -/
theorem registerAs_cases : ∃ after, after.nextScanId = st.nextScanId ∧
    ((∃ error, (registerAs json scanId request).exec st = (.error error, after) ∧
        after.storage.columns = st.storage.columns ∧ after.scans = st.scans) ∨
      ∃ scan, (registerAs json scanId request).exec st = (.ok scan, after) ∧ scan.scanId = scanId ∧
        after.storage.columns =
          st.storage.columns.apply ⟨(.scans, scanKey scanId), .put (json.scan.serialize scan)⟩ ∧
        after.scans = st.scans.insert scanId scan) := by
  cases made : request.toScan scanId with
  | error message =>
      refine ⟨st, rfl, .inl ⟨.text message none, ?_, rfl, rfl⟩⟩
      rw [registerAs, made]
      rfl
  | ok scan =>
      rw [exec_registerAs made]
      split
      · exact ⟨settle st st.storage.columns, rfl, .inl ⟨_, rfl, rfl, rfl⟩⟩
      · exact ⟨{ settle st _ with scans := st.scans.insert scanId scan }, rfl,
          .inr ⟨scan, rfl, scanId_of_toScan made, rfl, rfl⟩⟩

theorem exec_register (room : st.nextScanId < Int16.maxValue) : (register json checks request).exec st =
    (((registerAs json st.nextScanId request).exec { st with nextScanId := st.nextScanId + 1 }).1.mapError Stop.error,
      ((registerAs json st.nextScanId request).exec { st with nextScanId := st.nextScanId + 1 }).2) := by
  have taken : (takeScanId checks).exec st = (.ok st.nextScanId, { st with nextScanId := st.nextScanId + 1 }) := by
    rw [takeScanId, Op.exec_bind_of_ok (Op.exec_get _), following_of_lt room]
    rfl
  rw [register, Op.exec_bind_of_ok taken, Op.exec_mapError]

end Registering

/-! ### Calls that give no ids -/

/-- No scan comes to those that are stored or held in memory, and the next id stays as it is. -/
structure Shrinks (before after : ScanStorage) : Prop where
  stored : ∀ key data, (after.storage.columns .scans).lookup key = some data →
    (before.storage.columns .scans).lookup key = some data
  held : ∀ scanId scan, after.scans.lookup scanId = some scan → before.scans.lookup scanId = some scan
  next : after.nextScanId = before.nextScanId

section Shrinking
variable {A : Type} {json : ScanJson} {order : Iteration Bytes Bytes} {checks : Bool} {before st after : ScanStorage}
variable {error : StorageError → ScanError} {answer : ScanColumns → A} {change : ScanColumns → ScanColumns}

theorem Shrinks.refl (st : ScanStorage) : Shrinks st st := ⟨fun _ _ there => there, fun _ _ there => there, rfl⟩

theorem shrinks_call (kept : ∀ columns key data, (change columns .scans).lookup key = some data →
    (columns .scans).lookup key = some data) (shrinks : Shrinks before st) :
    Op.Ends (Shrinks before) (onStorage error (ScanDb.call answer change)) st := by
  apply ends_call
  · exact ⟨shrinks.stored, shrinks.held, shrinks.next⟩
  · exact ⟨fun key data there => shrinks.stored key data (kept _ key data there), shrinks.held, shrinks.next⟩

theorem shrinks_read (shrinks : Shrinks before st) :
    Op.Ends (Shrinks before) (onStorage error (ScanDb.call answer id)) st :=
  shrinks_call (fun _ _ _ there => there) shrinks

theorem shrinks_write {batch : List ScanOperation}
    (deletes : ∀ op ∈ batch, op.address.1 = .scans → op.kind.result = none) (shrinks : Shrinks before st) :
    Op.Ends (Shrinks before) (onStorage error (ScanDb.call answer fun columns => columns.write batch)) st := by
  apply shrinks_call _ shrinks
  intro columns key data there
  change cells (columns.write batch) (.scans, key) = some data at there
  rw [cells_write] at there
  apply Store.of_write_deletes (cells columns) _ there
  intro op member same
  exact deletes op member (by rw [same])

theorem shrinks_delete {key : Bytes} (shrinks : Shrinks before st) :
    Op.Ends (Shrinks before) (onStorage error (ScanDb.delete .scans key)) st :=
  @shrinks_write Unit before st error (fun _ => ()) [⟨(.scans, key), .delete⟩]
    (fun op member _ => by rw [List.mem_singleton.mp member]; rfl) shrinks

theorem shrinks_boxes {key : Bytes} {kind : OperationKind Bytes} (shrinks : Shrinks before st) :
    Op.Ends (Shrinks before)
      (onStorage error (ScanDb.call answer fun columns => columns.apply ⟨(.scanBoxes, key), kind⟩)) st :=
  @shrinks_write A before st error answer [⟨(.scanBoxes, key), kind⟩]
    (fun op member same => by rw [List.mem_singleton.mp member] at same; cases same) shrinks

theorem address_of_removal {scanId : ScanId} {entry : Bytes × Bytes} {op : ScanOperation}
    (made : removal json scanId entry = some op) : op.address = (.scanBoxes, entry.1) := by
  unfold removal at made
  obtain ⟨scanBox, -, made⟩ := Option.bind_eq_some_iff.mp made
  split at made
  · cases made
    rfl
  · cases made

theorem shrinks_deregister (scanId : ScanId) : Op.Ends (Shrinks st) (deregister json order scanId) st := by
  apply Op.Ends.get_bind
  apply Op.Ends.ite
  · exact fun _ => .refl st
  · intro _
    apply (shrinks_delete (.refl st)).bind
    intro _ deleted _ shrinks
    apply Op.Ends.bind
    · apply (shrinks_read shrinks).bind
      intro entries listed _ shrinks
      apply shrinks_write _ shrinks
      intro op member same
      obtain ⟨entry, -, made⟩ := List.mem_filterMap.mp member
      rw [address_of_removal made] at same
      cases same
    · intro _ removed _ shrinks
      exact ⟨shrinks.stored, fun id scan there => shrinks.held id scan (Entries.lookup_erase_iff.mp there).2,
        shrinks.next⟩

theorem shrinks_addBox (scanBox : ScanBox) (shrinks : Shrinks before st) :
    Op.Ends (Shrinks before) (addBox json scanBox) st :=
  shrinks_boxes shrinks

theorem shrinks_stopTracking (scanId : ScanId) (boxId : Bytes) :
    Op.Ends (Shrinks st) (stopTracking json scanId boxId) st := by
  apply (shrinks_read (.refl st)).bind
  intro data found _ shrinks
  split
  · exact shrinks
  · split
    · exact shrinks_boxes shrinks
    · exact shrinks_boxes shrinks

theorem shrinks_markBoxSpent (boxId spendingTxId : Bytes) (spendingHeight : UInt32) (shrinks : Shrinks before st) :
    Op.Ends (Shrinks before) (markBoxSpent json boxId spendingTxId spendingHeight) st := by
  apply (shrinks_read shrinks).bind
  intro data found _ shrinks
  split
  · exact shrinks
  · exact shrinks_boxes shrinks

theorem shrinks_processBlock (height : UInt32) (createdBoxes : List (Bytes × Bytes)) (spentBoxIds : List Bytes)
    (spendingTxId : Bytes) :
    Op.Ends (Shrinks st) (processBlock json height createdBoxes spentBoxIds spendingTxId) st := by
  apply Op.Ends.forEach _ spentBoxIds (.refl st)
  intro boxId before shrinks
  apply Op.Ends.bind
  · apply (shrinks_read shrinks).bind
    intro data found _ shrinks
    split <;> exact shrinks
  · intro found read _ shrinks
    apply Op.Ends.ite
    · exact fun _ => shrinks_markBoxSpent boxId spendingTxId 0 shrinks
    · exact fun _ => shrinks

end Shrinking

/-! ### All ids that were given -/

/-- What was written is read back as it was, if it is read at all, and nothing is read from no bytes. -/
structure Faithful {T : Type} (json : Serde T) : Prop where
  readBack : ∀ value data read, json.toVec value = .ok data → json.fromSlice data = .ok read → read = value
  nothing : ∀ read, json.fromSlice [] ≠ .ok read

theorem Faithful.deserialize_serialize {T : Type} {json : Serde T} {value read : T} (faithful : Faithful json)
    (same : json.deserialize (json.serialize value) = some read) : read = value := by
  unfold Serde.deserialize Serde.serialize at same
  cases written : json.toVec value with
  | error message =>
      rw [written] at same
      cases empty : json.fromSlice [] with
      | error message => simp [empty, Except.toOption] at same
      | ok other => exact absurd empty (faithful.nothing other)
  | ok data =>
      rw [written] at same
      cases found : json.fromSlice data with
      | error message => simp [found, Except.toOption] at same
      | ok other =>
          simp only [Except.toOption, Option.getD_some, found, Option.some.injEq] at same
          subst same
          exact faithful.readBack value data other written found

/-- A node, with the ids of all scans that were ever registered. -/
structure Registry where
  node : ScanStorage
  assigned : List ScanId

namespace Registry

def start (faults : List Bool) : Registry := ⟨fresh faults, []⟩

def granted (json : ScanJson) (checks : Bool) (node : ScanStorage) : Action → List ScanId
  | .register request =>
      match ((register json checks request).exec node).1 with
      | .ok scan => [scan.scanId]
      | .error _ => []
  | _ => []

def step (json : ScanJson) (order : Iteration Bytes Bytes) (checks : Bool) (registry : Registry) (action : Action) :
    Option Registry :=
  (Scan.step json order checks registry.node action).map fun node =>
    ⟨node, registry.assigned ++ granted json checks registry.node action⟩

/-- Scans are registered while there is an id left after theirs, and a node starts with a stored scan whose id
is as high as any that was given, if one was. -/
def Careful (json : ScanJson) (registry : Registry) : Action → Prop
  | .register _ => registry.node.nextScanId < Int16.maxValue
  | .restart => ∀ scanId ∈ registry.assigned, Database.writeFails registry.node.storage.faults = false ∧
      ∃ scan ∈ storedScans json registry.node.storage.columns, scanId ≤ scan.scanId
  | _ => True

instance (json : ScanJson) (registry : Registry) : (action : Action) → Decidable (Careful json registry action)
  | .register _ => inferInstanceAs (Decidable (_ < Int16.maxValue))
  | .restart => List.decidableBAll (fun scanId => Database.writeFails registry.node.storage.faults = false ∧
      ∃ scan ∈ storedScans json registry.node.storage.columns, scanId ≤ scan.scanId) registry.assigned
  | .deregister _ | .addBox _ | .addBoxToScans _ _ _ _ _ | .stopTracking _ _ | .markBoxSpent _ _ _
  | .processBlock _ _ _ _ => .isTrue trivial

structure Sound (registry : Registry) : Prop where
  apart : ∀ order, ((listAll order registry.node).map Scan.scanId).Nodup
  positive : ∀ order, ∀ scan ∈ listAll order registry.node, 0 < scan.scanId
  once : registry.assigned.Nodup
  counter : 0 < registry.node.nextScanId

/-- All ids that were given, those of the stored scans among them, are below the next one. -/
structure Numbered (json : ScanJson) (registry : Registry) : Prop where
  held : ∀ scanId scan, registry.node.scans.lookup scanId = some scan →
    scan.scanId = scanId ∧ scanId ∈ registry.assigned
  stored : ∀ scan ∈ storedScans json registry.node.storage.columns, scan.scanId ∈ registry.assigned
  below : ∀ scanId ∈ registry.assigned, 0 < scanId ∧ scanId < registry.node.nextScanId
  once : registry.assigned.Nodup
  counter : 0 < registry.node.nextScanId

variable {json : ScanJson} {order : Iteration Bytes Bytes} {checks : Bool} {registry : Registry} {action : Action}

theorem mem_storedScans {columns : ScanColumns} {scan : Scan} : scan ∈ storedScans json columns ↔
    ∃ key data, (columns .scans).lookup key = some data ∧ json.scan.deserialize data = some scan := by
  unfold storedScans
  rw [List.mem_filterMap]
  constructor
  · rintro ⟨⟨key, data⟩, member, read⟩
    exact ⟨key, data, AList.mem_lookup_iff.mpr member, read⟩
  · rintro ⟨key, data, there, read⟩
    exact ⟨⟨key, data⟩, AList.mem_lookup_iff.mp there, read⟩

theorem Numbered.sound (numbered : Numbered json registry) : Sound registry := by
  have listed (order : Iteration ScanId Scan) (scanId : ScanId) (scan : Scan)
      (member : (scanId, scan) ∈ order.entries registry.node.scans) :
      scan.scanId = scanId ∧ scanId ∈ registry.assigned :=
    numbered.held scanId scan ((Entries.mem_of_perm (order.perm _)).mp member)
  constructor
  · intro order
    have keys : (listAll order registry.node).map Scan.scanId =
        (order.entries registry.node.scans).map Prod.fst := by
      rw [listAll, List.map_map]
      apply List.map_congr_left
      rintro ⟨scanId, scan⟩ member
      exact (listed order scanId scan member).1
    rw [keys]
    exact Entries.nodup_of_perm (order.perm _)
  · intro order scan member
    obtain ⟨⟨scanId, scan⟩, entry, rfl⟩ := List.mem_map.mp member
    obtain ⟨same, given⟩ := listed order scanId scan entry
    exact same ▸ (numbered.below scanId given).1
  · exact numbered.once
  · exact numbered.counter

theorem Numbered.shrinks {after : ScanStorage} (numbered : Numbered json registry)
    (shrinks : Shrinks registry.node after) : Numbered json ⟨after, registry.assigned⟩ := by
  constructor
  · exact fun scanId scan there => numbered.held scanId scan (shrinks.held scanId scan there)
  · intro scan member
    obtain ⟨key, data, there, read⟩ := mem_storedScans.mp member
    exact numbered.stored scan (mem_storedScans.mpr ⟨key, data, shrinks.stored key data there, read⟩)
  · exact shrinks.next ▸ numbered.below
  · exact numbered.once
  · exact shrinks.next ▸ numbered.counter

theorem step_of_granted_nil {after : ScanStorage} (none : granted json checks registry.node action = [])
    (taken : Scan.step json order checks registry.node action = some after) :
    registry.step json order checks action = some ⟨after, registry.assigned⟩ := by
  rw [step, taken, none, List.append_nil]
  rfl

theorem Numbered.restart (numbered : Numbered json registry) (careful : Careful json registry .restart) :
    ∃ after, registry.step json order checks .restart = some after ∧ Numbered json after := by
  have room (scan : ErgoNode.Scan) (member : scan ∈ storedScans json registry.node.storage.columns) :
      scan.scanId < Int16.maxValue := by
    have below := (numbered.below _ (numbered.stored scan member)).2
    exact Int16.lt_of_lt_of_le below (Int16.le_maxValue _)
  cases fails : Database.writeFails registry.node.storage.faults with
  | true =>
      have none (scanId : ScanId) (given : scanId ∈ registry.assigned) : False := by
        rw [(careful scanId given).1] at fails
        cases fails
      refine ⟨_, step_of_granted_nil rfl (new_of_fails fails), ?_⟩
      constructor
      · intro scanId scan there
        cases there
      · exact fun scan member => (none _ (numbered.stored scan member)).elim
      · exact fun scanId given => (none scanId given).elim
      · exact numbered.once
      · show (0 : ScanId) < 1
        decide
  | false =>
      have highest := @loadedFrom_lt json order _ room
      have from0 : 0 ≤ (loadedFrom json order registry.node.storage.columns).1 := start_le_loaded
      refine ⟨_, step_of_granted_nil rfl (new_of_works fails room), ?_⟩
      constructor
      · intro scanId scan there
        rcases lookup_loaded there with before | ⟨same, member⟩
        · cases before
        · exact ⟨same, same ▸ numbered.stored scan (mem_read.mp member)⟩
      · exact numbered.stored
      · intro scanId given
        obtain ⟨scan, member, le⟩ := (careful scanId given).2
        have below := lt_following (Int16.le_trans le (le_loaded (mem_read.mpr member))) highest
        exact ⟨(numbered.below scanId given).1, below⟩
      · exact numbered.once
      · exact lt_following from0 highest

section Counting
variable {after : ScanStorage} {scan : Scan}
variable (numbered : Numbered json registry) (room : registry.node.nextScanId < Int16.maxValue)
variable (next : after.nextScanId = registry.node.nextScanId + 1)
include numbered room next

theorem Numbered.counter_after : 0 < after.nextScanId := by
  rw [next]
  exact lt_following (Int16.le_of_lt numbered.counter) room

theorem Numbered.below_after (scanId : ScanId) (given : scanId ∈ registry.assigned) :
    0 < scanId ∧ scanId < after.nextScanId := by
  obtain ⟨positive, below⟩ := numbered.below scanId given
  rw [next]
  exact ⟨positive, lt_following (Int16.le_of_lt below) room⟩

theorem Numbered.skip (columns : after.storage.columns = registry.node.storage.columns)
    (scans : after.scans = registry.node.scans) : Numbered json ⟨after, registry.assigned⟩ := by
  constructor
  · exact fun scanId scan there => numbered.held scanId scan (scans ▸ there)
  · exact fun scan member => numbered.stored scan (columns ▸ member)
  · exact numbered.below_after room next
  · exact numbered.once
  · exact numbered.counter_after room next

theorem Numbered.grant (faithful : Faithful json.scan) (same : scan.scanId = registry.node.nextScanId)
    (columns : after.storage.columns = registry.node.storage.columns.apply
      ⟨(.scans, scanKey registry.node.nextScanId), .put (json.scan.serialize scan)⟩)
    (scans : after.scans = registry.node.scans.insert registry.node.nextScanId scan) :
    Numbered json ⟨after, registry.assigned ++ [scan.scanId]⟩ := by
  have fresh : registry.node.nextScanId ∉ registry.assigned :=
    fun given => Int16.lt_irrefl (numbered.below _ given).2
  constructor
  · intro scanId other there
    rw [show after.scans = _ from scans] at there
    rcases Entries.lookup_insert_iff.mp there with ⟨rfl, rfl⟩ | ⟨-, before⟩
    · exact ⟨same, List.mem_append_right _ (List.mem_singleton.mpr same.symm)⟩
    · obtain ⟨equal, given⟩ := numbered.held scanId other before
      exact ⟨equal, List.mem_append_left _ given⟩
  · intro other there
    obtain ⟨key, data, found, read⟩ := mem_storedScans.mp there
    have found : cells after.storage.columns (.scans, key) = some data := found
    rw [columns, cells_apply] at found
    by_cases here : (ScanColumn.scans, scanKey registry.node.nextScanId) = (.scans, key)
    · rw [← here, Store.apply_same] at found
      cases found
      rw [faithful.deserialize_serialize read]
      exact List.mem_append_right _ (List.mem_singleton_self _)
    · rw [Store.apply_of_ne _ here] at found
      exact List.mem_append_left _ (numbered.stored other (mem_storedScans.mpr ⟨key, data, found, read⟩))
  · intro scanId given
    rcases List.mem_append.mp given with earlier | now
    · exact numbered.below_after room next scanId earlier
    · obtain rfl : scanId = registry.node.nextScanId := (List.mem_singleton.mp now).trans same
      refine ⟨numbered.counter, ?_⟩
      show registry.node.nextScanId < after.nextScanId
      rw [next]
      exact lt_following (Int16.le_refl _) room
  · rw [same]
    exact numbered.once.append (List.nodup_singleton _) (by simpa using fresh)
  · exact numbered.counter_after room next

end Counting

theorem Numbered.register {request : ScanRequest} (faithful : Faithful json.scan) (numbered : Numbered json registry)
    (careful : Careful json registry (.register request)) :
    ∃ after, registry.step json order checks (.register request) = some after ∧ Numbered json after := by
  have room : registry.node.nextScanId < Int16.maxValue := careful
  have registered := @exec_register json checks request registry.node room
  obtain ⟨after, next, ⟨error, ran, columns, scans⟩ | ⟨scan, ran, same, columns, scans⟩⟩ :=
    @registerAs_cases json request registry.node.nextScanId
      { registry.node with nextScanId := registry.node.nextScanId + 1 }
  · rw [ran] at registered
    refine ⟨⟨after, registry.assigned⟩, step_of_granted_nil ?_ ?_, numbered.skip room next columns scans⟩
    · rw [granted, registered]
      rfl
    · rw [Scan.step, left, registered]
      rfl
  · rw [ran] at registered
    refine ⟨⟨after, registry.assigned ++ [scan.scanId]⟩, ?_, numbered.grant room next faithful same columns scans⟩
    rw [step, granted, Scan.step, left, registered]
    rfl

theorem numbered_step (faithful : Faithful json.scan) (numbered : Numbered json registry)
    (careful : Careful json registry action) :
    ∃ after, registry.step json order checks action = some after ∧ Numbered json after := by
  cases action with
  | register request => exact numbered.register faithful careful
  | restart => exact numbered.restart careful
  | deregister scanId => exact ⟨_, step_of_granted_nil rfl rfl, numbered.shrinks (shrinks_deregister scanId)⟩
  | addBox scanBox => exact ⟨_, step_of_granted_nil rfl rfl, numbered.shrinks (shrinks_addBox scanBox (.refl _))⟩
  | addBoxToScans boxId scanIds inclusionHeight confirmationsNum boxData =>
      exact ⟨_, step_of_granted_nil rfl rfl, numbered.shrinks (shrinks_addBox _ (.refl _))⟩
  | stopTracking scanId boxId =>
      exact ⟨_, step_of_granted_nil rfl rfl, numbered.shrinks (shrinks_stopTracking scanId boxId)⟩
  | markBoxSpent boxId spendingTxId spendingHeight =>
      exact ⟨_, step_of_granted_nil rfl rfl,
        numbered.shrinks (shrinks_markBoxSpent boxId spendingTxId spendingHeight (.refl _))⟩
  | processBlock height createdBoxes spentBoxIds spendingTxId =>
      exact ⟨_, step_of_granted_nil rfl rfl,
        numbered.shrinks (shrinks_processBlock height createdBoxes spentBoxIds spendingTxId)⟩

theorem numbered_start (faults : List Bool) : Numbered json (start faults) where
  held := fun scanId scan there => by cases there
  stored := fun scan member => by cases member
  below := fun scanId given => by cases given
  once := List.nodup_nil
  counter := show (0 : ScanId) < 1 by decide

/-- Ids stay apart along every careful run, whichever calls fail, and none of its steps panics. -/
theorem careful_sound (faithful : Faithful json.scan) {faults : List Bool} {path : List Action}
    (careful : Along (step json order checks) (Careful json) (start faults) path) :
    (∃ last, run (step json order checks) (start faults) path = some last) ∧
      Always (step json order checks) Sound (start faults) path := by
  have completed : (∃ last, run (step json order checks) (start faults) path = some last) ∧
      Along (step json order checks) (fun _ _ => True) (start faults) path :=
    careful.completes (fun numbered given => ⟨trivial, numbered_step faithful numbered given⟩) (numbered_start faults)
  refine ⟨completed.1, fun registry visited => ?_⟩
  have numbered : Numbered json registry := by
    apply careful.invariant (Numbered json) _ (numbered_start faults) registry visited
    intro before action after numbered given taken
    obtain ⟨next, ran, kept⟩ := @numbered_step json order checks before action faithful numbered given
    rw [taken] at ran
    cases ran
    exact kept
  exact numbered.sound

/-! ### A scan whose id is the highest -/

def allBoxes (scanId : ScanId) : ErgoNode.Scan := ⟨scanId, "all", .and [], .shared, true⟩

def allBoxesText (scanId : String) : Bytes :=
  ["\x7b\"scanId\":", scanId, ",\"scanName\":\"all\"", ",\"trackingRule\":", "\x7b\"predicate\":\"and\"",
    ",\"args\":[]\x7d", ",\"walletInteraction\":", "\"shared\"", ",\"removeOffchain\":", "true\x7d"].flatMap Utf8.encode

def allBoxesSerde : Serde ErgoNode.Scan where
  toVec
    | ⟨scanId, "all", .and [], .shared, true⟩ =>
        if scanId = 1 then .ok (allBoxesText "1")
        else if scanId = 2 then .ok (allBoxesText "2")
        else .error "not in the table"
    | _ => .error "not in the table"
  fromSlice data :=
    if data = allBoxesText "1" then .ok (allBoxes 1)
    else if data = allBoxesText "2" then .ok (allBoxes 2)
    else .error "not in the table"

theorem allBoxesSerde_faithful : Faithful allBoxesSerde := by
  have texts : allBoxesText "2" ≠ allBoxesText "1" := by decide
  constructor
  · intro value data read written found
    unfold allBoxesSerde at written found
    dsimp only at written found
    split at written
    · split at written
      · next first =>
          cases written
          rw [if_pos rfl] at found
          cases found
          rw [first]
          rfl
      · split at written
        · next second =>
            cases written
            rw [if_neg texts, if_pos rfl] at found
            cases found
            rw [second]
            rfl
        · cases written
    · cases written
  · intro read found
    unfold allBoxesSerde at found
    dsimp only at found
    rw [if_neg (by decide), if_neg (by decide)] at found
    cases found

def allBoxesJson : ScanJson := ⟨allBoxesSerde, ⟨fun _ => .error "not in the table", fun _ => .error "not in the table"⟩⟩

def entryOrder : Iteration Bytes Bytes := ⟨_, fun _ => .rfl⟩

def allBoxesRequest : ScanRequest := ⟨"all", .and [], none, none⟩

def keptPath : List Action := [.register allBoxesRequest, .restart, .register allBoxesRequest]

theorem keptPath_careful :
    (∃ last, run (step allBoxesJson entryOrder true) (start []) keptPath = some last) ∧
      Always (step allBoxesJson entryOrder true) Sound (start []) keptPath :=
  careful_sound allBoxesSerde_faithful (by decide +kernel)

def gonePath : List Action := [.register allBoxesRequest, .deregister 1, .restart, .register allBoxesRequest]

theorem gonePath_repeats : ¬ Always (step allBoxesJson entryOrder true) Sound (start []) gonePath := by
  have assigned :
      (run (step allBoxesJson entryOrder true) (start []) gonePath).map Registry.assigned = some [1, 1] := by
    decide +kernel
  obtain ⟨last, ran, same⟩ := Option.map_eq_some_iff.mp assigned
  intro always
  have once := (always last ⟨gonePath, List.prefix_rfl, ran⟩).once
  rw [same] at once
  exact absurd once (by decide)

end Registry

end ErgoNode.Proof.Scan
