import ErgoNode.Lib.Run
import ErgoNode.State.Snapshots

/-!
# Listed snapshots

Every listed manifest should be stored. The list goes by height and the manifests by id, so a manifest that is
listed at several heights is gone for all of them once one of these is pruned. The manifests are deleted before
the list is written, so a pruning that stops half-way leaves heights behind whose manifests are gone.
-/

namespace ErgoNode.Proof.Snapshots
open Lib SnapshotsDb

/-! ### The list -/

section Info
variable {info : SnapshotsDb.SnapshotsInfo} {entry : UInt32 × ManifestId}

theorem mem_withManifest (height : UInt32) (manifestId : ManifestId) :
    entry ∈ info.withManifest height manifestId ↔ entry = (height, manifestId) ∨ entry ∈ info ∧ entry.1 ≠ height := by
  have apart : entry.1.toNat ≠ height.toNat ↔ entry.1 ≠ height := UInt32.toNat_inj.not
  rw [SnapshotsDb.SnapshotsInfo.withManifest, SortedSet.mem_insert, SortedSet.mem_erase, apart]
  exact fun other member => ((SortedSet.mem_erase ..).mp member).2

theorem mem_foldl_withManifest {entries : List (UInt32 × ManifestId)}
    (sorted : entries.Pairwise fun a b => a.1.toNat < b.1.toNat) (info : SnapshotsDb.SnapshotsInfo) :
    entry ∈ entries.foldl (fun info entry => info.withManifest entry.1 entry.2) info ↔
      entry ∈ entries ∨ entry ∈ info ∧ ∀ other ∈ entries, entry.1 ≠ other.1 := by
  induction entries generalizing info with
  | nil => simp
  | cons first rest ih =>
      obtain ⟨above, later⟩ := List.pairwise_cons.mp sorted
      have apart : entry = first → ∀ other ∈ rest, entry.1 ≠ other.1 := by
        rintro rfl other member same
        exact Nat.ne_of_lt (above other member) (congrArg UInt32.toNat same)
      rw [List.foldl_cons, ih later, mem_withManifest, List.mem_cons, List.forall_mem_cons]
      constructor
      · rintro (member | ⟨same | ⟨member, other⟩, others⟩)
        · exact .inl (.inr member)
        · exact .inl (.inl same)
        · exact .inr ⟨member, other, others⟩
      · rintro ((same | member) | ⟨member, other, others⟩)
        · exact .inr ⟨.inl same, apart same⟩
        · exact .inl member
        · exact .inr ⟨.inr ⟨member, other⟩, others⟩

theorem readEntries_succ (count : Nat) (entry : UInt32 × ManifestId) (rest : Bytes) (info : SnapshotsDb.SnapshotsInfo) :
    SnapshotsDb.SnapshotsInfo.readEntries (count + 1) (SnapshotsDb.SnapshotsInfo.entryBytes entry ++ rest) info =
      SnapshotsDb.SnapshotsInfo.readEntries count rest (info.withManifest entry.1 entry.2) := by
  obtain ⟨height, bytes, size⟩ := entry
  have four := BigEndian.length_write 4 height.toNat
  have word : height.toNat < 256 ^ 4 := height.toNat_lt
  have height_eq :
      UInt32.ofNat (BigEndian.read ((BigEndian.write 4 height.toNat ++ (bytes ++ rest)).take 4)) = height := by
    rw [BigEndian.take_write, BigEndian.read_write, Nat.mod_eq_of_lt word, UInt32.ofNat_toNat]
  have bytes_eq : ((BigEndian.write 4 height.toNat ++ (bytes ++ rest)).drop 4).take 32 = bytes := by
    rw [BigEndian.drop_write, ← size, List.take_left]
  have rest_eq : (BigEndian.write 4 height.toNat ++ (bytes ++ rest)).drop 36 = rest := by
    have split : 36 = 4 + 32 := rfl
    rw [split, ← List.drop_drop, BigEndian.drop_write, ← size, List.drop_left]
  rw [SnapshotsDb.SnapshotsInfo.entryBytes, List.append_assoc, SnapshotsDb.SnapshotsInfo.readEntries,
    dif_pos (by simp only [List.length_append, four, size]; omega)]
  dsimp only
  simp only [height_eq, bytes_eq, rest_eq]

theorem readEntries_entryBytes (entries : List (UInt32 × ManifestId)) (info : SnapshotsDb.SnapshotsInfo) :
    SnapshotsDb.SnapshotsInfo.readEntries entries.length (entries.flatMap SnapshotsDb.SnapshotsInfo.entryBytes) info =
      .ok (entries.foldl (fun info entry => info.withManifest entry.1 entry.2) info) := by
  induction entries generalizing info with
  | nil => rfl
  | cons first rest ih =>
      rw [List.length_cons, List.flatMap_cons, readEntries_succ, ih]
      rfl

theorem parse_serialize (info : SnapshotsDb.SnapshotsInfo) :
    SnapshotsDb.SnapshotsInfo.parse info.serialize = .ok info := by
  have few : info.len < 2 ^ 64 := by
    have le := info.length_le fun entry _ => entry.1.toNat_lt
    exact le.trans_lt (by decide)
  have some : info.serialize ≠ [] := fun none => Vlq.encode_ne_nil _ (List.append_eq_nil_iff.mp none).1
  have whole :
      info.items.foldl (fun info entry => info.withManifest entry.1 entry.2) SnapshotsDb.SnapshotsInfo.empty = info := by
    refine SortedSet.ext_mem fun entry => (mem_foldl_withManifest info.sorted _).trans ?_
    rw [or_iff_left fun inEmpty => SortedSet.not_mem_empty inEmpty.1]
    exact info.mem_items
  rw [SnapshotsDb.SnapshotsInfo.parse, if_neg some, SnapshotsDb.SnapshotsInfo.serialize, Vlq.decode_encode_append few]
  change SnapshotsDb.SnapshotsInfo.readEntries info.items.length ((Vlq.encode info.len ++ _).drop _) _ = _
  rw [List.drop_left, readEntries_entryBytes, whole]

end Info

/-! ### Single operations -/

structure Lists (db : SnapshotsDb) (info : SnapshotsDb.SnapshotsInfo) : Prop where
  stored : storedInfo db.storage = .ok info
  cached : ∀ cached ∈ db.cachedInfo, cached = info

def AllStored (storage : Store fun _ : Bytes => Bytes) (info : SnapshotsDb.SnapshotsInfo) : Prop :=
  ∀ entry ∈ info, storage (manifestKey entry.2) ≠ none

section Operations
variable {db : SnapshotsDb} {info : SnapshotsDb.SnapshotsInfo} {storage : Store fun _ : Bytes => Bytes}
variable {operation : StorageOperation}

theorem manifestKey_injective : Function.Injective manifestKey := by
  rintro ⟨left, _⟩ ⟨right, _⟩ same
  simpa [manifestKey] using same

theorem manifestKey_ne_infoKey (manifestId : ManifestId) : manifestKey manifestId ≠ snapshotsInfoKey := by
  intro same
  have lengths := congrArg List.length same
  rw [manifestKey, List.length_append, manifestId.size] at lengths
  revert lengths
  decide

theorem not_mem_take_succ {faults : List Bool} {count : Nat} :
    true ∉ faults.take (count + 1) ↔ Database.writeFails faults = false ∧ true ∉ faults.tail.take count := by
  rcases faults with _ | ⟨_ | _, rest⟩
  · simp [Database.writeFails]
  · simp [Database.writeFails]
  · simp [Database.writeFails]

theorem not_mem_take_succ_last {faults : List Bool} {count : Nat} :
    true ∉ faults.take (count + 1) ↔ true ∉ faults.take count ∧ Database.writeFails (faults.drop count) = false := by
  rw [List.take_add_one, List.mem_append, not_or, Database.writeFails, List.head?_drop]
  simp

theorem exec_write_of_works (works : Database.writeFails db.faults = false) (operation : StorageOperation) :
    (write operation).exec db = (.ok (), ⟨db.storage.apply operation, db.faults.tail, db.cachedInfo⟩) := by
  obtain ⟨storage, _ | ⟨_ | _, rest⟩, cached⟩ := db
  · rfl
  · rfl
  · cases works

theorem exec_write_of_fails (fails : Database.writeFails db.faults = true) (operation : StorageOperation) :
    (write operation).exec db = (.error (.storage .database), ⟨db.storage, db.faults.tail, db.cachedInfo⟩) := by
  obtain ⟨storage, _ | ⟨_ | _, rest⟩, cached⟩ := db
  · cases fails
  · cases fails
  · rfl

theorem exec_readSnapshotsInfo (lists : Lists db info) :
    readSnapshotsInfo.exec db = (.ok info, ⟨db.storage, db.faults, some info⟩) := by
  obtain ⟨storage, faults, _ | cached⟩ := db
  · have stored : storedInfo storage = .ok info := lists.stored
    rw [readSnapshotsInfo, Op.exec_bind_of_ok (Op.exec_get _)]
    dsimp only
    rw [stored]
    rfl
  · obtain rfl := lists.cached cached rfl
    rfl

theorem storedInfo_congr {other : Store fun _ : Bytes => Bytes}
    (same : other snapshotsInfoKey = storage snapshotsInfoKey) : storedInfo other = storedInfo storage := by
  rw [storedInfo, storedInfo, same]

theorem storedInfo_put (data : Bytes) :
    storedInfo (storage.apply ⟨snapshotsInfoKey, .put data⟩) = SnapshotsDb.SnapshotsInfo.parse data := by
  rw [storedInfo, Store.apply_same]
  rfl

theorem Lists.apply (lists : Lists db info) (manifestId : ManifestId) (kind : OperationKind Bytes)
    (faults : List Bool) :
    Lists ⟨db.storage.apply ⟨manifestKey manifestId, kind⟩, faults, db.cachedInfo⟩ info where
  stored := (storedInfo_congr (Store.apply_of_ne _ (manifestKey_ne_infoKey manifestId))).trans lists.stored
  cached := lists.cached

theorem lists_written (storage : Store fun _ : Bytes => Bytes) (faults : List Bool) (info : SnapshotsDb.SnapshotsInfo) :
    Lists ⟨storage.apply ⟨snapshotsInfoKey, .put info.serialize⟩, faults, some info⟩ info where
  stored := (storedInfo_put _).trans (parse_serialize info)
  cached _ same := (Option.some.inj same).symm

theorem manifest_beside_info (storage : Store fun _ : Bytes => Bytes) (kind : OperationKind Bytes)
    (manifestId : ManifestId) :
    storage.apply ⟨snapshotsInfoKey, kind⟩ (manifestKey manifestId) = storage (manifestKey manifestId) :=
  Store.apply_of_ne _ (manifestKey_ne_infoKey manifestId).symm

theorem allStored_beside_info {kind : OperationKind Bytes} :
    AllStored (storage.apply ⟨snapshotsInfoKey, kind⟩) info ↔ AllStored storage info := by
  refine forall₂_congr fun entry _ => ?_
  rw [manifest_beside_info]

theorem exec_writeSnapshotsInfo_of_works (works : Database.writeFails db.faults = false)
    (info : SnapshotsDb.SnapshotsInfo) :
    (writeSnapshotsInfo info).exec db =
      (.ok (), ⟨db.storage.apply ⟨snapshotsInfoKey, .put info.serialize⟩, db.faults.tail, some info⟩) := by
  rw [writeSnapshotsInfo, Op.exec_bind_of_ok (exec_write_of_works works _)]
  rfl

theorem exec_writeSnapshotsInfo_of_fails (fails : Database.writeFails db.faults = true)
    (info : SnapshotsDb.SnapshotsInfo) :
    (writeSnapshotsInfo info).exec db = (.error (.storage .database), ⟨db.storage, db.faults.tail, db.cachedInfo⟩) := by
  rw [writeSnapshotsInfo, Op.exec_bind_of_error (exec_write_of_fails fails _)]

end Operations

/-! ### Additions -/

/-- There is a list, in the storage and in memory, and the manifests on it are stored. -/
def Backed (db : SnapshotsDb) : Prop := ∃ info, Lists db info ∧ AllStored db.storage info

theorem backed_new_empty (faults : List Bool) : Backed (SnapshotsDb.new (fun _ => none) faults) :=
  ⟨SnapshotsDb.SnapshotsInfo.empty, ⟨rfl, fun _ none => nomatch none⟩,
    fun _ member => (SortedSet.not_mem_empty member).elim⟩

section Additions
variable {db : SnapshotsDb} {info : SnapshotsDb.SnapshotsInfo} {storage : Store fun _ : Bytes => Bytes}

theorem allStored_put {manifestId : ManifestId} {data : Bytes} (all : AllStored storage info) :
    AllStored (storage.apply ⟨manifestKey manifestId, .put data⟩) info := by
  intro entry member
  by_cases same : manifestKey manifestId = manifestKey entry.2
  · rw [← same, Store.apply_same]
    exact Option.some_ne_none data
  · rw [Store.apply_of_ne _ same]
    exact all entry member

theorem allStored_withManifest {height : UInt32} {manifestId : ManifestId} (all : AllStored storage info)
    (stored : storage (manifestKey manifestId) ≠ none) : AllStored storage (info.withManifest height manifestId) := by
  intro entry member
  rcases (mem_withManifest height manifestId).mp member with rfl | ⟨member, -⟩
  · exact stored
  · exact all entry member

theorem backed_addSnapshot (backed : Backed db) (height : UInt32) (manifestId : ManifestId) (manifestData : Bytes) :
    Op.Ends Backed (addSnapshot height manifestId manifestData) db := by
  obtain ⟨info, lists, all⟩ := backed
  rw [Op.Ends, addSnapshot, writeManifest]
  cases fails : Database.writeFails db.faults with
  | true =>
      rw [Op.exec_bind_of_error (exec_write_of_fails fails _)]
      exact ⟨info, ⟨lists.stored, lists.cached⟩, all⟩
  | false =>
      have kept := lists.apply manifestId (.put manifestData) db.faults.tail
      have others : AllStored (db.storage.apply ⟨manifestKey manifestId, .put manifestData⟩) info := allStored_put all
      rw [Op.exec_bind_of_ok (exec_write_of_works fails _), Op.exec_bind_of_ok (exec_readSnapshotsInfo kept)]
      cases later : Database.writeFails db.faults.tail with
      | true =>
          rw [exec_writeSnapshotsInfo_of_fails later]
          exact ⟨info, ⟨kept.stored, fun _ same => (Option.some.inj same).symm⟩, others⟩
      | false =>
          have stored :
              db.storage.apply ⟨manifestKey manifestId, .put manifestData⟩ (manifestKey manifestId) ≠ none := by
            rw [Store.apply_same]
            exact Option.some_ne_none manifestData
          rw [exec_writeSnapshotsInfo_of_works later]
          exact ⟨_, lists_written _ _ _, allStored_beside_info.mpr (allStored_withManifest others stored)⟩

end Additions

/-! ### Prunings -/

def withoutManifests (storage : Store fun _ : Bytes => Bytes) (removed : List (UInt32 × ManifestId)) :
    Store fun _ : Bytes => Bytes :=
  storage.write ((removed.map fun entry => manifestKey entry.2).map fun key => ⟨key, .delete⟩)

section Prunings
variable {db : SnapshotsDb} {info : SnapshotsDb.SnapshotsInfo} {storage : Store fun _ : Bytes => Bytes}
variable {removed : List (UInt32 × ManifestId)}

theorem manifest_withoutManifests (manifestId : ManifestId) :
    withoutManifests storage removed (manifestKey manifestId) ≠ none ↔
      storage (manifestKey manifestId) ≠ none ∧ ∀ entry ∈ removed, entry.2 ≠ manifestId := by
  rw [withoutManifests, Store.write_deletes]
  split
  · next gone =>
    obtain ⟨entry, member, same⟩ := List.mem_map.mp gone
    refine iff_of_false (fun stored => stored rfl) fun kept => ?_
    exact kept.2 entry member (manifestKey_injective same)
  · next held =>
    refine (and_iff_left ?_).symm
    rintro entry member rfl
    exact held (List.mem_map_of_mem member)

theorem withoutManifests_snapshotsInfoKey :
    withoutManifests storage removed snapshotsInfoKey = storage snapshotsInfoKey := by
  have apart : snapshotsInfoKey ∉ removed.map fun entry => manifestKey entry.2 := by
    intro member
    obtain ⟨entry, -, same⟩ := List.mem_map.mp member
    exact manifestKey_ne_infoKey entry.2 same
  rw [withoutManifests, Store.write_deletes, if_neg apart]

theorem allStored_withoutManifests :
    AllStored (withoutManifests storage removed) info ↔
      AllStored storage info ∧ ∀ entry ∈ removed, ∀ kept ∈ info, entry.2 ≠ kept.2 := by
  constructor
  · intro all
    refine ⟨fun kept member => ((manifest_withoutManifests _).mp (all kept member)).1, fun entry gone kept member => ?_⟩
    exact ((manifest_withoutManifests _).mp (all kept member)).2 entry gone
  · rintro ⟨all, apart⟩ kept member
    exact (manifest_withoutManifests _).mpr ⟨all kept member, fun entry gone => apart entry gone kept member⟩

theorem exec_deletes_of_works {removed : List (UInt32 × ManifestId)} (db : SnapshotsDb)
    (works : true ∉ db.faults.take removed.length) :
    (Op.forEach (fun entry => deleteManifest entry.2) removed).exec db =
      (.ok (), ⟨withoutManifests db.storage removed, db.faults.drop removed.length, db.cachedInfo⟩) := by
  induction removed generalizing db with
  | nil => rfl
  | cons first rest ih =>
      obtain ⟨now, later⟩ := not_mem_take_succ.mp works
      rw [Op.exec_forEach_cons, deleteManifest, exec_write_of_works now]
      dsimp only
      rw [ih _ later, ← List.drop_one, List.drop_drop, Nat.add_comm 1]
      rfl

theorem exec_deletes_of_fails {removed : List (UInt32 × ManifestId)} (db : SnapshotsDb)
    (fails : true ∈ db.faults.take removed.length) :
    ∃ gone faults, gone <+: removed ∧ (gone = [] ↔ Database.writeFails db.faults = true) ∧
      (Op.forEach (fun entry => deleteManifest entry.2) removed).exec db =
        (.error (.storage .database), ⟨withoutManifests db.storage gone, faults, db.cachedInfo⟩) := by
  induction removed generalizing db with
  | nil => simp at fails
  | cons first rest ih =>
      rw [Op.exec_forEach_cons]
      cases now : Database.writeFails db.faults with
      | true =>
          refine ⟨[], db.faults.tail, List.nil_prefix, iff_of_true rfl rfl, ?_⟩
          rw [deleteManifest, exec_write_of_fails now]
          rfl
      | false =>
          have later : true ∈ db.faults.tail.take rest.length :=
            by_contra fun works => not_mem_take_succ.mpr ⟨now, works⟩ fails
          rw [deleteManifest, exec_write_of_works now]
          obtain ⟨gone, faults, among, -, ran⟩ :=
            ih ⟨db.storage.apply ⟨manifestKey first.2, .delete⟩, db.faults.tail, db.cachedInfo⟩ later
          exact ⟨first :: gone, faults, List.cons_prefix_cons.mpr ⟨rfl, among⟩, by simp, ran⟩

theorem allStored_withoutManifests_iff_nil (all : AllStored storage info) (listed : ∀ entry ∈ removed, entry ∈ info) :
    AllStored (withoutManifests storage removed) info ↔ removed = [] := by
  rw [allStored_withoutManifests, and_iff_right all]
  constructor
  · intro apart
    refine List.eq_nil_iff_forall_not_mem.mpr fun entry member => ?_
    exact apart entry member entry (listed entry member) rfl
  · rintro rfl entry none
    exact absurd none List.not_mem_nil

theorem Lists.withoutManifests (lists : Lists db info) (removed : List (UInt32 × ManifestId)) (faults : List Bool) :
    Lists ⟨withoutManifests db.storage removed, faults, some info⟩ info where
  stored := (storedInfo_congr withoutManifests_snapshotsInfoKey).trans lists.stored
  cached _ same := (Option.some.inj same).symm

theorem exec_pruneSnapshots_of_few (lists : Lists db info) {keepCount : Nat} (few : info.len ≤ keepCount) :
    (pruneSnapshots keepCount).exec db = (.ok (), ⟨db.storage, db.faults, some info⟩) := by
  rw [pruneSnapshots, Op.exec_bind_of_ok (exec_readSnapshotsInfo lists), if_pos few]
  rfl

theorem exec_pruneSnapshots_of_many (lists : Lists db info) {keepCount : Nat} (many : keepCount < info.len) :
    (pruneSnapshots keepCount).exec db =
      (do
        Op.forEach (fun removed => deleteManifest removed.2) (info.items.take (info.len - keepCount))
        writeSnapshotsInfo (info.skip (info.len - keepCount)) : Op SnapshotsDb StateError Unit).exec
          ⟨db.storage, db.faults, some info⟩ := by
  rw [pruneSnapshots, Op.exec_bind_of_ok (exec_readSnapshotsInfo lists), if_neg (Nat.not_le.mpr many)]

theorem length_removed (info : SnapshotsDb.SnapshotsInfo) (keepCount : Nat) :
    (info.items.take (info.len - keepCount)).length = info.len - keepCount :=
  List.length_take_of_le (Nat.sub_le ..)

theorem exec_pruneSnapshots_of_works (lists : Lists db info) {keepCount : Nat} (many : keepCount < info.len)
    (works : true ∉ db.faults.take (info.len - keepCount + 1)) :
    ∃ faults, (pruneSnapshots keepCount).exec db =
      (.ok (), ⟨(withoutManifests db.storage (info.items.take (info.len - keepCount))).apply
        ⟨snapshotsInfoKey, .put (info.skip (info.len - keepCount)).serialize⟩, faults,
        some (info.skip (info.len - keepCount))⟩) := by
  obtain ⟨deletes, last⟩ := not_mem_take_succ_last.mp works
  rw [← length_removed] at deletes last
  rw [exec_pruneSnapshots_of_many lists many,
    Op.exec_bind_of_ok (exec_deletes_of_works ⟨db.storage, db.faults, some info⟩ deletes),
    exec_writeSnapshotsInfo_of_works last]
  exact ⟨_, rfl⟩

theorem exec_pruneSnapshots_of_fails (lists : Lists db info) {keepCount : Nat} (many : keepCount < info.len)
    (fails : true ∈ db.faults.take (info.len - keepCount + 1)) :
    ∃ gone faults, (∀ entry ∈ gone, entry ∈ info) ∧ (gone = [] ↔ Database.writeFails db.faults = true) ∧
      (pruneSnapshots keepCount).exec db =
        (.error (.storage .database), ⟨withoutManifests db.storage gone, faults, some info⟩) := by
  have size := length_removed info keepCount
  have listed : ∀ entry ∈ info.items.take (info.len - keepCount), entry ∈ info := fun _ => List.mem_of_mem_take
  rw [exec_pruneSnapshots_of_many lists many]
  by_cases deletes : true ∈ db.faults.take (info.len - keepCount)
  · rw [← size] at deletes
    obtain ⟨gone, faults, among, first, ran⟩ := exec_deletes_of_fails ⟨db.storage, db.faults, some info⟩ deletes
    refine ⟨gone, faults, fun entry member => listed entry (among.subset member), first, ?_⟩
    rw [Op.exec_bind_of_error ran]
  · have last : Database.writeFails (db.faults.drop (info.len - keepCount)) = true :=
      (Bool.not_eq_false _).mp fun works => not_mem_take_succ_last.mpr ⟨deletes, works⟩ fails
    rw [← size] at deletes last
    have one : info.len - keepCount = info.len - keepCount - 1 + 1 := by omega
    have first : Database.writeFails db.faults = false := by
      rw [size, one] at deletes
      exact (not_mem_take_succ.mp deletes).1
    rw [Op.exec_bind_of_ok (exec_deletes_of_works ⟨db.storage, db.faults, some info⟩ deletes),
      exec_writeSnapshotsInfo_of_fails last]
    refine ⟨_, _, listed, ?_, rfl⟩
    rw [first, List.eq_nil_iff_length_eq_zero, size]
    exact iff_of_false (Nat.sub_ne_zero_of_lt many) Bool.false_ne_true

end Prunings

/-- The first write fails, or none does and no manifest of an entry that goes is listed at a kept height too. -/
def Spares (db : SnapshotsDb) (keepCount : Nat) : Prop :=
  ∀ info, (readSnapshotsInfo.exec db).1 = .ok info → keepCount < info.len →
    if true ∈ db.faults.take (info.len - keepCount + 1) then Database.writeFails db.faults = true
    else ∀ removed ∈ info.items.take (info.len - keepCount), ∀ kept ∈ info.skip (info.len - keepCount),
      removed.2 ≠ kept.2

section Spares
variable {db : SnapshotsDb} {info : SnapshotsDb.SnapshotsInfo} {keepCount : Nat}

theorem spares_iff (lists : Lists db info) (many : keepCount < info.len) :
    Spares db keepCount ↔
      if true ∈ db.faults.take (info.len - keepCount + 1) then Database.writeFails db.faults = true
      else ∀ removed ∈ info.items.take (info.len - keepCount), ∀ kept ∈ info.skip (info.len - keepCount),
        removed.2 ≠ kept.2 := by
  have reads : (readSnapshotsInfo.exec db).1 = .ok info := by rw [exec_readSnapshotsInfo lists]
  constructor
  · intro spares
    exact spares info reads many
  · intro spares other same _
    obtain rfl : info = other := Except.ok.inj (reads.symm.trans same)
    exact spares

/-- A pruning leaves a list all of whose manifests are stored just when it spares what it keeps. -/
theorem pruneSnapshots_spares (lists : Lists db info) (all : AllStored db.storage info) (keepCount : Nat) :
    ∃ after, Lists ((pruneSnapshots keepCount).exec db).2 after ∧
      (AllStored ((pruneSnapshots keepCount).exec db).2.storage after ↔ Spares db keepCount) := by
  rcases Nat.lt_or_ge keepCount info.len with many | few
  · rw [spares_iff lists many]
    split
    · next fails =>
      obtain ⟨gone, faults, listed, first, ran⟩ := exec_pruneSnapshots_of_fails lists many fails
      rw [ran]
      exact ⟨info, lists.withoutManifests gone faults, (allStored_withoutManifests_iff_nil all listed).trans first⟩
    · next works =>
      obtain ⟨faults, ran⟩ := exec_pruneSnapshots_of_works lists many works
      have fewer : AllStored db.storage (info.skip (info.len - keepCount)) :=
        fun entry member => all entry (List.mem_of_mem_drop member)
      rw [ran]
      refine ⟨_, lists_written _ _ _, ?_⟩
      rw [allStored_beside_info, allStored_withoutManifests, and_iff_right fewer]
  · rw [exec_pruneSnapshots_of_few lists few]
    refine ⟨info, ⟨lists.stored, fun _ same => (Option.some.inj same).symm⟩, iff_of_true all ?_⟩
    intro other same many
    rw [exec_readSnapshotsInfo lists] at same
    cases same
    exact absurd few (Nat.not_le.mpr many)

end Spares

/-! ### Runs -/

inductive SnapshotCall where
  | addSnapshot (height : UInt32) (manifestId : ManifestId) (manifestData : Bytes)
  | pruneSnapshots (keepCount : Nat)
  | reopen

def snapshotStep (db : SnapshotsDb) : SnapshotCall → Option SnapshotsDb
  | .addSnapshot height manifestId manifestData => some ((addSnapshot height manifestId manifestData).exec db).2
  | .pruneSnapshots keepCount => some ((pruneSnapshots keepCount).exec db).2
  | .reopen => some (.new db.storage db.faults)

def ListedStored (db : SnapshotsDb) : Prop :=
  ∃ info, (readSnapshotsInfo.exec db).1 = .ok info ∧ ∀ entry ∈ info, db.readManifest entry.2 ≠ none

def SparesListed (db : SnapshotsDb) : SnapshotCall → Prop
  | .pruneSnapshots keepCount => Spares db keepCount
  | _ => True

theorem listedStored_iff {db : SnapshotsDb} {info : SnapshotsDb.SnapshotsInfo} (lists : Lists db info) :
    ListedStored db ↔ AllStored db.storage info := by
  have reads : (readSnapshotsInfo.exec db).1 = .ok info := by rw [exec_readSnapshotsInfo lists]
  constructor
  · rintro ⟨other, same, stored⟩
    obtain rfl : info = other := Except.ok.inj (reads.symm.trans same)
    exact stored
  · intro all
    exact ⟨info, reads, all⟩

theorem Backed.listedStored {db : SnapshotsDb} (backed : Backed db) : ListedStored db := by
  obtain ⟨info, lists, all⟩ := backed
  exact (listedStored_iff lists).mpr all

theorem snapshotStep_spares {db after : SnapshotsDb} {call : SnapshotCall} (backed : Backed db)
    (taken : snapshotStep db call = some after) :
    ∃ left, Lists after left ∧ (AllStored after.storage left ↔ SparesListed db call) := by
  cases call with
  | addSnapshot height manifestId manifestData =>
      obtain ⟨left, lists, all⟩ := backed_addSnapshot backed height manifestId manifestData
      cases taken
      exact ⟨left, lists, iff_of_true all trivial⟩
  | pruneSnapshots keepCount =>
      obtain ⟨info, lists, all⟩ := backed
      cases taken
      exact pruneSnapshots_spares lists all keepCount
  | reopen =>
      obtain ⟨info, lists, all⟩ := backed
      cases taken
      exact ⟨info, ⟨lists.stored, fun _ none => nomatch none⟩, iff_of_true all trivial⟩

theorem backed_step {db after : SnapshotsDb} {call : SnapshotCall} (backed : Backed db) (spares : SparesListed db call)
    (taken : snapshotStep db call = some after) : Backed after := by
  obtain ⟨left, lists, stored⟩ := snapshotStep_spares backed taken
  exact ⟨left, lists, stored.mpr spares⟩

theorem sparesListed_of_listedStored {db after : SnapshotsDb} {call : SnapshotCall} (backed : Backed db)
    (taken : snapshotStep db call = some after) (good : ListedStored after) : SparesListed db call := by
  obtain ⟨left, lists, stored⟩ := snapshotStep_spares backed taken
  exact stored.mp ((listedStored_iff lists).mp good)

theorem listedStored_iff_spares (faults : List Bool) (calls : List SnapshotCall) :
    Always snapshotStep ListedStored (.new (fun _ => none) faults) calls ↔
      Along snapshotStep SparesListed (.new (fun _ => none) faults) calls := by
  have total : ∀ db call, (snapshotStep db call).isSome := fun _ call => by cases call <;> rfl
  obtain ⟨last, ran⟩ := exists_run total (.new (fun _ => none) faults) calls
  exact always_iff_along backed_step sparesListed_of_listedStored Backed.listedStored (backed_new_empty faults) ran

def zeroManifest : ManifestId := ⟨List.replicate 32 0, List.length_replicate⟩

def sharedManifestCalls : List SnapshotCall :=
  [.addSnapshot 1 zeroManifest [1], .addSnapshot 2 zeroManifest [1], .pruneSnapshots 1]

/-- The manifest of heights 1 and 2 goes with height 1 and stays listed at height 2. -/
theorem sharedManifest_lost : ¬ Always snapshotStep ListedStored (.new (fun _ => none) []) sharedManifestCalls := by
  intro always
  obtain ⟨info, reads, stored⟩ := always _ ⟨sharedManifestCalls, List.prefix_rfl, rfl⟩
  obtain rfl := Except.ok.inj reads
  exact stored (2, zeroManifest) (by decide +kernel) (by decide +kernel)

end ErgoNode.Proof.Snapshots
