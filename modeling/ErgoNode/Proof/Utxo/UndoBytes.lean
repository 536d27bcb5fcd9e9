import ErgoNode.Proof.Sample
import ErgoNode.Proof.Utxo.Batch
import ErgoNode.State.UndoBytes

/-!
# Undo records that are read as they were written

A record that fits into its lengths is read back from its bytes, and from no part of them.
-/

namespace ErgoNode.Proof.Utxo
open Lib UndoBytes

section Fields
variable {bound n : Nat} {A : Type} {bytes : Bytes} {a : A} {c d : Cursor} {justified : Room → Prop}

theorem gives_requireLeft {u : Unit} : (requireLeft n).Gives c u d ↔ n ≤ c.rest.length ∧ c = d := by
  simp only [requireLeft, Read.gives_bind, Read.gives_look, Read.gives_ite, Read.gives_fail, Read.gives_pure]
  constructor
  · rintro ⟨_, _, ⟨rfl, rfl⟩, found⟩
    split at found
    · exact found.elim
    · next enough => exact ⟨Nat.le_of_not_lt enough, found.2⟩
  · rintro ⟨enough, rfl⟩
    refine ⟨_, _, ⟨rfl, rfl⟩, ?_⟩
    rw [if_neg (Nat.not_lt_of_le enough)]
    exact ⟨trivial, rfl⟩

theorem safe_requireLeft : (requireLeft n).Safe justified c := by
  simp only [requireLeft, Read.safe_bind, Read.safe_look, Read.safe_ite, Read.safe_fail, Read.safe_pure, implies_true,
    and_self]

theorem reads_requireLeft {rest : Unit → Read StateError A} (enough : n ≤ bytes.length)
    (reads : (rest ()).Reads bound bytes a) : (requireLeft n >>= rest).Reads bound bytes a := by
  intro pos more below
  refine Read.gives_bind.mpr ⟨(), _, gives_requireLeft.mpr ⟨?_, rfl⟩, reads pos more below⟩
  exact Nat.le_trans enough (by simp)

theorem reads_u32 : u32.Reads bound (BigEndian.write 4 n) (UInt32.ofNat n) := by
  have read := @Read.reads_number StateError UInt32 bound 4 n UInt32.ofNat
  have same : UInt32.ofNat (n % 256 ^ 4) = UInt32.ofNat n := UInt32.toNat_inj.mp (by simp)
  rwa [same] at read

theorem reads_checkedU32 : checkedU32.Reads bound (BigEndian.write 4 n) (UInt32.ofNat n) :=
  reads_requireLeft (Nat.le_of_eq (BigEndian.length_write 4 n).symm) reads_u32

theorem reads_framed (short : bytes.length < 2 ^ 32) : readFramed.Reads bound (framed bytes) bytes := by
  apply reads_checkedU32.bind
  rw [UInt32.toNat_ofNat_of_lt' short]
  exact reads_requireLeft (Nat.le_refl _) (Read.reads_take rfl)

theorem safe_u32 : u32.Safe justified c ↔ 4 ≤ c.rest.length := by
  rw [u32, Read.safe_map, Read.safe_take]

theorem safe_checkedU32 : checkedU32.Safe justified c := by
  refine Read.safe_bind.mpr ⟨safe_requireLeft, fun _ _ required => ?_⟩
  obtain ⟨enough, rfl⟩ := gives_requireLeft.mp required
  exact safe_u32.mpr enough

theorem safe_readFramed : readFramed.Safe justified c := by
  refine Read.safe_bind.mpr ⟨safe_checkedU32, fun len _ _ => ?_⟩
  refine Read.safe_bind.mpr ⟨safe_requireLeft, fun _ _ required => ?_⟩
  obtain ⟨enough, rfl⟩ := gives_requireLeft.mp required
  exact Read.safe_take.mpr enough

theorem local_u32 : u32.Local := (Read.local_take 4).map

theorem local_checkedU32 : checkedU32.Local :=
  (Read.local_atLeast Read.local_pure).bind fun _ => local_u32

theorem local_readFramed : readFramed.Local :=
  local_checkedU32.bind fun _ => (Read.local_atLeast Read.local_pure).bind fun _ => Read.local_take _

end Fields

/-! ### Box entries -/

section Entries
variable {sr : SigmaRust} {entry : UndoBytes.BoxEntry} {bytes : Bytes}

def entryLayout (creationHeight outputIndex : Nat) (txId boxBytes : Bytes) : Bytes :=
  BigEndian.write 4 creationHeight ++ (txId ++ (BigEndian.write 2 outputIndex ++ boxBytes))

theorem serialize_entry_eq_ok : entry.serialize sr = .ok bytes ↔ ∃ boxBytes,
    sr.boxBytes entry.ergoBox = .ok boxBytes ∧
      bytes = entryLayout entry.creationHeight.toNat entry.outputIndex.toNat entry.txId boxBytes := by
  simp only [UndoBytes.BoxEntry.serialize, Except.bind_ok_eq_ok, Except.mapError_ok_iff, Except.pure_eq_ok,
    List.append_assoc, entryLayout, eq_comm (a := bytes)]

theorem deserialize_entryLayout {creationHeight outputIndex : Nat} {txId boxBytes : Bytes} (size : txId.length = 32) :
    UndoBytes.BoxEntry.deserialize sr (entryLayout creationHeight outputIndex txId boxBytes) =
      ((sr.parseBox boxBytes).mapError .serialization).map fun ergoBox =>
        ⟨ergoBox, UInt32.ofNat (creationHeight % 256 ^ 4), txId, UInt16.ofNat (outputIndex % 256 ^ 2)⟩ := by
  have long : ¬ (entryLayout creationHeight outputIndex txId boxBytes).length < 38 := by
    simp only [entryLayout, List.length_append, BigEndian.length_write, size]
    omega
  have afterHeight : (entryLayout creationHeight outputIndex txId boxBytes).drop 4 =
      txId ++ (BigEndian.write 2 outputIndex ++ boxBytes) := BigEndian.drop_write 4 _ _
  have afterTxId : (entryLayout creationHeight outputIndex txId boxBytes).drop 36 =
      BigEndian.write 2 outputIndex ++ boxBytes := by
    rw [← List.drop_drop (i := 32) (j := 4), afterHeight, List.drop_left' size]
  have afterIndex : (entryLayout creationHeight outputIndex txId boxBytes).drop 38 = boxBytes := by
    rw [← List.drop_drop (i := 2) (j := 36), afterTxId, BigEndian.drop_write]
  have height : (entryLayout creationHeight outputIndex txId boxBytes).take 4 = BigEndian.write 4 creationHeight :=
    BigEndian.take_write 4 _ _
  rw [UndoBytes.BoxEntry.deserialize, if_neg long]
  dsimp only
  rw [height, afterHeight, List.take_left' size, afterTxId, BigEndian.take_write, afterIndex, BigEndian.read_write,
    BigEndian.read_write]
  rfl

theorem deserialize_serialize (size : entry.txId.length = 32) (written : entry.serialize sr = .ok bytes) :
    UndoBytes.BoxEntry.deserialize sr bytes = .ok entry := by
  obtain ⟨boxBytes, encoded, rfl⟩ := serialize_entry_eq_ok.mp written
  have height : UInt32.ofNat (entry.creationHeight.toNat % 256 ^ 4) = entry.creationHeight :=
    UInt32.toNat_inj.mp (by simp)
  have index : UInt16.ofNat (entry.outputIndex.toNat % 256 ^ 2) = entry.outputIndex :=
    UInt16.toNat_inj.mp (by simp)
  rw [deserialize_entryLayout size, sr.parse_boxBytes encoded, height, index]
  rfl

end Entries

/-! ### The records of the state -/

section Flat
variable {sr : SigmaRust}

def flatEntry (entry : BoxEntry) : UndoBytes.BoxEntry :=
  ⟨entry.ergoBox, UInt32.ofNat entry.creationHeight, entry.txId.bytes, UInt16.ofNat entry.outputIndex⟩

def flatUndo (undo : UndoData) : UndoBytes.UndoData :=
  ⟨UInt32.ofNat undo.height, undo.spentBoxes.map flatEntry, undo.createdBoxIds.map Digest32.bytes⟩

def storedEntryBytes (box : StoredBox) : Bytes :=
  entryLayout box.creationHeight box.outputIndex box.txId.bytes box.boxBytes

def storedUndoBytes (stored : StoredUndo) : Bytes :=
  BigEndian.write 4 stored.height ++
    (BigEndian.write 4 stored.spentBoxes.length ++ (stored.spentBoxes.map storedEntryBytes).flatMap framed) ++
    (BigEndian.write 4 stored.createdBoxIds.length ++ (stored.createdBoxIds.map Digest32.bytes).flatMap framed)

theorem write_ofNat_u32 (n : Nat) : BigEndian.write 4 (UInt32.ofNat n).toNat = BigEndian.write 4 n := by
  rw [UInt32.toNat_ofNat']
  exact BigEndian.write_mod 4 n

theorem write_ofNat_u16 (n : Nat) : BigEndian.write 2 (UInt16.ofNat n).toNat = BigEndian.write 2 n := by
  rw [UInt16.toNat_ofNat']
  exact BigEndian.write_mod 2 n

theorem serialize_flatEntry (entry : BoxEntry) :
    (flatEntry entry).serialize sr = (entry.serialize sr).map storedEntryBytes := by
  rw [UndoBytes.BoxEntry.serialize, BoxEntry.serialize, flatEntry]
  dsimp only
  cases sr.boxBytes entry.ergoBox with
  | error e => rfl
  | ok boxBytes =>
      change Except.ok _ = Except.ok _
      rw [storedEntryBytes, entryLayout, write_ofNat_u32, write_ofNat_u16, List.append_assoc, List.append_assoc]

theorem mapM_serialize_flat (entries : List BoxEntry) :
    (entries.map flatEntry).mapM (UndoBytes.BoxEntry.serialize sr) =
      (entries.mapM (BoxEntry.serialize sr)).map (List.map storedEntryBytes) := by
  induction entries with
  | nil => rfl
  | cons entry entries ih =>
      rw [List.map_cons, List.mapM_cons, List.mapM_cons, serialize_flatEntry, ih]
      cases entry.serialize sr with
      | error e => rfl
      | ok box =>
          cases entries.mapM (BoxEntry.serialize sr) <;> rfl

/-- The bytes of a record are those of what the database holds for it. -/
theorem serialize_flatUndo (undo : UndoData) :
    (flatUndo undo).serialize sr = (undo.serialize sr).map storedUndoBytes := by
  rw [UndoBytes.UndoData.serialize, UndoData.serialize, flatUndo, mapM_serialize_flat]
  cases written : undo.spentBoxes.mapM (BoxEntry.serialize sr) with
  | error e => rfl
  | ok boxes =>
      have same := (mapM_eq_ok.mp written).length_eq
      change Except.ok _ = Except.ok _
      rw [storedUndoBytes, write_ofNat_u32, List.length_map, List.length_map, same]

end Flat

/-! ### Undo records -/

section Records
variable {sr : SigmaRust} {undo : UndoBytes.UndoData} {bytes : Bytes} {bound entrySize : Nat} {c : Cursor}

/-- Transaction ids of 32 bytes, and lengths that four bytes can say. -/
structure Storable (sr : SigmaRust) (undo : UndoBytes.UndoData) : Prop where
  spentBoxes : undo.spentBoxes.length < 2 ^ 32
  createdBoxIds : undo.createdBoxIds.length < 2 ^ 32
  ids : ∀ id ∈ undo.createdBoxIds, id.length < 2 ^ 32
  txIds : ∀ entry ∈ undo.spentBoxes, entry.txId.length = 32
  entries : ∀ entry ∈ undo.spentBoxes, ∃ bytes, entry.serialize sr = .ok bytes ∧ bytes.length < 2 ^ 32

theorem serialize_undo_eq_ok : undo.serialize sr = .ok bytes ↔ ∃ entries,
    List.Forall₂ (fun entry bytes => entry.serialize sr = .ok bytes) undo.spentBoxes entries ∧
      bytes = BigEndian.write 4 undo.height.toNat ++
        (BigEndian.write 4 undo.spentBoxes.length ++ (entries.flatMap framed ++
          (BigEndian.write 4 undo.createdBoxIds.length ++ undo.createdBoxIds.flatMap framed))) := by
  simp only [UndoBytes.UndoData.serialize, Except.bind_ok_eq_ok, mapM_eq_ok, Except.pure_eq_ok, List.append_assoc,
    eq_comm (a := bytes)]

theorem Storable.serialize (storable : Storable sr undo) : ∃ bytes, undo.serialize sr = .ok bytes := by
  obtain ⟨entries, written⟩ := exists_forall₂.mpr fun entry member =>
    (storable.entries entry member).imp fun bytes both => both.1
  exact ⟨_, serialize_undo_eq_ok.mpr ⟨entries, written, rfl⟩⟩

theorem reads_spentBox {entry : UndoBytes.BoxEntry} (size : entry.txId.length = 32)
    (written : entry.serialize sr = .ok bytes) (short : bytes.length < 2 ^ 32) :
    (UndoBytes.UndoData.readSpentBox sr).Reads bound (framed bytes) entry := by
  apply (reads_framed short).last
  rw [deserialize_serialize size written]
  exact Read.reads_pure

theorem safe_readSpentBox {justified : Room → Prop} : (UndoBytes.UndoData.readSpentBox sr).Safe justified c :=
  Read.safe_bind.mpr ⟨safe_readFramed, fun _ _ _ => Read.safe_ofExcept _⟩

theorem local_readSpentBox : (UndoBytes.UndoData.readSpentBox sr).Local :=
  local_readFramed.bind fun _ => Read.local_ofExcept _

theorem local_undo : (UndoBytes.UndoData.read sr entrySize).Local := by
  refine Read.local_atLeast ?_
  refine local_u32.bind fun _ => local_u32.bind fun _ => (Read.local_withCapacity _ _ _).bind fun _ => ?_
  refine (Read.local_repeated local_readSpentBox _).bind fun _ => local_checkedU32.bind fun _ => ?_
  refine (Read.local_withCapacity _ _ _).bind fun _ => ?_
  exact (Read.local_repeated local_readFramed _).bind fun _ => Read.local_pure

theorem room_le {count : UInt32} {size : Nat} (narrow : size ≤ 2 ^ 31) : count.toNat * size ≤ isizeMax := by
  have most : count.toNat ≤ 2 ^ 32 - 1 := Nat.le_pred_of_lt count.toNat_lt
  exact Nat.le_trans (Nat.mul_le_mul most narrow) (by decide)

theorem createdIdSize_le : createdIdSize ≤ 2 ^ 31 := by decide

theorem safe_undo (narrow : entrySize ≤ 2 ^ 31) : (UndoBytes.UndoData.read sr entrySize).Safe (fun _ => True) c := by
  refine Read.safe_bind.mpr ⟨Read.safe_look, fun rest d looked => ?_⟩
  obtain ⟨rfl, rfl⟩ := Read.gives_look.mp looked
  refine Read.safe_ite.mpr ⟨fun _ => Read.safe_fail _, fun long => ?_⟩
  refine Read.safe_bind.mpr ⟨safe_u32.mpr (by omega), fun height d given => ?_⟩
  obtain ⟨_, taken, -⟩ := Read.gives_map.mp given
  obtain ⟨-, -, rfl⟩ := Read.gives_take.mp taken
  refine Read.safe_bind.mpr ⟨safe_u32.mpr ?_, fun spentCount _ _ => ?_⟩
  · rw [Cursor.skip, List.length_drop]
    omega
  refine Read.safe_bind.mpr ⟨Read.safe_withCapacity.mpr ⟨room_le narrow, trivial⟩, fun _ _ _ => ?_⟩
  refine Read.safe_bind.mpr ⟨Read.safe_repeated (fun _ => safe_readSpentBox) _, fun _ _ _ => ?_⟩
  refine Read.safe_bind.mpr ⟨safe_checkedU32, fun createdCount _ _ => ?_⟩
  refine Read.safe_bind.mpr ⟨Read.safe_withCapacity.mpr ⟨room_le createdIdSize_le, trivial⟩, fun _ _ _ => ?_⟩
  exact Read.safe_bind.mpr ⟨Read.safe_repeated (fun _ => safe_readFramed) _, fun _ _ _ => Read.safe_pure⟩

theorem reads_spentBoxes {entries : List Bytes} (storable : Storable sr undo)
    (written : List.Forall₂ (fun entry bytes => entry.serialize sr = .ok bytes) undo.spentBoxes entries) :
    (Read.repeated (UndoBytes.UndoData.readSpentBox sr) undo.spentBoxes.length).Reads bound
      (entries.flatMap framed) undo.spentBoxes := by
  apply Read.reads_repeated_pieces
  have both := (List.forall₂_and_left _ _).mpr
    ⟨fun entry member => (⟨storable.txIds entry member, storable.entries entry member⟩ : _ ∧ _), written⟩
  refine both.imp ?_
  rintro entry bytes ⟨⟨size, other, same, short⟩, written⟩
  cases same.symm.trans written
  exact reads_spentBox size written short

theorem reads_undo (narrow : entrySize ≤ 2 ^ 31) (storable : Storable sr undo)
    (written : undo.serialize sr = .ok bytes) :
    (UndoBytes.UndoData.read sr entrySize).Reads bound bytes undo := by
  obtain ⟨entries, pairs, rfl⟩ := serialize_undo_eq_ok.mp written
  have created : (Read.repeated readFramed undo.createdBoxIds.length).Reads bound
      (undo.createdBoxIds.flatMap framed) undo.createdBoxIds :=
    Read.reads_repeated fun id member => reads_framed (storable.ids id member)
  apply Read.reads_look
  intro rest
  rw [if_neg]
  · have height := @reads_u32 bound undo.height.toNat
    rw [UInt32.ofNat_toNat] at height
    refine height.bind (reads_u32.bind ?_)
    refine Read.reads_reserving (room_le narrow) ?_
    rw [UInt32.toNat_ofNat_of_lt' storable.spentBoxes]
    refine (reads_spentBoxes storable pairs).bind (reads_checkedU32.bind ?_)
    refine Read.reads_reserving (room_le createdIdSize_le) ?_
    rw [UInt32.toNat_ofNat_of_lt' storable.createdBoxIds]
    exact created.last Read.reads_pure
  · simp only [List.length_append, BigEndian.length_write]
    omega

theorem deserialize_serialize_undo (narrow : entrySize ≤ 2 ^ 31) (storable : Storable sr undo)
    (written : undo.serialize sr = .ok bytes) : UndoBytes.UndoData.deserialize sr entrySize bytes = .ok undo := by
  have reads := @reads_undo sr undo bytes (bytes.length + 1) entrySize narrow storable written
  rw [UndoBytes.UndoData.deserialize, reads.whole (Nat.lt_succ_self _)]
  rfl

theorem rejects_part (narrow : entrySize ≤ 2 ^ 31) (storable : Storable sr undo)
    (written : undo.serialize sr = .ok bytes) {p : Bytes} (start : p <+: bytes) (part : p ≠ bytes) :
    ∃ e, UndoBytes.UndoData.deserialize sr entrySize p = .error (.error e) := by
  have reads := @reads_undo sr undo bytes (bytes.length + 1) entrySize narrow storable written
  obtain ⟨e, refused⟩ := local_undo.rejects reads (Nat.lt_succ_self _) start part (safe_undo narrow)
  refine ⟨e, ?_⟩
  rw [UndoBytes.UndoData.deserialize, refused]
  rfl

/-- A record is read back from its bytes, and every part that ends before them is refused. They are the bytes that
the state stores for the record. -/
theorem undo_round_trip (narrow : entrySize ≤ 2 ^ 31) (storable : Storable sr undo) :
    ∃ bytes, undo.serialize sr = .ok bytes ∧ UndoBytes.UndoData.deserialize sr entrySize bytes = .ok undo ∧
      (∀ p, p <+: bytes → p ≠ bytes → ∃ e, UndoBytes.UndoData.deserialize sr entrySize p = .error (.error e)) ∧
      ∀ record, flatUndo record = undo → (record.serialize sr).map storedUndoBytes = .ok bytes := by
  obtain ⟨bytes, written⟩ := storable.serialize
  refine ⟨bytes, written, deserialize_serialize_undo narrow storable written, ?_, ?_⟩
  · exact fun p start part => rejects_part narrow storable written start part
  · rintro record rfl
    exact (serialize_flatUndo record).symm.trans written

end Records

def spentTwo : UndoData where
  height := 700
  spentBoxes := [⟨Sample.sampleBox 1, 1, .filled 9, 0⟩, ⟨Sample.sampleBox 4, 2, .filled 7, 258⟩]
  createdBoxIds := [.filled 1, .filled 3]

abbrev twoSpent : UndoBytes.UndoData := flatUndo spentTwo

theorem storable_twoSpent : Storable Sample.boxCodec twoSpent := by
  refine ⟨by decide, by decide, by decide, by decide, ?_⟩
  intro entry member
  rcases List.mem_cons.mp member with rfl | member
  · exact ⟨_, rfl, by decide⟩
  · obtain rfl := List.mem_singleton.mp member
    exact ⟨_, rfl, by decide⟩

theorem undo_round_trip_twoSpent : ∃ bytes, twoSpent.serialize Sample.boxCodec = .ok bytes ∧
    UndoBytes.UndoData.deserialize Sample.boxCodec 400 bytes = .ok twoSpent ∧
      (∀ p, p <+: bytes → p ≠ bytes →
        ∃ e, UndoBytes.UndoData.deserialize Sample.boxCodec 400 p = .error (.error e)) ∧
      (spentTwo.serialize Sample.boxCodec).map storedUndoBytes = .ok bytes := by
  obtain ⟨bytes, written, readBack, parts, stored⟩ :=
    @undo_round_trip Sample.boxCodec twoSpent 400 (by decide) storable_twoSpent
  exact ⟨bytes, written, readBack, parts, stored spentTwo rfl⟩

end ErgoNode.Proof.Utxo
