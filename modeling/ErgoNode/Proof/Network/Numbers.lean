import ErgoNode.Consensus.Sections
import ErgoNode.Network.Handshake
import ErgoNode.Proof.Network.Safety
import ErgoNode.State.Snapshots

/-!
# Numbers are read as they were written

Every number comes back with its exact length. What the readers make of other bytes is the number that these
write down, unless they have a tenth group with bits beyond the 64th: these bits are shifted out.

Behind a count that takes more bytes than it needs, the ids of a list are read from too early a position.
-/

namespace ErgoNode.Proof.Network
open Lib

section Laws
variable {ε α β γ : Type}

/-- What was written comes back, between whatever other bytes. -/
def ReadsBack (encode : α → Bytes) (given : α → β) (decode : Bytes → Nat → Except ε (β × Nat)) : Prop :=
  ∀ before value rest, decode (before ++ (encode value ++ rest)) before.length =
    .ok (given value, before.length + (encode value).length)

/-- What is read is what the bytes up to the new position write down, if anything is read. -/
def ReadsExactly (meaning : β → γ) (sum : Nat → γ) (decode : Bytes → Nat → Except ε (β × Nat)) (data : Bytes)
    (pos : Nat) : Prop :=
  ∀ value next, decode data pos = .ok (value, next) → pos < next ∧ next ≤ data.length ∧
    meaning value = sum (Vlq.total ((data.drop pos).take (next - pos)))

end Laws

section Reader
variable {ε : Type} {fault : Vlq.Fault → ε} {data : Bytes} {pos value next : Nat}

theorem decodeAt_eq_ok : (Vlq.decodeAt data pos).mapError fault = .ok (value, next) ↔
    ∃ used, Vlq.decode (data.drop pos) = .ok (value, used) ∧ pos + used = next := by
  rw [Vlq.decodeAt_eq]
  cases Vlq.decode (data.drop pos) <;> simp [Except.map, Except.mapError, Prod.ext_iff]

theorem readsBack_unsigned (fault : Vlq.Fault → ε) :
    ReadsBack (fun value : UInt64 => Vlq.encode value.toNat) UInt64.toNat
      (fun data pos => (Vlq.decodeAt data pos).mapError fault) := by
  intro before value rest
  apply decodeAt_eq_ok.mpr
  refine ⟨_, ?_, rfl⟩
  rw [List.drop_left, Vlq.decode_encode_append value.toNat_lt]

/-- A reader that goes on with what is decoded, in a way that tells all 64-bit numbers apart. -/
theorem readsExactly_iff {β γ : Type} {meaning : β → γ} {sum : Nat → γ} {decode : Bytes → Nat → Except ε (β × Nat)}
    {given : Nat → β} (reads : ∀ {value next}, decode data pos = .ok (value, next) ↔
      ∃ number, (Vlq.decodeAt data pos).mapError fault = .ok (number, next) ∧ given number = value)
    (means : ∀ {number}, number < 2 ^ 64 → meaning (given number) = sum number)
    (apart : Function.Injective sum) :
    ReadsExactly meaning sum decode data pos ↔ ¬ Vlq.Overlong (data.drop pos) := by
  rw [← Vlq.exact_iff]
  constructor
  · intro exact number used decoded
    have small := (Vlq.decode_eq_ok decoded).2.2.1
    have read : (Vlq.decodeAt data pos).mapError fault = .ok (number, pos + used) :=
      decodeAt_eq_ok.mpr ⟨used, decoded, rfl⟩
    obtain ⟨-, -, same⟩ := exact _ _ (reads.mpr ⟨number, read, rfl⟩)
    rw [means small, Nat.add_sub_cancel_left] at same
    exact (apart same).symm
  · intro exact value next read
    obtain ⟨number, found, rfl⟩ := reads.mp read
    obtain ⟨used, decoded, rfl⟩ := decodeAt_eq_ok.mp found
    obtain ⟨positive, within, small, -⟩ := Vlq.decode_eq_ok decoded
    rw [List.length_drop] at within
    refine ⟨by omega, by omega, ?_⟩
    rw [means small, Nat.add_sub_cancel_left, exact number used decoded]

theorem readsExactly_unsigned (fault : Vlq.Fault → ε) (data : Bytes) (pos : Nat) :
    ReadsExactly id id (fun data pos => (Vlq.decodeAt data pos).mapError fault) data pos ↔
      ¬ Vlq.Overlong (data.drop pos) := by
  apply @readsExactly_iff ε fault data pos _ _ _ _ _ id
  · simp
  · simp
  · exact Function.injective_id

theorem vlqDecodeSigned_eq_ok {value : Int64} :
    HandshakeData.vlqDecodeSigned data pos = .ok (value, next) ↔
      ∃ number, (Vlq.decodeAt data pos).mapError vlqFault = .ok (number, next) ∧
        Vlq.unZigZag (UInt64.ofNat number) = value := by
  unfold HandshakeData.vlqDecodeSigned HandshakeData.vlqDecode
  cases (Vlq.decodeAt data pos).mapError vlqFault <;>
    simp [bind, Except.bind, pure, Except.pure, Prod.ext_iff, and_comm]

theorem readsBack_signed : ReadsBack HandshakeData.vlqEncodeSigned id HandshakeData.vlqDecodeSigned := by
  intro before value rest
  apply vlqDecodeSigned_eq_ok.mpr
  refine ⟨(Vlq.zigZag value).toNat, readsBack_unsigned vlqFault before (Vlq.zigZag value) rest, ?_⟩
  rw [UInt64.ofNat_toNat, Vlq.unZigZag_zigZag, id]

theorem readsExactly_signed (data : Bytes) (pos : Nat) :
    ReadsExactly Int64.toInt Vlq.unfolded HandshakeData.vlqDecodeSigned data pos ↔
      ¬ Vlq.Overlong (data.drop pos) := by
  apply readsExactly_iff vlqDecodeSigned_eq_ok
  · intro number small
    rw [Vlq.toInt_unZigZag, UInt64.toNat_ofNat_of_lt' small]
  · exact Vlq.unfolded_injective

end Reader

/-- Each number that one of the four modules can write is read back with its length; and from other bytes each
reader gives the number that they write down, or an error, exactly if these have no tenth group that is too
large. -/
theorem numbers_exact_iff (data : Bytes) (pos : Nat) :
    (ReadsBack Message.vlqEncode UInt64.toNat Message.vlqDecode ∧
      ReadsBack HandshakeData.vlqEncode UInt64.toNat HandshakeData.vlqDecode ∧
      ReadsBack HandshakeData.vlqEncodeSigned id HandshakeData.vlqDecodeSigned ∧
      ReadsBack SnapshotsDb.SnapshotsInfo.vlqEncode UInt64.toNat SnapshotsDb.SnapshotsInfo.vlqDecode ∧
      ∀ (value : UInt64) rest, Extension.vlqDecode (Message.vlqEncode value ++ rest) =
        .ok (value.toNat, (Message.vlqEncode value).length)) ∧
    (ReadsExactly id id Message.vlqDecode data pos ↔ ¬ Vlq.Overlong (data.drop pos)) ∧
    (ReadsExactly id id HandshakeData.vlqDecode data pos ↔ ¬ Vlq.Overlong (data.drop pos)) ∧
    (ReadsExactly Int64.toInt Vlq.unfolded HandshakeData.vlqDecodeSigned data pos ↔
      ¬ Vlq.Overlong (data.drop pos)) ∧
    (ReadsExactly id id SnapshotsDb.SnapshotsInfo.vlqDecode data pos ↔ ¬ Vlq.Overlong (data.drop pos)) ∧
    (ReadsExactly id id (fun data _ => Extension.vlqDecode data) data 0 ↔ ¬ Vlq.Overlong data) := by
  refine ⟨⟨?_, ?_, readsBack_signed, ?_, fun value rest => ?_⟩, ?_, ?_, ?_, ?_, ?_⟩
  · exact readsBack_unsigned vlqFault
  · exact readsBack_unsigned vlqFault
  · exact readsBack_unsigned SnapshotsDb.SnapshotsInfo.vlqFault
  · have read := readsBack_unsigned Extension.vlqFault [] value rest
    rwa [List.length_nil, Nat.zero_add] at read
  · exact readsExactly_unsigned vlqFault data pos
  · exact readsExactly_unsigned vlqFault data pos
  · exact readsExactly_signed data pos
  · exact readsExactly_unsigned SnapshotsDb.SnapshotsInfo.vlqFault data pos
  · exact readsExactly_unsigned Extension.vlqFault data 0

/-- The tenth group holds the 64th bit, and this one the 65th too. -/
def tooLarge : Bytes := List.replicate 9 0x80 ++ [2]

theorem tooLarge_misread : Message.vlqDecode tooLarge 0 = .ok (0, 10) ∧ HandshakeData.vlqDecode tooLarge 0 = .ok (0, 10) ∧
    HandshakeData.vlqDecodeSigned tooLarge 0 = .ok (0, 10) ∧ SnapshotsDb.SnapshotsInfo.vlqDecode tooLarge 0 = .ok (0, 10) ∧
    Extension.vlqDecode tooLarge = .ok (0, 10) ∧ Vlq.total tooLarge = 2 ^ 64 ∧
    ¬ ∀ data, ReadsExactly id id Message.vlqDecode data 0 := by
  have read {ε : Type} (fault : Vlq.Fault → ε) : (Vlq.decodeAt tooLarge 0).mapError fault = .ok (0, 10) :=
    decodeAt_eq_ok.mpr ⟨10, rfl, rfl⟩
  refine ⟨read _, read _, vlqDecodeSigned_eq_ok.mpr ⟨0, read _, rfl⟩, read _, read _, by decide, fun exact => ?_⟩
  obtain ⟨-, -, same⟩ := exact tooLarge 0 10 (read _)
  revert same
  decide

/-! ### Ids behind a count -/

def idBlocks (count : Nat) (data : Bytes) : List Bytes :=
  (List.range (min count (data.length / 32))).map fun i => (data.drop (32 * i)).take 32

section Blocks
variable {count used : Nat} {data first second body : Bytes}

@[simp] theorem length_idBlocks : (idBlocks count data).length = min count (data.length / 32) := by
  simp [idBlocks]

theorem idBlocks_of_lt (short : data.length < 32) : idBlocks count data = [] := by
  simp [idBlocks, Nat.div_eq_of_lt short]

theorem idBlocks_succ (enough : 32 ≤ data.length) :
    idBlocks (count + 1) data = data.take 32 :: idBlocks count (data.drop 32) := by
  have more : data.length / 32 = (data.drop 32).length / 32 + 1 := by
    rw [List.length_drop]
    omega
  simp only [idBlocks, more, Nat.add_min_add_right, List.range_succ_eq_map, List.map_cons, List.map_map,
    Nat.mul_zero, List.drop_zero, List.drop_drop]
  congr 1
  apply List.map_congr_left
  intro i _
  show (data.drop (32 * (i + 1))).take 32 = (data.drop (32 + 32 * i)).take 32
  rw [Nat.mul_succ, Nat.add_comm]

theorem getElem?_idBlocks {i : Nat} (inside : i < min count (data.length / 32)) :
    (idBlocks count data)[i]? = some ((data.drop (32 * i)).take 32) := by
  simp [idBlocks, List.getElem?_range inside]

theorem idBlocks_eq_iff : idBlocks count first = idBlocks count second ↔
    min count (first.length / 32) = min count (second.length / 32) ∧
      ∀ i < 32 * min count (first.length / 32), first[i]? = second[i]? := by
  constructor
  · intro same
    have sizes : min count (first.length / 32) = min count (second.length / 32) := by
      rw [← length_idBlocks, same, length_idBlocks]
    refine ⟨sizes, fun i inside => ?_⟩
    have block : i / 32 < min count (first.length / 32) := Nat.div_lt_of_lt_mul inside
    have equal := congrArg (fun found => found[i / 32]?) same
    simp only [getElem?_idBlocks block, getElem?_idBlocks (sizes ▸ block), Option.some.injEq] at equal
    have byte := congrArg (fun bytes => bytes[i % 32]?) equal
    have within : i % 32 < 32 := Nat.mod_lt i (by decide)
    simpa only [List.getElem?_take, if_pos within, List.getElem?_drop, Nat.div_add_mod] using byte
  · rintro ⟨sizes, bytes⟩
    unfold idBlocks
    rw [← sizes]
    apply List.map_congr_left
    intro i inside
    have block := List.mem_range.mp inside
    apply List.ext_getElem?
    intro j
    rw [List.getElem?_take, List.getElem?_take]
    split
    · rw [List.getElem?_drop, List.getElem?_drop, bytes (32 * i + j) (by omega)]
    · rfl

end Blocks

section Inventory
variable {c d : Cursor} {json : SerdeJson} {count used : Nat} {typeId : UInt8} {ids : List Bytes} {body : Bytes}

theorem gives_readId {found : Option Bytes} : readId.Gives c found d ↔
    if c.rest.length < 32 then none = found ∧ c = d else some (c.rest.take 32) = found ∧ c.skip 32 = d := by
  simp only [readId, Read.gives_bind, Read.gives_look, Read.gives_ite, Read.gives_pure, Read.gives_map, Read.gives_take]
  constructor
  · rintro ⟨_, _, ⟨rfl, rfl⟩, found⟩
    split at found
    · next short => simpa [short] using found
    · next enough =>
        obtain ⟨_, ⟨-, rfl, moved⟩, same⟩ := found
        rw [if_neg enough]
        exact ⟨same, moved⟩
  · intro given
    refine ⟨_, _, ⟨rfl, rfl⟩, ?_⟩
    split at given
    · next short => rwa [if_pos short]
    · next enough =>
        rw [if_neg enough]
        exact ⟨_, ⟨Nat.not_lt.mp enough, rfl, given.2⟩, given.1⟩

theorem collected_ids (given : (Read.collect readId count).Gives c ids d) : ids = idBlocks count c.rest := by
  induction count generalizing c d ids with
  | zero =>
      obtain ⟨rfl, -⟩ := Read.gives_pure.mp given
      simp [idBlocks]
  | succ count ih =>
      obtain ⟨found, middle, first, later⟩ := Read.gives_bind.mp given
      rw [gives_readId] at first
      split at first
      · next short =>
          obtain ⟨rfl, rfl⟩ := first
          obtain ⟨rfl, -⟩ := Read.gives_pure.mp later
          exact (idBlocks_of_lt short).symm
      · next enough =>
          obtain ⟨rfl, rfl⟩ := first
          obtain ⟨rest, _, others, last⟩ := Read.gives_bind.mp later
          obtain ⟨rfl, -⟩ := Read.gives_pure.mp last
          rw [idBlocks_succ (Nat.not_lt.mp enough), ih others]
          rfl

theorem read_inventory (given : readInventory.Gives c (typeId, ids) d) : ∃ body count used,
    c.rest = typeId :: body ∧ Vlq.decode body = .ok (count, used) ∧
      ids = idBlocks count (body.drop (Vlq.byteLen count)) := by
  obtain ⟨pos, rest⟩ := c
  simp only [readInventory, readIds, Read.gives_bind, Read.gives_byte, Read.gives_look, Read.gives_ofExcept,
    Read.gives_advance, Read.gives_withCapacity, Read.gives_pure, Prod.mk.injEq] at given
  obtain ⟨_, _, ⟨first, rfl⟩, _, _, ⟨rfl, rfl⟩, ⟨count, used⟩, _, ⟨decoded, rfl⟩, _, _, ⟨-, rfl⟩, _, _,
    ⟨_, _, ⟨-, rfl⟩, collected⟩, ⟨rfl, rfl⟩, -⟩ := given
  cases rest with
  | nil => cases first
  | cons head body =>
      cases first
      exact ⟨body, count, used, rfl, vlqDecode_ok.mp decoded, collected_ids collected⟩

def inventoryOf : Message → Option (UInt8 × List Bytes)
  | .inv ⟨typeId, ids⟩ => some (typeId, ids)
  | .requestModifier ⟨typeId, ids⟩ => some (typeId, ids)
  | _ => none

theorem gives_inventory {type : MessageType} {message : Message} (given : (Message.read json type).Gives c message d)
    (listed : inventoryOf message = some (typeId, ids)) : readInventory.Gives c (typeId, ids) d := by
  cases type <;> simp only [Message.read, Read.gives_map, Read.gives_pure] at given
  case inv =>
    obtain ⟨⟨_, _⟩, read, rfl⟩ := given
    cases listed
    exact read
  case requestModifier =>
    obtain ⟨⟨_, _⟩, read, rfl⟩ := given
    cases listed
    exact read
  all_goals
    first
    | obtain ⟨rfl, -⟩ := given
      cases listed
    | obtain ⟨_, -, rfl⟩ := given
      cases listed

/-- From where its shortest form would end, the bytes of all ids are those that stand behind the count. -/
def Repeats (count used : Nat) (body : Bytes) : Prop :=
  min count ((body.length - Vlq.byteLen count) / 32) = min count ((body.length - used) / 32) ∧
    ∀ i < 32 * min count ((body.length - used) / 32), body[Vlq.byteLen count + i]? = body[used + i]?

instance (count used : Nat) (body : Bytes) : Decidable (Repeats count used body) := inferInstanceAs (Decidable (_ ∧ _))

theorem gives_of_decoded {code : UInt8} {payload : Bytes} {message : Message}
    (accepted : Message.decoded? json (code :: payload) = some message) :
    ∃ type d, (Message.read json type).Gives ⟨0, payload⟩ message d := by
  unfold Message.decoded? Message.decode at accepted
  cases known : MessageType.ofByte code with
  | error e => simp only [known, reduceCtorEq] at accepted
  | ok type =>
      simp only [known] at accepted
      split at accepted
      · next d read =>
          cases accepted
          exact ⟨type, d, read⟩
      · cases accepted

/-- The ids of a list start behind its count exactly if this takes no more bytes than it needs, or what
follows repeats itself. -/
theorem ids_behind_count_iff {code : UInt8} {payload : Bytes} {message : Message}
    (accepted : Message.decoded? json (code :: payload) = some message)
    (listed : inventoryOf message = some (typeId, ids)) :
    ∃ body count used, payload = typeId :: body ∧ Vlq.decode body = .ok (count, used) ∧
      (ids = idBlocks count (body.drop used) ↔ Vlq.byteLen count = used ∨ Repeats count used body) := by
  obtain ⟨type, d, read⟩ := gives_of_decoded accepted
  obtain ⟨body, count, used, same, decoded, rfl⟩ := read_inventory (gives_inventory read listed)
  refine ⟨body, count, used, same, decoded, ?_⟩
  rw [idBlocks_eq_iff]
  simp only [List.length_drop, List.getElem?_drop]
  constructor
  · rintro ⟨sizes, bytes⟩
    exact .inr ⟨sizes, sizes ▸ bytes⟩
  · rintro (shortest | ⟨sizes, bytes⟩)
    · simp [shortest]
    · exact ⟨sizes, sizes.symm ▸ bytes⟩

end Inventory

section Samples

def oneId : Bytes := List.replicate 32 7

theorem shortCount_read : ∃ body count used, 2 :: 1 :: oneId = 2 :: body ∧ Vlq.decode body = .ok (count, used) ∧
    ([oneId] = idBlocks count (body.drop used) ↔ Vlq.byteLen count = used ∨ Repeats count used body) :=
  @ids_behind_count_iff noJson 2 [oneId] MessageType.inv.toByte _ (.inv ⟨2, [oneId]⟩) (by decide) rfl

/-- The same count in two bytes: the second of them becomes the first of the id. -/
theorem paddedCount_misread : ¬ ∀ json code payload message typeId ids,
    Message.decoded? json (code :: payload) = some message → inventoryOf message = some (typeId, ids) →
      ∀ body count used, payload = typeId :: body → Vlq.decode body = .ok (count, used) →
        ids = idBlocks count (body.drop used) := by
  intro aligned
  have same := aligned noJson MessageType.inv.toByte (2 :: 0x81 :: 0 :: oneId) (.inv ⟨2, [0 :: oneId.take 31]⟩) 2
    [0 :: oneId.take 31] (by decide) rfl (0x81 :: 0 :: oneId) 1 2 rfl (by decide)
  exact absurd same (by decide)

end Samples

end ErgoNode.Proof.Network
