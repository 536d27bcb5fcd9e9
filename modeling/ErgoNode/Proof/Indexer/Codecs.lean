import ErgoNode.Lib.Entries
import ErgoNode.Storage.IndexerRecords

/-!
# Records that are read as they were written

What a record's fields have to fit into, and the bytes of a record that fits.
-/

namespace ErgoNode.Proof.Indexer
open Lib

section Fields
variable {bound : Nat} {A : Type} {bytes : Bytes} {a : A}

theorem reads_u8 (value : UInt8) : RecordRead.u8.Reads bound [value] value := Read.reads_byte value

theorem reads_u16 {n : Nat} : RecordRead.u16.Reads bound (RecordBytes.u16 n) (UInt16.ofNat n) := by
  have read := @Read.reads_number String UInt16 bound 2 n UInt16.ofNat
  have same : UInt16.ofNat (n % 256 ^ 2) = UInt16.ofNat n := UInt16.toNat_inj.mp (by simp)
  rwa [same] at read

theorem reads_index (index : UInt16) : RecordRead.u16.Reads bound (RecordBytes.u16 index.toNat) index := by
  have read := @reads_u16 bound index.toNat
  rwa [UInt16.ofNat_toNat] at read

theorem reads_u32 {n : Nat} : RecordRead.u32.Reads bound (RecordBytes.u32 n) (UInt32.ofNat n) := by
  have read := @Read.reads_number String UInt32 bound 4 n UInt32.ofNat
  have same : UInt32.ofNat (n % 256 ^ 4) = UInt32.ofNat n := UInt32.toNat_inj.mp (by simp)
  rwa [same] at read

theorem reads_height (height : UInt32) : RecordRead.u32.Reads bound (RecordBytes.u32 height.toNat) height := by
  have read := @reads_u32 bound height.toNat
  rwa [UInt32.ofNat_toNat] at read

theorem reads_u64 (value : UInt64) : RecordRead.u64.Reads bound (RecordBytes.u64 value) value := by
  have read := @Read.reads_number String UInt64 bound 8 value.toNat UInt64.ofNat
  have same : UInt64.ofNat (value.toNat % 256 ^ 8) = value := UInt64.toNat_inj.mp (by simp)
  rwa [same] at read

theorem reads_i64 (value : Int64) : RecordRead.i64.Reads bound (RecordBytes.i64 value) value :=
  (reads_u64 value.toUInt64).map

theorem reads_digest (id : Digest32) : RecordRead.digest.Reads bound id.bytes id := by
  apply (Read.reads_take id.size).last
  intro pos rest below
  change (RecordRead.copyFromSlice id.bytes _).result = _
  rw [RecordRead.copyFromSlice, dif_pos id.size]
  rfl

theorem reads_optional {value : RecordRead A} {write : A → Bytes} {option : Option A}
    (reads : ∀ a, value.Reads bound (write a) a) :
    (RecordRead.optional value).Reads bound (RecordBytes.optional write option) option := by
  cases option with
  | none => exact (reads_u8 0).last Read.reads_pure
  | some a =>
      change (RecordRead.optional value).Reads bound ([1] ++ write a) (some a)
      exact (reads_u8 1).bind (reads a).map

def TextFits (text : String) : Prop := text ≠ "" ∧ (Utf8.encode text).length < 2 ^ 16

theorem encode_ne_nil {text : String} (some : text ≠ "") : Utf8.encode text ≠ [] := by
  intro empty
  apply some
  rw [← Utf8.decodeLossy_encode text, empty]
  rfl

theorem reads_text {text : Option String} (fits : ∀ name ∈ text, TextFits name) :
    RecordRead.text.Reads bound (RecordBytes.text text) text := by
  cases text with
  | none => exact reads_u16.last Read.reads_pure
  | some name =>
      obtain ⟨nonempty, short⟩ := fits name rfl
      have size : (UInt16.ofNat (Utf8.encode name).length).toNat = (Utf8.encode name).length := by
        rw [UInt16.toNat_ofNat', Nat.mod_eq_of_lt short]
      have positive : UInt16.ofNat (Utf8.encode name).length > 0 := by
        rw [gt_iff_lt, UInt16.lt_iff_toNat_lt, size]
        exact List.length_pos_of_ne_nil (encode_ne_nil nonempty)
      apply reads_u16.bind
      rw [if_pos positive]
      have read := (@Read.reads_take String bound _ _ size.symm).map
        (g := fun bytes => some (Utf8.decodeLossy bytes))
      rwa [Utf8.decodeLossy_encode] at read

theorem reads_list {size count : Nat} {value : RecordRead A} {write : A → Bytes} {list : List A}
    (counted : count = list.length) (fits : list.length < 2 ^ 32) (narrow : size ≤ 40)
    (each : ∀ a, value.Reads bound (write a) a) :
    (RecordRead.list size value count).Reads bound (list.flatMap write) list := by
  rw [counted, RecordRead.list]
  have room : list.length * size ≤ maxVecBytes :=
    Nat.le_trans (Nat.mul_le_mul (Nat.le_of_lt fits) narrow) (by decide)
  exact Read.reads_reserving room (Read.reads_repeated fun a _ => each a)

theorem reads_tokenAmount {amount : RecordRead A} {write : A → Bytes} (reads : ∀ a, amount.Reads bound (write a) a)
    (token : Digest32 × A) :
    (RecordRead.tokenAmount amount).Reads bound (RecordBytes.tokenAmount write token) token :=
  (reads_digest token.1).bind ((reads token.2).last Read.reads_pure)

theorem reads_atLeast {size : Nat} {reason : String} {rest : Unit → RecordRead A} (enough : size ≤ bytes.length)
    (reads : (rest ()).Reads bound bytes a) : (RecordRead.atLeast size reason >>= rest).Reads bound bytes a := by
  intro pos more below
  refine Read.gives_bind.mpr ⟨(), _, ?_, reads pos more below⟩
  refine Read.gives_bind.mpr ⟨_, _, Read.gives_look.mpr ⟨rfl, rfl⟩, ?_⟩
  have long : ¬ (bytes ++ more).length < size := by
    rw [List.length_append]
    omega
  rw [if_neg long]
  exact Read.gives_pure.mpr ⟨rfl, rfl⟩

theorem reads_within {value : RecordRead A} (reads : value.Reads (bytes.length + 1) bytes a) :
    (RecordRead.within bytes value).Reads bound [] a := by
  intro pos rest below
  have whole := reads.whole (Nat.lt_succ_self _)
  change (RecordRead.within bytes value ⟨pos, rest⟩).result = _
  unfold RecordRead.within
  cases ran : value.exec ⟨0, bytes⟩ with
  | mk result rooms =>
      rw [ran] at whole
      cases whole
      rfl

end Fields

/-! ### Records -/

def SameBalance (balance other : BalanceInfo) : Prop :=
  balance.nanoErgs = other.nanoErgs ∧ ∀ tokenId, balance.tokens.lookup tokenId = other.tokens.lookup tokenId

structure SameAddress (addr other : IndexedErgoAddress) : Prop where
  treeHash : addr.treeHash = other.treeHash
  txIndexes : addr.txIndexes = other.txIndexes
  boxIndexes : addr.boxIndexes = other.boxIndexes
  balance : SameBalance addr.balance other.balance

def AddressFits (addr : IndexedErgoAddress) : Prop :=
  12 + addr.balance.tokens.entries.length * 40 < 2 ^ 32 ∧ addr.txIndexes.length < 2 ^ 32 ∧
    addr.boxIndexes.length < 2 ^ 32

def TokenFits (token : IndexedToken) : Prop :=
  (∀ name ∈ token.name, TextFits name) ∧ (∀ description ∈ token.description, TextFits description) ∧
    token.boxIndexes.length < 2 ^ 32

def BoxFits (ieb : IndexedErgoBox) : Prop := ieb.tokens.length < 2 ^ 32 ∧ ieb.boxBytes.length < 2 ^ 32

def TransactionFits (itx : IndexedErgoTransaction) : Prop :=
  itx.inputIndexes.length < 2 ^ 16 ∧ itx.outputIndexes.length < 2 ^ 16 ∧ itx.dataInputs.length < 2 ^ 16

instance (ieb : IndexedErgoBox) : Decidable (BoxFits ieb) := inferInstanceAs (Decidable (_ ∧ _))
instance (addr : IndexedErgoAddress) : Decidable (AddressFits addr) := inferInstanceAs (Decidable (_ ∧ _))
instance (text : String) : Decidable (TextFits text) := inferInstanceAs (Decidable (_ ∧ _))
instance (token : IndexedToken) : Decidable (TokenFits token) :=
  inferInstanceAs (Decidable ((∀ name ∈ _, TextFits name) ∧ (∀ description ∈ _, TextFits description) ∧ _))

section Records
variable {bound : Nat} {order : Iteration Digest32 Int64}

theorem length_flatMap_tokenAmount (list : List (Digest32 × Int64)) :
    (list.flatMap (RecordBytes.tokenAmount RecordBytes.i64)).length = list.length * 40 := by
  induction list with
  | nil => rfl
  | cons token rest ih =>
      rw [List.flatMap_cons, List.length_append, ih, List.length_cons, RecordBytes.tokenAmount, List.length_append,
        token.1.size, RecordBytes.i64, RecordBytes.u64, BigEndian.length_write]
      omega

theorem length_serialize_balance (balance : BalanceInfo) :
    (balance.serialize order).length = 12 + balance.tokens.entries.length * 40 := by
  have count := (order.perm balance.tokens).length_eq
  rw [List.length_map] at count
  rw [BalanceInfo.serialize, List.length_append, List.length_append, length_flatMap_tokenAmount, count,
    RecordBytes.i64, RecordBytes.u64, RecordBytes.u32, BigEndian.length_write, BigEndian.length_write]

theorem reads_balance {balance : BalanceInfo} (fits : balance.tokens.entries.length < 2 ^ 32) :
    ∃ found, SameBalance found balance ∧ BalanceInfo.read.Reads bound (balance.serialize order) found := by
  refine ⟨⟨balance.nanoErgs, (order.entries balance.tokens).foldl (fun table token => table.insert token.1 token.2) ∅⟩,
    ⟨rfl, fun tokenId => Entries.lookup_of_perm (order.perm balance.tokens)⟩, ?_⟩
  have size := @length_serialize_balance order balance
  have count := (order.perm balance.tokens).length_eq
  rw [List.length_map] at count
  apply Read.reads_look
  intro rest
  apply reads_atLeast (by omega)
  rw [BalanceInfo.serialize, List.append_assoc]
  apply (reads_i64 balance.nanoErgs).bind
  apply reads_u32.bind
  have long : ¬ (balance.serialize order ++ rest).length <
      12 + (UInt32.ofNat balance.tokens.entries.length).toNat * 40 := by
    rw [UInt32.toNat_ofNat_of_lt' fits, List.length_append]
    omega
  rw [BalanceInfo.serialize, List.append_assoc] at long
  rw [if_neg long, UInt32.toNat_ofNat_of_lt' fits, ← count]
  have read : (Read.repeated (RecordRead.tokenAmount RecordRead.i64) (order.entries balance.tokens).length).Reads bound
      ((order.entries balance.tokens).flatMap (RecordBytes.tokenAmount RecordBytes.i64))
      (order.entries balance.tokens) := Read.reads_repeated fun token _ => reads_tokenAmount reads_i64 token
  exact read.last Read.reads_pure

theorem reads_address {addr : IndexedErgoAddress} (fits : AddressFits addr) :
    ∃ found, SameAddress found addr ∧ IndexedErgoAddress.read.Reads bound (addr.serialize order) found := by
  obtain ⟨small, txs, boxes⟩ := fits
  have size := @length_serialize_balance order addr.balance
  obtain ⟨balance, same, reads⟩ :=
    @reads_balance ((addr.balance.serialize order).length + 1) order addr.balance (by omega)
  refine ⟨{ addr with balance }, ⟨rfl, rfl, rfl, same⟩, ?_⟩
  apply reads_atLeast
  · simp [IndexedErgoAddress.serialize, addr.treeHash.size, RecordBytes.u32]
    omega
  simp only [IndexedErgoAddress.serialize, List.append_assoc]
  apply (reads_digest addr.treeHash).bind
  apply reads_u32.bind
  have short : (addr.balance.serialize order).length < 2 ^ 32 := by omega
  rw [UInt32.toNat_ofNat_of_lt' short]
  apply (Read.reads_take rfl).bind
  apply (reads_within reads).bind
  apply reads_u32.bind
  apply (reads_list (UInt32.toNat_ofNat_of_lt' txs) txs (by omega) reads_u64).bind
  apply reads_u32.bind
  exact (reads_list (UInt32.toNat_ofNat_of_lt' boxes) boxes (by omega) reads_i64).last Read.reads_pure

theorem reads_token {token : IndexedToken} (fits : TokenFits token) :
    IndexedToken.read.Reads bound token.serialize token := by
  obtain ⟨name, description, boxes⟩ := fits
  apply reads_atLeast
  · have flag : 1 ≤ (RecordBytes.optional Digest32.bytes token.creationBoxId).length := by
      cases token.creationBoxId <;> simp [RecordBytes.optional]
    simp [IndexedToken.serialize, token.tokenId.size]
    omega
  simp only [IndexedToken.serialize, List.append_assoc]
  apply (reads_digest token.tokenId).bind
  apply (reads_optional reads_digest).bind
  apply (reads_optional reads_u64).bind
  apply (reads_text name).bind
  apply (reads_text description).bind
  apply (reads_optional reads_u8).bind
  apply reads_u32.bind
  exact (reads_list (UInt32.toNat_ofNat_of_lt' boxes) boxes (by omega) reads_i64).last Read.reads_pure

theorem reads_box {ieb : IndexedErgoBox} (fits : BoxFits ieb) :
    IndexedErgoBox.read.Reads bound ieb.serialize ieb := by
  obtain ⟨tokens, bytes⟩ := fits
  apply reads_atLeast
  · simp [IndexedErgoBox.serialize, ieb.boxId.size, RecordBytes.u32]
    omega
  simp only [IndexedErgoBox.serialize, List.append_assoc]
  apply (reads_digest ieb.boxId).bind
  apply (reads_height ieb.inclusionHeight).bind
  apply (reads_optional reads_digest).bind
  apply (reads_optional reads_height).bind
  apply (reads_u64 ieb.globalIndex).bind
  apply (reads_u64 ieb.value).bind
  apply (reads_digest ieb.ergoTreeHash).bind
  apply reads_u32.bind
  apply (reads_list (UInt32.toNat_ofNat_of_lt' tokens) tokens (by omega) (reads_tokenAmount reads_u64)).bind
  apply reads_u32.bind
  rw [UInt32.toNat_ofNat_of_lt' bytes]
  exact (Read.reads_take rfl).last Read.reads_pure

theorem reads_transaction {itx : IndexedErgoTransaction} (fits : TransactionFits itx) :
    IndexedErgoTransaction.read.Reads bound itx.serialize itx := by
  obtain ⟨inputs, outputs, dataInputs⟩ := fits
  apply reads_atLeast
  · simp [IndexedErgoTransaction.serialize, itx.txId.size, RecordBytes.u16, RecordBytes.u32, RecordBytes.u64]
    omega
  simp only [IndexedErgoTransaction.serialize, List.append_assoc]
  apply (reads_digest itx.txId).bind
  apply (reads_index itx.txIndex).bind
  apply (reads_height itx.height).bind
  apply (reads_height itx.size).bind
  apply (reads_u64 itx.globalIndex).bind
  apply reads_u16.bind
  apply (reads_list (UInt16.toNat_ofNat_of_lt' inputs) (by omega) (by omega) reads_u64).bind
  apply reads_u16.bind
  apply (reads_list (UInt16.toNat_ofNat_of_lt' outputs) (by omega) (by omega) reads_u64).bind
  apply reads_u16.bind
  exact (reads_list (UInt16.toNat_ofNat_of_lt' dataInputs) (by omega) (by omega) reads_digest).last Read.reads_pure

end Records

/-! ### What a record that is read fits into -/

section Fits
variable {A : Type} {c d : Cursor}

theorem length_list_le {size count : Nat} {value : RecordRead A} {list : List A}
    (given : (RecordRead.list size value count).Gives c list d) : list.length ≤ count := by
  obtain ⟨_, _, -, read⟩ := Read.gives_bind.mp given
  exact Read.length_collect_le read

theorem gives_within {bytes : Bytes} {value : RecordRead A} {a : A} :
    (RecordRead.within bytes value).Gives c a d ↔ (∃ e, value.Gives ⟨0, bytes⟩ a e) ∧ c = d := by
  unfold Read.Gives RecordRead.within Read.exec
  rcases value ⟨0, bytes⟩ with ⟨stop | ⟨found, e⟩, rooms⟩ <;> simp

theorem gives_atLeast {size : Nat} {reason : String} {u : Unit} :
    (RecordRead.atLeast size reason).Gives c u d ↔ size ≤ c.rest.length ∧ c = d := by
  simp [RecordRead.atLeast, and_comm]

theorem fits_of_box {ieb : IndexedErgoBox} (read : IndexedErgoBox.read.Gives c ieb d) : BoxFits ieb := by
  simp only [IndexedErgoBox.read, Read.gives_bind, Read.gives_take, Read.gives_pure] at read
  obtain ⟨_, _, -, _, _, -, _, _, -, _, _, -, _, _, -, _, _, -, _, _, -, _, _, -, tokenCount, _, -, tokens, _, listed,
    boxBytesLen, _, -, _, _, ⟨-, rfl, -⟩, rfl, -⟩ := read
  refine ⟨(length_list_le listed).trans_lt tokenCount.toNat_lt, ?_⟩
  exact (List.length_take_le _ _).trans_lt boxBytesLen.toNat_lt

theorem fits_of_transaction {itx : IndexedErgoTransaction} (read : IndexedErgoTransaction.read.Gives c itx d) :
    TransactionFits itx := by
  simp only [IndexedErgoTransaction.read, Read.gives_bind, Read.gives_pure] at read
  obtain ⟨_, _, -, _, _, -, _, _, -, _, _, -, _, _, -, _, _, -, inputCount, _, -, _, _, inputs, outputCount, _, -, _, _,
    outputs, dataInputCount, _, -, _, _, dataInputs, rfl, -⟩ := read
  exact ⟨(length_list_le inputs).trans_lt inputCount.toNat_lt, (length_list_le outputs).trans_lt outputCount.toNat_lt,
    (length_list_le dataInputs).trans_lt dataInputCount.toNat_lt⟩

theorem fits_of_balance {bytes : Bytes} {balance : BalanceInfo} (read : BalanceInfo.read.Gives ⟨0, bytes⟩ balance d) :
    12 + balance.tokens.entries.length * 40 ≤ bytes.length := by
  simp only [BalanceInfo.read, Read.gives_bind, Read.gives_look, Read.gives_ite, Read.gives_fail, Read.gives_pure] at read
  obtain ⟨_, _, ⟨rfl, rfl⟩, _, _, -, _, _, -, tokenCount, _, -, read⟩ := read
  split at read
  · exact read.elim
  · next enough =>
      obtain ⟨tokens, _, listed, rfl, -⟩ := read
      have few := Read.length_collect_le listed
      have kept : (tokens.foldl (fun table token => table.insert token.1 token.2) (∅ : Table Digest32 Int64)).entries.length ≤
          0 + tokens.length := Entries.length_foldl_insert_le
      dsimp only at enough ⊢
      omega

theorem fits_of_address {addr found : IndexedErgoAddress} (same : SameAddress found addr)
    (read : IndexedErgoAddress.read.Gives c found d) : AddressFits addr := by
  simp only [IndexedErgoAddress.read, Read.gives_bind, Read.gives_take, gives_within, Read.gives_pure] at read
  obtain ⟨_, _, -, _, _, -, balanceLen, _, -, balanceBytes, _, ⟨-, rfl, -⟩, balance, _, ⟨⟨_, balanceRead⟩, -⟩, txCount, _, -,
    _, _, txs, boxCount, _, -, _, _, boxes, rfl, -⟩ := read
  have balanceFits := fits_of_balance balanceRead
  have sizes := Entries.length_eq_of_lookup same.balance.2
  rw [List.length_take] at balanceFits
  rw [AddressFits, ← sizes, ← same.txIndexes, ← same.boxIndexes]
  refine ⟨(balanceFits.trans (Nat.min_le_left _ _)).trans_lt balanceLen.toNat_lt, (length_list_le txs).trans_lt txCount.toNat_lt,
    (length_list_le boxes).trans_lt boxCount.toNat_lt⟩

theorem fits_of_text {name : String} {pos : Nat} {rest : Bytes}
    (read : RecordRead.text.Gives ⟨pos, RecordBytes.text (some name) ++ rest⟩ (some name) d) : TextFits name := by
  rw [RecordBytes.text, List.append_assoc] at read
  have behind := reads_u16.next (Nat.lt_succ_self _) read
  have length : (UInt16.ofNat (Utf8.encode name).length).toNat = (Utf8.encode name).length % 2 ^ 16 := by simp
  split at behind
  · next positive =>
      simp only [Read.gives_map, Read.gives_take, length, Option.some.injEq] at behind
      obtain ⟨_, ⟨-, rfl, -⟩, same⟩ := behind
      have shorter := Nat.mod_le (Utf8.encode name).length (2 ^ 16)
      rw [List.take_append_of_le_length shorter] at same
      have whole := Utf8.length_le_of_decodeLossy_take same
      rw [gt_iff_lt, UInt16.lt_iff_toNat_lt, length] at positive
      refine ⟨?_, by omega⟩
      rintro rfl
      exact absurd positive (by decide)
  · simp at behind

theorem fits_of_texts {text : Option String} {pos : Nat} {rest : Bytes}
    (read : RecordRead.text.Gives ⟨pos, RecordBytes.text text ++ rest⟩ text d) : ∀ name ∈ text, TextFits name := by
  rintro name rfl
  exact fits_of_text read

theorem fits_of_token {token : IndexedToken} (read : IndexedToken.read.Gives ⟨0, token.serialize⟩ token d) :
    TokenFits token := by
  obtain ⟨_, _, enough, read⟩ := Read.gives_bind.mp read
  obtain ⟨-, rfl⟩ := gives_atLeast.mp enough
  simp only [IndexedToken.serialize, List.append_assoc] at read
  have fields := (reads_digest token.tokenId).next (Nat.lt_succ_self _) read
  have fields := (reads_optional reads_digest).next (Nat.lt_succ_self _) fields
  have fields := (reads_optional reads_u64).next (Nat.lt_succ_self _) fields
  simp only [Read.gives_bind, Read.gives_pure] at fields
  obtain ⟨name, _, named, description, _, described, _, _, -, boxCount, _, -, boxes, _, listed, same, -⟩ := fields
  obtain ⟨rfl, rfl, rfl⟩ : name = token.name ∧ description = token.description ∧ boxes = token.boxIndexes := by
    rw [← same]
    exact ⟨rfl, rfl, rfl⟩
  have nameFits := fits_of_texts named
  obtain ⟨-, rfl⟩ := named.unique (reads_text nameFits _ _ (Nat.lt_succ_self _))
  exact ⟨nameFits, fits_of_texts described, (length_list_le listed).trans_lt boxCount.toNat_lt⟩

end Fits

/-! ### Which records come back -/

def Returns {A : Type} (read : RecordRead A) (bytes : Bytes) (record : A) : Prop := ∃ d, read.Gives ⟨0, bytes⟩ record d

theorem Returns.of_reads {A : Type} {read : RecordRead A} {bytes : Bytes} {record : A}
    (reads : read.Reads (bytes.length + 1) bytes record) : Returns read bytes record :=
  ⟨_, reads.whole (Nat.lt_succ_self _)⟩

/-- A record comes back exactly if its lists and texts fit the counts before them, and no text is empty. -/
theorem records_return_iff (order : Iteration Digest32 Int64) (ieb : IndexedErgoBox) (addr : IndexedErgoAddress)
    (token : IndexedToken) (itx : IndexedErgoTransaction) :
    (Returns IndexedErgoBox.read ieb.serialize ieb ↔ BoxFits ieb) ∧
    ((∃ found, SameAddress found addr ∧ Returns IndexedErgoAddress.read (addr.serialize order) found) ↔
      AddressFits addr) ∧
    (Returns IndexedToken.read token.serialize token ↔ TokenFits token) ∧
    (Returns IndexedErgoTransaction.read itx.serialize itx ↔ TransactionFits itx) := by
  refine ⟨?_, ?_, ?_, ?_⟩
  · exact ⟨fun ⟨_, read⟩ => fits_of_box read, fun fits => .of_reads (reads_box fits)⟩
  · constructor
    · rintro ⟨found, same, _, read⟩
      exact fits_of_address same read
    · intro fits
      obtain ⟨found, same, reads⟩ := reads_address fits
      exact ⟨found, same, .of_reads reads⟩
  · exact ⟨fun ⟨_, read⟩ => fits_of_token read, fun fits => .of_reads (reads_token fits)⟩
  · exact ⟨fun ⟨_, read⟩ => fits_of_transaction read, fun fits => .of_reads (reads_transaction fits)⟩

def unnamedToken : IndexedToken := .withCreationInfo (.filled 1) (.filled 2) 100 "" "" 0

theorem unnamedToken_changed :
    Returns IndexedToken.read unnamedToken.serialize { unnamedToken with name := none, description := none } ∧
      ¬ ∀ token : IndexedToken, Returns IndexedToken.read token.serialize token := by
  have read : IndexedToken.read.Gives ⟨0, unnamedToken.serialize⟩ { unnamedToken with name := none, description := none }
      ⟨unnamedToken.serialize.length, []⟩ := rfl
  refine ⟨⟨_, read⟩, fun all => ?_⟩
  obtain ⟨_, whole⟩ := all unnamedToken
  exact absurd (whole.unique read).1 (by decide)

end ErgoNode.Proof.Indexer
