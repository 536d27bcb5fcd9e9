import ErgoNode.Lib.BigEndian
import ErgoNode.Proof.History.Block
import ErgoNode.State.Parameters

/-!
# Block sections as bytes

Counts and lengths are cut to the bytes they are written in. What was written is read again exactly when
nothing is cut.
-/

namespace ErgoNode.Proof.History
open Lib

variable {sr : SigmaRust} {count : Nat} {rest : Bytes}

theorem read_take_write (size n : Nat) (rest : Bytes) :
    BigEndian.read ((BigEndian.write size n ++ rest).take size) = n % 256 ^ size := by
  rw [BigEndian.take_write, BigEndian.read_write]

/-- What is read at a length that was cut is the value only when the length was not cut. -/
theorem take_append_mod {value : Bytes} {bound : Nat} (positive : 0 < bound)
    (same : (value ++ rest).take (value.length % bound) = value) : value.length < bound := by
  have short := List.length_take_le (value.length % bound) (value ++ rest)
  rw [same] at short
  exact short.trans_lt (Nat.mod_lt _ positive)

theorem mod_le_length_append (value rest : Bytes) (bound : Nat) :
    value.length % bound ≤ (value ++ rest).length := by
  rw [List.length_append]
  exact (Nat.mod_le ..).trans (Nat.le_add_right ..)

/-! ### Extension fields -/

section Fields
open BlockStore
variable {fields : List ExtensionField} {field : ExtensionField}

def fieldBytes (field : ExtensionField) : Bytes :=
  field.key.1 :: field.key.2 :: (BigEndian.write 2 field.value.length ++ field.value)

theorem deserializeFields_succ (field : ExtensionField) (rest : Bytes) (count : Nat) :
    deserializeFields (count + 1) (fieldBytes field ++ rest) = do
      let fields ← deserializeFields count ((field.value ++ rest).drop (field.value.length % 256 ^ 2))
      return ⟨field.key, (field.value ++ rest).take (field.value.length % 256 ^ 2)⟩ :: fields := by
  have enough : ¬ (BigEndian.write 2 field.value.length ++ (field.value ++ rest)).length < 2 := by
    rw [List.length_append, BigEndian.length_write]
    omega
  rw [fieldBytes, List.cons_append, List.cons_append, List.append_assoc, deserializeFields, if_neg enough,
    read_take_write, BigEndian.drop_write]
  exact if_neg (Nat.not_lt.mpr (mod_le_length_append ..))

theorem length_deserializeFields {bytes : Bytes} (read : deserializeFields count bytes = .ok fields) :
    fields.length = count := by
  induction count generalizing bytes fields with
  | zero =>
      cases read
      rfl
  | succ count ih =>
      match bytes with
      | [] | [_] => cases read
      | key₀ :: key₁ :: bytes =>
          rw [deserializeFields] at read
          split at read
          · cases read
          · dsimp only at read
            split at read
            · cases read
            · rw [Except.bind_ok_eq_ok] at read
              obtain ⟨others, more, read⟩ := read
              cases read
              rw [List.length_cons, ih more]

theorem deserializeFields_iff : deserializeFields count (fields.flatMap fieldBytes ++ rest) = .ok fields ↔
    count = fields.length ∧ ∀ field ∈ fields, field.value.length < 256 ^ 2 := by
  induction fields generalizing count with
  | nil =>
      constructor
      · intro read
        exact ⟨(length_deserializeFields read).symm, by simp⟩
      · rintro ⟨rfl, -⟩
        rfl
  | cons field fields ih =>
      cases count with
      | zero => simp [deserializeFields]
      | succ count =>
          rw [List.flatMap_cons, List.append_assoc, deserializeFields_succ, Except.bind_ok_eq_ok, List.forall_mem_cons,
            List.length_cons, Nat.add_right_cancel_iff]
          constructor
          · rintro ⟨others, more, read⟩
            simp only [Except.pure_eq_ok, List.cons.injEq] at read
            obtain ⟨same, rfl⟩ := read
            have value := congrArg ExtensionField.value same
            have fits := take_append_mod (by decide) value
            rw [Nat.mod_eq_of_lt fits, List.drop_left] at more
            obtain ⟨counted, small⟩ := ih.mp more
            exact ⟨counted, fits, small⟩
          · rintro ⟨counted, fits, small⟩
            rw [Nat.mod_eq_of_lt fits, List.drop_left, List.take_left]
            exact ⟨fields, ih.mpr ⟨counted, small⟩, rfl⟩

/-- The number of fields and the lengths of their values fit the bytes they are written in. -/
def FieldsFit (fields : List ExtensionField) : Prop :=
  fields.length < 256 ^ 4 ∧ ∀ field ∈ fields, field.value.length < 256 ^ 2

theorem fieldsFit_nil : FieldsFit [] := ⟨by decide, nofun⟩

theorem deserializeExtension_serializeExtension (id : BlockId) (extension : Extension) :
    deserializeExtension id (serializeExtension extension) = .ok ⟨id, extension.fields⟩ ↔
      FieldsFit extension.fields := by
  have enough : ¬ (serializeExtension extension).length < 4 := by
    rw [serializeExtension, List.length_append, BigEndian.length_write]
    omega
  rw [deserializeExtension, if_neg enough, serializeExtension, read_take_write, BigEndian.drop_write,
    Except.bind_ok_eq_ok]
  simp only [Except.pure_eq_ok, Extension.mk.injEq, true_and, exists_eq_right]
  have whole := @deserializeFields_iff (extension.fields.length % 256 ^ 4) [] extension.fields
  rw [List.append_nil] at whole
  refine whole.trans (and_congr_left fun _ => ?_)
  rw [Nat.mod_eq_iff_lt (by decide)]

theorem deserializeExtension_headerId {id : BlockId} {bytes : Bytes} {extension : Extension}
    (read : deserializeExtension id bytes = .ok extension) : extension.headerId = id := by
  rw [deserializeExtension] at read
  split at read
  · cases read
  · rw [Except.bind_ok_eq_ok] at read
    obtain ⟨fields, -, read⟩ := read
    cases read
    rfl

end Fields

/-! ### Transactions -/

section Transactions
open BlockStore
variable {txs : List Transaction} {encoded : List Bytes}

/-- Bytes parse back to the transaction they came from, and a transaction takes no more bytes than it was
read from. -/
structure TransactionCodec (sr : SigmaRust) : Prop where
  parse_txBytes : ∀ {tx bytes}, sr.txBytes tx = .ok bytes → sr.parseTx bytes = .ok tx
  length_le : ∀ {bytes tx written}, sr.parseTx bytes = .ok tx → sr.txBytes tx = .ok written →
    written.length ≤ bytes.length

def lengthPrefixed (bytes : Bytes) : Bytes := BigEndian.write 4 bytes.length ++ bytes

theorem parseTransactions_succ (bytes rest : Bytes) (count : Nat) :
    parseTransactions sr (count + 1) (lengthPrefixed bytes ++ rest) = do
      let tx ← (sr.parseTx ((bytes ++ rest).take (bytes.length % 256 ^ 4))).mapError .serialization
      let txs ← parseTransactions sr count ((bytes ++ rest).drop (bytes.length % 256 ^ 4))
      return tx :: txs := by
  have enough : ¬ (BigEndian.write 4 bytes.length ++ (bytes ++ rest)).length < 4 := by
    rw [List.length_append, BigEndian.length_write]
    omega
  rw [lengthPrefixed, List.append_assoc, parseTransactions, if_neg enough, read_take_write, BigEndian.drop_write]
  exact if_neg (Nat.not_lt.mpr (mod_le_length_append ..))

theorem length_parseTransactions {bytes : Bytes} (read : parseTransactions sr count bytes = .ok txs) :
    txs.length = count := by
  induction count generalizing bytes txs with
  | zero =>
      cases read
      rfl
  | succ count ih =>
      rw [parseTransactions] at read
      split at read
      · cases read
      · dsimp only at read
        split at read
        · cases read
        · simp only [Except.bind_ok_eq_ok] at read
          obtain ⟨tx, -, others, more, read⟩ := read
          cases read
          rw [List.length_cons, ih more]

theorem parseTransactions_iff (codec : TransactionCodec sr)
    (each : List.Forall₂ (fun tx bytes => sr.txBytes tx = .ok bytes) txs encoded) :
    parseTransactions sr count (encoded.flatMap lengthPrefixed ++ rest) = .ok txs ↔
      count = txs.length ∧ ∀ bytes ∈ encoded, bytes.length < 256 ^ 4 := by
  induction each generalizing count with
  | nil =>
      constructor
      · intro read
        exact ⟨(length_parseTransactions read).symm, by simp⟩
      · rintro ⟨rfl, -⟩
        rfl
  | @cons tx bytes txs encoded written _ ih =>
      cases count with
      | zero => simp [parseTransactions]
      | succ count =>
          rw [List.flatMap_cons, List.append_assoc, parseTransactions_succ, List.forall_mem_cons, List.length_cons,
            Nat.add_right_cancel_iff]
          simp only [Except.bind_ok_eq_ok, Except.mapError_ok_iff, Except.pure_eq_ok, List.cons.injEq]
          constructor
          · rintro ⟨_, parsed, _, more, rfl, rfl⟩
            have fits : bytes.length < 256 ^ 4 :=
              ((codec.length_le parsed written).trans (List.length_take_le ..)).trans_lt (Nat.mod_lt _ (by decide))
            rw [Nat.mod_eq_of_lt fits, List.drop_left] at more
            obtain ⟨counted, small⟩ := ih.mp more
            exact ⟨counted, fits, small⟩
          · rintro ⟨counted, fits, small⟩
            rw [Nat.mod_eq_of_lt fits, List.drop_left, List.take_left]
            exact ⟨tx, codec.parse_txBytes written, txs, ih.mpr ⟨counted, small⟩, rfl, rfl⟩

def TransactionsFit (sr : SigmaRust) (txs : List Transaction) : Prop :=
  txs.length < 256 ^ 4 ∧ ∀ tx ∈ txs, ∀ bytes, sr.txBytes tx = .ok bytes → bytes.length < 256 ^ 4

theorem getTransactions_iff (codec : TransactionCodec sr) {block : BlockTransactions} {bytes : Bytes}
    (serialized : serializeTransactions sr block = .ok bytes) {db : Database} {id : BlockId}
    (stored : db.get .blockTransactions id = some bytes) :
    getTransactions sr db id = .ok (some ⟨id, block.txs, 2⟩) ↔ TransactionsFit sr block.txs := by
  obtain ⟨encoded, each, rfl⟩ := serializeTransactions_eq_ok.mp serialized
  have stored : db.get .blockTransactions id =
      some (BigEndian.write 4 block.txs.length ++ encoded.flatMap lengthPrefixed) := stored
  have enough : ¬ (BigEndian.write 4 block.txs.length ++ encoded.flatMap lengthPrefixed).length < 4 := by
    rw [List.length_append, BigEndian.length_write]
    omega
  have whole := @parseTransactions_iff sr (block.txs.length % 256 ^ 4) [] _ _ codec each
  have sizes : (∀ bytes ∈ encoded, bytes.length < 256 ^ 4) ↔
      ∀ tx ∈ block.txs, ∀ bytes, sr.txBytes tx = .ok bytes → bytes.length < 256 ^ 4 := by
    constructor
    · intro small tx member bytes written
      obtain ⟨own, inEncoded, same⟩ := exists_right each member
      cases written.symm.trans same
      exact small _ inEncoded
    · intro small bytes member
      obtain ⟨tx, inTxs, written⟩ := exists_left each member
      exact small tx inTxs bytes written
  rw [List.append_nil, Nat.mod_eq_iff_lt (by decide), sizes] at whole
  refine Iff.trans ?_ whole
  rw [getTransactions, stored]
  dsimp only
  rw [if_neg enough, read_take_write, BigEndian.drop_write]
  simp only [Except.bind_ok_eq_ok, Except.pure_eq_ok, Option.some.injEq, BlockTransactions.mk.injEq, true_and,
    and_true, exists_eq_right]

end Transactions

/-! ### Whole blocks -/

section Blocks
open BlockStore BlockTransactions
variable {interpreter : Interpreter} {db : Database} {id : BlockId} {block : FullBlock}

/-- The block is read with its transactions, extension fields and version, and each header gets the verdict
that it gets from the block. -/
def SectionsReadBack (sr : SigmaRust) (interpreter : Interpreter) (db : Database) (block : FullBlock) : Prop :=
  ∃ stored, History.getFullBlock sr db block.id = .ok (some stored) ∧
    stored.transactions.txs = block.transactions.txs ∧ stored.extension.fields = block.extension.fields ∧
    stored.transactions.blockVersion = block.transactions.blockVersion ∧
    ∀ header, validateAgainstHeader sr interpreter stored.transactions header =
      validateAgainstHeader sr interpreter block.transactions header

theorem headerId_of_verdicts {txs other : BlockTransactions} {header : Header}
    (same : ∀ header, validateAgainstHeader sr interpreter txs header =
      validateAgainstHeader sr interpreter other header) : txs.headerId = other.headerId := by
  have verdict := same { header with id := other.headerId }
  by_contra differ
  unfold validateAgainstHeader at verdict
  rw [if_pos differ, if_neg (not_not.mpr rfl)] at verdict
  split at verdict
  · cases verdict
  · cases verdict

theorem getTransactions_mem {txs : BlockTransactions} (read : getTransactions sr db id = .ok (some txs)) :
    txs = ⟨id, txs.txs, 2⟩ := by
  unfold getTransactions at read
  split at read
  · split at read
    · cases read
    · rw [Except.bind_ok_eq_ok] at read
      obtain ⟨_, -, read⟩ := read
      cases read
      rfl
  · cases read

theorem readBack_iff (codec : TransactionCodec sr) {headerBytes txBytes : Bytes} {parsed : Header}
    (header : db.get .headers block.id = some headerBytes) (parses : sr.parseHeader headerBytes = .ok parsed)
    (serialized : serializeTransactions sr block.transactions = .ok txBytes)
    (stored : db.get .blockTransactions block.id = some txBytes) :
    SectionsReadBack sr interpreter db block ↔ block.transactions.blockVersion = 2 ∧
      block.transactions.headerId = block.id ∧ TransactionsFit sr block.transactions.txs ∧
      ∃ extension, getExtension db block.id = .ok extension ∧
        (extension.getD (Extension.empty block.id)).fields = block.extension.fields := by
  have found : HeaderStore.get sr db block.id = .ok (some { parsed with id := sr.blake2b256 headerBytes }) := by
    rw [HeaderStore.get, header]
    dsimp only
    rw [parses]
    rfl
  rw [← getTransactions_iff codec serialized stored]
  constructor
  · rintro ⟨whole, read, txs, fields, version, verdicts⟩
    rw [History.getFullBlock, found] at read
    change (getTransactions sr db block.id >>= _) = _ at read
    rw [Except.bind_ok_eq_ok] at read
    obtain ⟨_ | transactions, here, read⟩ := read
    · cases read
    · dsimp only at read
      rw [Except.bind_ok_eq_ok] at read
      obtain ⟨extension, there, read⟩ := read
      cases read
      have own := getTransactions_mem here
      have ids := @headerId_of_verdicts sr interpreter _ _ block.header verdicts
      rw [own] at version ids here
      refine ⟨version.symm, ids.symm, ?_, extension, there, fields⟩
      rw [here, ← txs]
  · rintro ⟨version, named, here, extension, there, fields⟩
    have same : block.transactions = ⟨block.id, block.transactions.txs, 2⟩ := by
      rw [← version, ← named]
    let whole : FullBlock := ⟨{ parsed with id := sr.blake2b256 headerBytes }, ⟨block.id, block.transactions.txs, 2⟩,
      extension.getD (Extension.empty block.id), getAdProofs db block.id⟩
    refine ⟨whole, ?_, rfl, fields, version.symm,
      fun header => congrArg (validateAgainstHeader sr interpreter · header) same.symm⟩
    rw [History.getFullBlock, found]
    change (getTransactions sr db block.id >>= _) = _
    rw [here]
    change (getExtension db block.id >>= _) = _
    rw [there]
    rfl

end Blocks
end ErgoNode.Proof.History
