import ErgoNode.Lib.Layout
import ErgoNode.Proof.Indexer.Flushes

/-!
# Lookups that do not return

A record is read without a look at where its bytes end, but for a first check of their number. And a record that
has left its buffer is looked for by a thread that holds the lock of the buffer.
-/

namespace ErgoNode.Proof.Indexer
open Lib ExtraIndexer

/-! ### Fields -/

section Fields
variable {A : Type} {layout : Layout}

theorem follows_u8 : RecordRead.u8.Follows [.fixed 1] := Read.follows_byte
theorem follows_u16 : RecordRead.u16.Follows [.fixed 2] := (Read.follows_take 2).map
theorem follows_u32 : RecordRead.u32.Follows [.fixed 4] := (Read.follows_take 4).map
theorem follows_u64 : RecordRead.u64.Follows [.fixed 8] := (Read.follows_take 8).map
theorem follows_i64 : RecordRead.i64.Follows [.fixed 8] := follows_u64.map

theorem counts_u16 : RecordRead.u16.Counts 2 UInt16.toNat := by
  apply Read.counts_take
  intro bytes size
  have small := BigEndian.read_lt bytes
  rw [size] at small
  exact UInt16.toNat_ofNat_of_lt' small

theorem counts_u32 : RecordRead.u32.Counts 4 UInt32.toNat := by
  apply Read.counts_take
  intro bytes size
  have small := BigEndian.read_lt bytes
  rw [size] at small
  exact UInt32.toNat_ofNat_of_lt' small

theorem follows_digest : RecordRead.digest.Follows [.fixed 32] where
  whole {c rest} left := by
    rw [Layout.rest_fixed] at left
    split at left
    · next enough =>
        cases left
        have size := List.length_take_of_le enough
        refine ⟨⟨c.rest.take 32, size⟩, c.pos + 32, Read.gives_bind.mpr
          ⟨c.rest.take 32, _, Read.gives_take.mpr ⟨enough, rfl, rfl⟩, ?_⟩⟩
        show (RecordRead.copyFromSlice _ _).result = _
        rw [RecordRead.copyFromSlice, dif_pos size]
        rfl
    · cases left
  broken left := Read.result_bind_of_stop ((Read.follows_take 32).broken left)

theorem follows_optional {size : Nat} {value : RecordRead A} (follows : value.Follows [.fixed size]) :
    (RecordRead.optional value).Follows [.optional size] := Read.follows_optional follows

theorem follows_text : RecordRead.text.Follows [.counted 2 1] := by
  apply counts_u16.bind
  intro len
  rw [Nat.mul_one]
  split
  · exact (Read.follows_take len.toNat).map
  · next empty =>
      obtain rfl : len = 0 := by
        apply UInt16.toNat_inj.mp
        rw [gt_iff_lt, UInt16.lt_iff_toNat_lt] at empty
        exact Nat.eq_zero_of_not_pos empty
      exact Read.follows_pure.congr fun bytes => by simp [Layout.rest_fixed]

theorem follows_list {size count : Nat} {value : RecordRead A} (follows : value.Follows [.fixed size])
    (fits : count * size ≤ maxVecBytes) : (RecordRead.list size value count).Follows [.fixed (count * size)] :=
  (Read.follows_withCapacity fits).bind fun _ => Read.follows_repeated follows count

theorem follows_tokenAmount {amount : RecordRead A} (follows : amount.Follows [.fixed 8]) :
    (RecordRead.tokenAmount amount).Follows [.fixed 40] := by
  apply (follows_digest.bind fun tokenId => follows.bind fun amount => Read.follows_pure).congr
  intro bytes
  exact Layout.rest_fixed_fixed

theorem follows_list32 {B : Type} {size : Nat} {value : RecordRead A} {next : List A → RecordRead B}
    (follows : value.Follows [.fixed size]) (narrow : size ≤ 40) (later : ∀ items, (next items).Follows layout) :
    (RecordRead.u32 >>= fun count => RecordRead.list size value count.toNat >>= next).Follows
      (.counted 4 size :: layout) := by
  apply counts_u32.bind
  intro count
  have fits : count.toNat * size ≤ maxVecBytes :=
    Nat.le_trans (Nat.mul_le_mul (Nat.le_of_lt count.toNat_lt) narrow) (by decide)
  exact (follows_list follows fits).bind later

theorem follows_list16 {B : Type} {size : Nat} {value : RecordRead A} {next : List A → RecordRead B}
    (follows : value.Follows [.fixed size]) (narrow : size ≤ 40) (later : ∀ items, (next items).Follows layout) :
    (RecordRead.u16 >>= fun count => RecordRead.list size value count.toNat >>= next).Follows
      (.counted 2 size :: layout) := by
  apply counts_u16.bind
  intro count
  have fits : count.toNat * size ≤ maxVecBytes :=
    Nat.le_trans (Nat.mul_le_mul (Nat.le_of_lt count.toNat_lt) narrow) (by decide)
  exact (follows_list follows fits).bind later

end Fields

/-! ### Records -/

def Ends {A : Type} (read : RecordRead A) (data : Bytes) : Prop := (read.exec ⟨0, data⟩).result ≠ .error .panic

def boxLayout : Layout :=
  [.fixed 32, .fixed 4, .optional 32, .optional 4, .fixed 8, .fixed 8, .fixed 32, .counted 4 40, .counted 4 1]

def tokenLayout : Layout :=
  [.fixed 32, .optional 32, .optional 8, .counted 2 1, .counted 2 1, .optional 1, .counted 4 8]

def transactionLayout : Layout :=
  [.fixed 32, .fixed 2, .fixed 4, .fixed 4, .fixed 8, .counted 2 8, .counted 2 8, .counted 2 32]

section Records
variable {A : Type} {data : Bytes}

theorem refused_atLeast {size : Nat} {reason : String} {rest : Unit → RecordRead A} {c : Cursor}
    (short : c.rest.length < size) :
    ((RecordRead.atLeast size reason >>= rest).exec c).result = .error (.error reason) := by
  have refused : (RecordRead.atLeast size reason).exec c = ⟨.error (.error reason), []⟩ := by
    rw [RecordRead.atLeast, Read.exec_bind_of_ok (Read.exec_look c), if_pos short]
    rfl
  rw [Read.exec_bind_of_error refused]

theorem passed_atLeast {size : Nat} {reason : String} {c : Cursor} (enough : ¬ c.rest.length < size) :
    (RecordRead.atLeast size reason).Gives c () c := gives_atLeast.mpr ⟨Nat.not_lt.mp enough, rfl⟩

theorem ends_atLeast {size : Nat} {reason : String} {rest : Unit → RecordRead A} {layout : Layout}
    (follows : (rest ()).Follows layout) :
    Ends (RecordRead.atLeast size reason >>= rest) data ↔ data.length < size ∨ layout.Whole data := by
  by_cases short : data.length < size
  · have refused := @refused_atLeast A size reason rest ⟨0, data⟩ short
    simp [Ends, refused, short]
  · rw [Ends, (passed_atLeast (c := ⟨0, data⟩) short).result_bind, or_iff_right short]
    exact follows.ne_panic_iff

theorem ends_box : Ends IndexedErgoBox.read data ↔ data.length < 37 ∨ boxLayout.Whole data := by
  apply ends_atLeast
  apply follows_digest.bind fun boxId => follows_u32.bind fun inclusionHeight =>
    (follows_optional follows_digest).bind fun spendingTxId => (follows_optional follows_u32).bind fun spendingHeight =>
    follows_u64.bind fun globalIndex => follows_u64.bind fun value => follows_digest.bind fun ergoTreeHash => ?_
  apply follows_list32 (follows_tokenAmount follows_u64) (by decide)
  intro tokens
  apply counts_u32.bind
  intro boxBytesLen
  rw [Nat.mul_one]
  exact (Read.follows_take boxBytesLen.toNat).bind fun boxBytes => Read.follows_pure

theorem ends_token : Ends IndexedToken.read data ↔ data.length < 33 ∨ tokenLayout.Whole data := by
  apply ends_atLeast
  apply follows_digest.bind fun tokenId => (follows_optional follows_digest).bind fun creationBoxId =>
    (follows_optional follows_u64).bind fun amount => follows_text.bind fun name => follows_text.bind fun description =>
    (follows_optional follows_u8).bind fun decimals => ?_
  exact follows_list32 follows_i64 (by decide) fun boxIndexes => Read.follows_pure

theorem ends_transaction : Ends IndexedErgoTransaction.read data ↔ data.length < 56 ∨ transactionLayout.Whole data := by
  apply ends_atLeast
  apply follows_digest.bind fun txId => follows_u16.bind fun txIndex => follows_u32.bind fun height =>
    follows_u32.bind fun size => follows_u64.bind fun globalIndex => ?_
  apply follows_list16 follows_u64 (by decide)
  intro inputIndexes
  apply follows_list16 follows_u64 (by decide)
  intro outputIndexes
  exact follows_list16 follows_digest (by decide) fun dataInputs => Read.follows_pure

theorem ends_state : Ends IndexerState.read data := by
  have follows : (RecordRead.u32 >>= fun indexedHeight => RecordRead.u64 >>= fun globalBoxIndex =>
      RecordRead.u64 >>= fun globalTxIndex => pure (⟨indexedHeight, globalBoxIndex, globalTxIndex⟩ : IndexerState)).Follows
      [.fixed 4, .fixed 8, .fixed 8] :=
    follows_u32.bind fun indexedHeight => follows_u64.bind fun globalBoxIndex =>
      follows_u64.bind fun globalTxIndex => Read.follows_pure
  apply (@ends_atLeast IndexerState data 20 _ (fun _ => _) _ follows).mpr
  by_cases short : data.length < 20
  · exact .inl short
  · have first : 4 ≤ data.length := by omega
    have second : 8 ≤ data.length - 4 := by omega
    have third : 8 ≤ data.length - 12 := by omega
    right
    simp [Layout.Whole, Layout.rest_fixed, first, second, third]

end Records

/-! ### Addresses -/

def countAt (pos : Nat) (data : Bytes) : Nat := BigEndian.read ((data.drop pos).take 4)

/-- The tokens that a balance announces are there. -/
def BalanceWhole (bytes : Bytes) : Prop := 12 ≤ bytes.length ∧ 12 + countAt 8 bytes * 40 ≤ bytes.length

/-- Its balance is there, and so are its lists unless the balance is refused. -/
def AddressWhole (data : Bytes) : Prop :=
  36 + countAt 32 data ≤ data.length ∧
    (¬ BalanceWhole ((data.drop 36).take (countAt 32 data)) ∨
      Layout.Whole [.counted 4 8, .counted 4 8] (data.drop (36 + countAt 32 data)))

instance (bytes : Bytes) : Decidable (BalanceWhole bytes) := inferInstanceAs (Decidable (_ ∧ _))
instance (data : Bytes) : Decidable (AddressWhole data) := inferInstanceAs (Decidable (_ ∧ (_ ∨ _)))

section Addresses
variable {data bytes : Bytes} {c d : Cursor}

theorem exists_gives_u32 (enough : 4 ≤ c.rest.length) :
    ∃ count : UInt32, RecordRead.u32.Gives c count (c.skip 4) ∧ count.toNat = BigEndian.read (c.rest.take 4) :=
  counts_u32.whole enough

theorem balance_cases (bytes : Bytes) :
    (BalanceWhole bytes ∧ ∃ balance d, BalanceInfo.read.Gives ⟨0, bytes⟩ balance d) ∨
      ¬ BalanceWhole bytes ∧ ∃ reason, (BalanceInfo.read.exec ⟨0, bytes⟩).result = .error (.error reason) := by
  have looked : (Read.look : RecordRead Bytes).Gives ⟨0, bytes⟩ bytes ⟨0, bytes⟩ := Read.gives_look.mpr ⟨rfl, rfl⟩
  by_cases short : bytes.length < 12
  · refine .inr ⟨fun whole => absurd whole.1 (Nat.not_le.mpr short), "BalanceInfo data too short", ?_⟩
    rw [BalanceInfo.read, looked.result_bind]
    exact refused_atLeast short
  · have enough : Layout.rest [.fixed 8] bytes = some (bytes.drop 8) := by
      rw [Layout.rest_fixed, if_pos (by omega)]
      rfl
    obtain ⟨nanoErgs, pos, amount⟩ := follows_i64.whole (c := ⟨0, bytes⟩) enough
    obtain ⟨tokenCount, counted, number⟩ := exists_gives_u32 (c := ⟨pos, bytes.drop 8⟩) (by simp; omega)
    change tokenCount.toNat = countAt 8 bytes at number
    have prefixed {A : Type} (next : Int64 → UInt32 → RecordRead A) :
        ((RecordRead.atLeast 12 "BalanceInfo data too short" >>= fun _ => RecordRead.i64 >>= fun nanoErgs =>
          RecordRead.u32 >>= fun tokenCount => next nanoErgs tokenCount).exec ⟨0, bytes⟩).result =
          ((next nanoErgs tokenCount).exec ⟨pos + 4, bytes.drop 12⟩).result := by
      rw [(passed_atLeast (c := ⟨0, bytes⟩) short).result_bind, amount.result_bind, counted.result_bind]
      rw [Cursor.skip, List.drop_drop]
    by_cases few : bytes.length < 12 + tokenCount.toNat * 40
    · refine .inr ⟨fun whole => absurd whole.2 (Nat.not_le.mpr (number ▸ few)),
        s!"BalanceInfo data too short for {tokenCount} tokens", ?_⟩
      rw [BalanceInfo.read, looked.result_bind, prefixed, if_pos few, Read.exec_fail]
    · have whole : BalanceWhole bytes := ⟨Nat.not_lt.mp short, number ▸ Nat.not_lt.mp few⟩
      have listed : Layout.rest [.fixed (tokenCount.toNat * 40)] (bytes.drop 12) =
          some ((bytes.drop 12).drop (tokenCount.toNat * 40)) := by
        rw [Layout.rest_fixed, if_pos (by rw [List.length_drop]; omega)]
        rfl
      obtain ⟨tokens, stop, read⟩ := (Read.follows_repeated (follows_tokenAmount follows_i64) tokenCount.toNat).whole
        (c := ⟨pos + 4, bytes.drop 12⟩) listed
      refine .inl ⟨whole, ⟨nanoErgs, tokens.foldl (fun table token => table.insert token.1 token.2) ∅⟩,
        ⟨stop, (bytes.drop 12).drop (tokenCount.toNat * 40)⟩, ?_⟩
      unfold Read.Gives
      rw [BalanceInfo.read, looked.result_bind, prefixed, if_neg few]
      exact Read.gives_bind.mpr ⟨tokens, _, read, Read.gives_pure.mpr ⟨rfl, rfl⟩⟩

theorem ends_balance : Ends BalanceInfo.read data := by
  rcases balance_cases data with ⟨-, balance, d, given⟩ | ⟨-, reason, refused⟩
  · unfold Read.Gives at given
    simp [Ends, given]
  · simp [Ends, refused]

theorem within_cases (bytes : Bytes) (c : Cursor) :
    (BalanceWhole bytes ∧ ∃ balance, (RecordRead.within bytes BalanceInfo.read).Gives c balance c) ∨
      ¬ BalanceWhole bytes ∧ ∃ reason,
        ((RecordRead.within bytes BalanceInfo.read).exec c).result = .error (.error reason) := by
  rcases balance_cases bytes with ⟨whole, balance, d, given⟩ | ⟨broken, reason, refused⟩
  · exact .inl ⟨whole, balance, gives_within.mpr ⟨⟨d, given⟩, rfl⟩⟩
  · refine .inr ⟨broken, reason, ?_⟩
    show (RecordRead.within bytes BalanceInfo.read c).result = _
    unfold RecordRead.within
    rcases ran : BalanceInfo.read.exec ⟨0, bytes⟩ with ⟨result, rooms⟩
    rw [ran] at refused
    cases refused
    rfl

theorem ends_address : Ends IndexedErgoAddress.read data ↔ data.length < 36 ∨ AddressWhole data := by
  by_cases short : data.length < 36
  · rw [Ends, IndexedErgoAddress.read, refused_atLeast (c := ⟨0, data⟩) short]
    simp [short]
  · rw [or_iff_right short, Ends, IndexedErgoAddress.read, (passed_atLeast (c := ⟨0, data⟩) short).result_bind]
    have enough : Layout.rest [.fixed 32] data = some (data.drop 32) := by
      rw [Layout.rest_fixed, if_pos (by omega)]
      rfl
    obtain ⟨treeHash, pos, hashed⟩ := follows_digest.whole (c := ⟨0, data⟩) enough
    obtain ⟨balanceLen, counted, number⟩ := exists_gives_u32 (c := ⟨pos, data.drop 32⟩) (by simp; omega)
    change balanceLen.toNat = countAt 32 data at number
    rw [hashed.result_bind, counted.result_bind, Cursor.skip, List.drop_drop, number]
    by_cases room : countAt 32 data ≤ (data.drop 36).length
    · have inside : 36 + countAt 32 data ≤ data.length := by
        rw [List.length_drop] at room
        omega
      have taken : (Read.take (countAt 32 data) : RecordRead Bytes).Gives ⟨pos + 4, data.drop 36⟩
          ((data.drop 36).take (countAt 32 data)) ⟨pos + 4 + countAt 32 data, data.drop (36 + countAt 32 data)⟩ := by
        rw [← List.drop_drop]
        exact Read.gives_take.mpr ⟨room, rfl, rfl⟩
      rw [AddressWhole, and_iff_right inside, taken.result_bind]
      rcases within_cases ((data.drop 36).take (countAt 32 data))
        ⟨pos + 4 + countAt 32 data, data.drop (36 + countAt 32 data)⟩ with ⟨whole, balance, given⟩ | ⟨broken, reason, refused⟩
      · rw [given.result_bind, or_iff_right (not_not.mpr whole)]
        apply Read.Follows.ne_panic_iff
        apply follows_list32 follows_u64 (by decide)
        intro txIndexes
        exact follows_list32 follows_i64 (by decide) fun boxIndexes => Read.follows_pure
      · rw [Read.result_bind_of_stop refused]
        simp [broken]
    · have cut : ((Read.take (countAt 32 data) : RecordRead Bytes).exec ⟨pos + 4, data.drop 36⟩).result = .error .panic := by
        unfold Read.exec Read.take
        rw [if_neg room]
      rw [Read.result_bind_of_stop cut]
      have outside : ¬ 36 + countAt 32 data ≤ data.length := by
        rw [List.length_drop] at room
        omega
      simp [AddressWhole, outside]

end Addresses

/-! ### Lookups -/

def Readable {A : Type} (buffer : Table Digest32 A) (storage : IndexStorage) (read : RecordRead A) (key : Digest32) :
    Prop :=
  (buffer.lookup key).isSome = true ∨ ∀ data, storage (.extraIndex key) = some data → Ends read data

section Lookups
variable {A : Type} {lock : BufferLock} {buffer : ExtraIndexer → Table Digest32 A} {read : RecordRead A}
variable {indexer : ExtraIndexer} {key : Digest32}

theorem exec_stored_cases :
    ((∀ data, indexer.storage (.extraIndex key) = some data → Ends read data) ∧
      ∃ found, (stored read key).exec indexer = (.ok found, indexer)) ∨
    (¬ (∀ data, indexer.storage (.extraIndex key) = some data → Ends read data) ∧
      (stored read key).exec indexer = (.error .panic, indexer)) := by
  cases there : indexer.storage (.extraIndex key) with
  | none => exact .inl ⟨nofun, none, exec_stored_none there⟩
  | some data =>
      rcases result : (read.exec ⟨0, data⟩).result with (reason | -) | ⟨record, rest⟩
      · refine .inl ⟨?_, none, ?_⟩
        · rintro _ ⟨⟩
          simp [Ends, result]
        · unfold stored
          rw [Op.exec_bind_of_ok (Op.exec_get indexer), there]
          dsimp only
          rw [result]
          rfl
      · refine .inr ⟨fun ends => ends data rfl result, ?_⟩
        unfold stored
        rw [Op.exec_bind_of_ok (Op.exec_get indexer), there]
        dsimp only
        rw [result]
        rfl
      · refine .inl ⟨?_, some record, exec_stored_some there result⟩
        rintro _ ⟨⟩
        simp [Ends, result]

theorem exec_lookup_iff (keeps : ∀ held, buffer { indexer with held } = buffer indexer)
    (free : indexer.held.any (blocks lock .read) = false) :
    (∃ found, (lookup lock buffer read key).exec indexer = (.ok found, indexer)) ↔
      Readable (buffer indexer) indexer.storage read key := by
  cases there : (buffer indexer).lookup key with
  | some record => simp [Readable, there, exec_lookup_buffered keeps free there]
  | none =>
      rw [exec_lookup_stored keeps free there]
      simp only [Readable, there, Option.isSome_none, Bool.false_eq_true, false_or]
      rcases @exec_stored_cases A read indexer key with ⟨ends, found, ran⟩ | ⟨breaks, ran⟩
      · exact iff_of_true ⟨found, ran⟩ ends
      · refine iff_of_false ?_ breaks
        rintro ⟨found, other⟩
        cases ran.symm.trans other

end Lookups

/-- Each reader of a record ends exactly if the fields that its bytes announce are there, once a first look has not
found them too few; and so does a lookup of a box, whatever is stored under its id. -/
theorem records_end_iff {indexer : ExtraIndexer} (idle : indexer.held = []) (boxId : Digest32) (data : Bytes) :
    (Ends IndexedErgoBox.read data ↔ data.length < 37 ∨ boxLayout.Whole data) ∧
    (Ends IndexedErgoTransaction.read data ↔ data.length < 56 ∨ transactionLayout.Whole data) ∧
    (Ends IndexedToken.read data ↔ data.length < 33 ∨ tokenLayout.Whole data) ∧
    (Ends IndexedErgoAddress.read data ↔ data.length < 36 ∨ AddressWhole data) ∧
    Ends BalanceInfo.read data ∧ Ends IndexerState.read data ∧
    ((∃ found, (getBox boxId).exec indexer = (.ok found, indexer)) ↔
      (indexer.boxes.lookup boxId).isSome = true ∨
        ∀ data, indexer.storage (.extraIndex boxId) = some data → data.length < 37 ∨ boxLayout.Whole data) := by
  refine ⟨ends_box, ends_transaction, ends_token, ends_address, ends_balance, ends_state, ?_⟩
  simp only [← ends_box]
  exact exec_lookup_iff (fun _ => rfl) (by simp [idle])

section Samples

def spentBox : IndexedErgoBox :=
  ⟨.filled 7, 100, some (.filled 8), some 120, 5, [1, 2, 3], 1000000, .filled 9, [(.filled 3, 10), (.filled 4, 20)]⟩

/-- Its record is as long as that of a box, and its counts are where a box has zeros. -/
def mintedToken : IndexedToken := (((IndexedToken.withCreationInfo (.filled 7) (.filled 6) 50 "" "" 2).addBox 0).addBox 1)

def bufferedToken : ExtraIndexer :=
  { ExtraIndexer.new fun _ => none with tokens := AList.insert (.filled 7) mintedToken ∅ }

def flushedToken : ExtraIndexer := ((flush sampleOrder false).exec bufferedToken).2

theorem spentBox_flushedToken_end : Ends IndexedErgoBox.read spentBox.serialize ∧
    ∃ found, (getBox (.filled 7)).exec flushedToken = (.ok found, flushedToken) := by
  have flushes : flushedToken = flushed sampleOrder bufferedToken := congrArg Prod.snd (exec_flush rfl)
  have every := @records_end_iff flushedToken (by rw [flushes]; rfl) (.filled 7) spentBox.serialize
  have stored : flushedToken.storage (.extraIndex (.filled 7)) = some mintedToken.serialize := by
    rw [flushes]
    rfl
  refine ⟨every.1.mpr (.inr (by decide +kernel)), every.2.2.2.2.2.2.mpr (.inr ?_)⟩
  intro data found
  cases stored.symm.trans found
  exact .inr (by decide)

/-- A transaction is indexed and flushed, and a box is looked up under its id. -/
def transactionAsBox : IndexerOp (Option IndexedErgoBox) := do
  let _ ← indexTransaction (.filled 7) 0 1 100 [] [] []
  let _ ← flush sampleOrder false
  getBox (.filled 7)

theorem transactionAsBox_panics : (transactionAsBox.exec (.new fun _ => none)).1 = .error .panic ∧
    ¬ ∀ data, Ends IndexedErgoBox.read data :=
  ⟨by decide +kernel, fun all => all (List.replicate 37 0) rfl⟩

end Samples

/-! ### Calls that return -/

/-- The call returns, and the box's address and tokens note that it is spent, each as the box says. -/
structure Spends (sr : SigmaRust) (indexer : ExtraIndexer) (boxId spendingTxId : Digest32) (spendingHeight : UInt32)
    (ieb : IndexedErgoBox) (after : ExtraIndexer) : Prop where
  returns : (spendBox sr boxId spendingTxId spendingHeight).exec indexer = (.ok (some ieb.globalIndex), after)
  marked : after.boxes.lookup boxId = some (ieb.markSpent spendingTxId spendingHeight)
  address : ∀ addr, (getAddress ieb.ergoTreeHash).exec indexer = (.ok addr, indexer) →
    after.addresses.lookup ieb.ergoTreeHash = addr.map (·.spendBox ieb.globalIndex ieb.value ieb.tokens)
  tokens : ∀ token ∈ ieb.tokens, ∀ record, (getToken sr token.1).exec indexer = (.ok record, indexer) →
    after.tokens.lookup (tokenUniqueId sr token.1) = record.map
      (IndexedToken.spendBox · ieb.globalIndex)^[
        (ieb.tokens.map fun other => tokenUniqueId sr other.1).count (tokenUniqueId sr token.1)]

/-- A box that is not known is not spent; one that is known is spent wherever it is noted. -/
def Completes (sr : SigmaRust) (indexer : ExtraIndexer) (boxId spendingTxId : Digest32) (spendingHeight : UInt32) :
    Prop :=
  ((getBox boxId).exec indexer = (.ok none, indexer) ∧
    (spendBox sr boxId spendingTxId spendingHeight).exec indexer = (.ok none, indexer)) ∨
  ∃ ieb after, (getBox boxId).exec indexer = (.ok (some ieb), indexer) ∧
    Spends sr indexer boxId spendingTxId spendingHeight ieb after

def Buffers (sr : SigmaRust) (indexer : ExtraIndexer) (ieb : IndexedErgoBox) : Prop :=
  (indexer.addresses.lookup ieb.ergoTreeHash).isSome = true ∧
    ∀ token ∈ ieb.tokens, (indexer.tokens.lookup (tokenUniqueId sr token.1)).isSome = true

section Calls
variable {sr : SigmaRust} {indexer : ExtraIndexer} {boxId spendingTxId : Digest32} {spendingHeight : UInt32}
variable {ieb : IndexedErgoBox}

theorem spends_of_buffers (idle : indexer.held = []) (found : (getBox boxId).exec indexer = (.ok (some ieb), indexer))
    (buffers : Buffers sr indexer ieb) : Spends sr indexer boxId spendingTxId spendingHeight ieb
      (spent sr indexer boxId ieb spendingTxId spendingHeight) where
  returns := exec_spendBox idle found buffers.1 buffers.2 spendingTxId spendingHeight
  marked := by simp [spent]
  address addr looked := by
    obtain ⟨record, there⟩ := Option.isSome_iff_exists.mp buffers.1
    rw [getAddress, exec_lookup_buffered (fun _ => rfl) (by simp [idle]) there] at looked
    cases looked
    simp [spent, addressAt, there]
  tokens token member record looked := by
    obtain ⟨kept, there⟩ := Option.isSome_iff_exists.mp (buffers.2 token member)
    rw [getToken, exec_lookup_buffered (fun _ => rfl) (by simp [idle]) there] at looked
    cases looked
    rw [spent, lookup_spendTokenBoxes, there]

theorem buffers_of_returns (idle : indexer.held = []) (found : (getBox boxId).exec indexer = (.ok (some ieb), indexer))
    {answer : Option UInt64} {after : ExtraIndexer}
    (returns : (spendBox sr boxId spendingTxId spendingHeight).exec indexer = (.ok answer, after)) :
    Buffers sr indexer ieb := by
  have address : (indexer.addresses.lookup ieb.ergoTreeHash).isSome = true := by
    by_contra missing
    obtain ⟨waiting, stuck⟩ := @exec_spendBox_of_unbuffered sr indexer idle boxId ieb found
      (Option.not_isSome_iff_eq_none.mp missing) spendingTxId spendingHeight
    cases stuck.symm.trans returns
  refine ⟨address, fun token member => ?_⟩
  by_contra missing
  obtain ⟨waiting, stuck⟩ := @exec_spendBox_of_unbuffered_token sr indexer idle boxId ieb found address
    ⟨token, member, Option.not_isSome_iff_eq_none.mp missing⟩ spendingTxId spendingHeight
  cases stuck.symm.trans returns

end Calls

/-- A lookup returns exactly if what it finds in storage can be read, and a box is spent exactly if it can be looked
up and its address and tokens have not left the buffers. -/
theorem calls_return_iff (sr : SigmaRust) {indexer : ExtraIndexer} (idle : indexer.held = [])
    (treeHash tokenId boxId spendingTxId : Digest32) (spendingHeight : UInt32) :
    ((∃ found, (getAddress treeHash).exec indexer = (.ok found, indexer)) ↔
      Readable indexer.addresses indexer.storage IndexedErgoAddress.read treeHash) ∧
    ((∃ found, (getToken sr tokenId).exec indexer = (.ok found, indexer)) ↔
      Readable indexer.tokens indexer.storage IndexedToken.read (tokenUniqueId sr tokenId)) ∧
    (Completes sr indexer boxId spendingTxId spendingHeight ↔
      Readable indexer.boxes indexer.storage IndexedErgoBox.read boxId ∧
        ∀ ieb, (getBox boxId).exec indexer = (.ok (some ieb), indexer) → Buffers sr indexer ieb) := by
  have boxes : (∃ found, (getBox boxId).exec indexer = (.ok found, indexer)) ↔
      Readable indexer.boxes indexer.storage IndexedErgoBox.read boxId := exec_lookup_iff (fun _ => rfl) (by simp [idle])
  refine ⟨exec_lookup_iff (fun _ => rfl) (by simp [idle]), exec_lookup_iff (fun _ => rfl) (by simp [idle]), ?_⟩
  rw [← boxes]
  constructor
  · rintro (⟨missing, -⟩ | ⟨ieb, after, found, spends⟩)
    · refine ⟨⟨none, missing⟩, fun ieb found => ?_⟩
      cases missing.symm.trans found
    · refine ⟨⟨some ieb, found⟩, fun other again => ?_⟩
      cases found.symm.trans again
      exact buffers_of_returns idle found spends.returns
  · rintro ⟨⟨found, looked⟩, buffers⟩
    cases found with
    | none => exact .inl ⟨looked, exec_spendBox_of_none looked spendingTxId spendingHeight⟩
    | some ieb => exact .inr ⟨ieb, _, looked, spends_of_buffers idle looked (buffers ieb looked)⟩

section Samples

def indexedBox : ExtraIndexer := indexed sampleHash (.new fun _ => none) (sampleOutput 2 5)

theorem indexedBox_completes : Completes sampleHash indexedBox (.filled 2) (.filled 9) 10 := by
  apply (@calls_return_iff sampleHash indexedBox rfl (.filled 1) (.filled 4) (.filled 2) (.filled 9) 10).2.2.mpr
  refine ⟨.inl (by decide +kernel), fun ieb found => ?_⟩
  have there : (getBox (.filled 2)).exec indexedBox =
      (.ok (some ((sampleOutput 2 5).ieb sampleHash 0)), indexedBox) := rfl
  cases there.symm.trans found
  exact ⟨by decide +kernel, by decide +kernel⟩

def flushedBox : ExtraIndexer := ((flush sampleOrder false).exec indexedBox).2

theorem flushedBox_hangs : flushedBox.held = [] ∧
    ((spendBox sampleHash (.filled 2) (.filled 9) 10).exec flushedBox).1 = .error (.deadlock .addresses) ∧
    ¬ Completes sampleHash flushedBox (.filled 2) (.filled 9) 10 := by
  have hangs : ((spendBox sampleHash (.filled 2) (.filled 9) 10).exec flushedBox).1 =
      .error (.deadlock .addresses) := by decide +kernel
  refine ⟨by decide +kernel, hangs, ?_⟩
  rintro (⟨-, returns⟩ | ⟨ieb, after, -, spends⟩)
  · rw [returns] at hangs
    cases hangs
  · rw [spends.returns] at hangs
    cases hangs

end Samples

end ErgoNode.Proof.Indexer
