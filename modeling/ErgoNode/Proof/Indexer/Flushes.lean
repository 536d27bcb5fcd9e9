import ErgoNode.Lib.Run
import ErgoNode.Proof.Indexer.Codecs
import ErgoNode.Proof.Indexer.Runs

/-!
# Flushes that cannot be noticed

The same calls are made to two indexers, of which one is flushed now and then. A record that has left the
buffer is still found, but only some of the calls look for it.
-/

namespace ErgoNode.Proof.Indexer
open Lib ExtraIndexer

/-! ### When records are at hand -/

inductive RecordKind where
  | box
  | address
  | token
  deriving DecidableEq

/-- The record under a key is in the buffer, if there is one. -/
def AtHand {A : Type} (buffer : Table Digest32 A) (storage : IndexStorage) (key : Digest32) : Prop :=
  (buffer.lookup key).isSome = true ∨ storage (.extraIndex key) = none

/-- No record of another kind stands in the way of the one under a key. -/
def OfKind {A : Type} (kind : Digest32 → RecordKind) (wanted : RecordKind) (buffer : Table Digest32 A)
    (storage : IndexStorage) (key : Digest32) : Prop :=
  kind key = wanted ∨ AtHand buffer storage key

/-- Every key that is flushed has one kind, and every record fits its bytes. -/
structure Storable (kind : Digest32 → RecordKind) (indexer : ExtraIndexer) : Prop where
  boxes : ∀ entry ∈ indexer.boxes.entries, kind entry.1 = .box ∧ BoxFits entry.2
  addresses : ∀ entry ∈ indexer.addresses.entries, kind entry.1 = .address ∧ AddressFits entry.2
  tokens : ∀ entry ∈ indexer.tokens.entries, kind entry.1 = .token ∧ TokenFits entry.2

section Decide
variable {A : Type} {kind : Digest32 → RecordKind} {wanted : RecordKind} {indexer : ExtraIndexer}
variable {buffer : Table Digest32 A} {storage : IndexStorage} {key : Digest32}

instance : Decidable (AtHand buffer storage key) := inferInstanceAs (Decidable (_ ∨ _))
instance : Decidable (OfKind kind wanted buffer storage key) := inferInstanceAs (Decidable (_ ∨ AtHand _ _ _))

instance : Decidable (Storable kind indexer) :=
  decidable_of_iff
    ((∀ entry ∈ indexer.boxes.entries, kind entry.1 = .box ∧ BoxFits entry.2) ∧
      (∀ entry ∈ indexer.addresses.entries, kind entry.1 = .address ∧ AddressFits entry.2) ∧
      ∀ entry ∈ indexer.tokens.entries, kind entry.1 = .token ∧ TokenFits entry.2)
    ⟨fun ⟨boxes, addresses, tokens⟩ => ⟨boxes, addresses, tokens⟩,
      fun ⟨boxes, addresses, tokens⟩ => ⟨boxes, addresses, tokens⟩⟩

end Decide

/-! ### Two indexers -/

structure FlushRun where
  flushing : ExtraIndexer
  plain : ExtraIndexer

namespace FlushRun

inductive Action where
  | indexOutput (output : Output)
  | spendBox (boxId spendingTxId : Digest32) (spendingHeight : UInt32)
  | registerToken (tokenId creationBoxId : Digest32) (amount : UInt64) (name description : String) (decimals : UInt8)
  | flush (order : FlushOrder) (fails : Bool)
  | getBox (boxId : Digest32)
  | getAddress (treeHash : Digest32)
  | getToken (tokenId : Digest32)

def start : FlushRun := ⟨.new fun _ => none, .new fun _ => none⟩

def both {A : Type} (call : IndexerOp A) (run : FlushRun) : Option FlushRun :=
  match call.exec run.flushing, call.exec run.plain with
  | (.ok _, flushing), (.ok _, plain) => some ⟨flushing, plain⟩
  | _, _ => none

def Answers {A : Type} (same : A → A → Prop) (call : IndexerOp A) (run : FlushRun) : Prop :=
  ∃ answer other flushing plain, call.exec run.flushing = (.ok answer, flushing) ∧
    call.exec run.plain = (.ok other, plain) ∧ same answer other

variable (sr : SigmaRust)

def step (run : FlushRun) : Action → Option FlushRun
  | .indexOutput output => run.both (indexOutput sr output.boxId output.height output.boxBytes output.value
      output.ergoTreeBytes output.tokens)
  | .spendBox boxId spendingTxId spendingHeight => run.both (spendBox sr boxId spendingTxId spendingHeight)
  | .registerToken tokenId creationBoxId amount name description decimals =>
      run.both (registerToken sr tokenId creationBoxId amount name description decimals)
  | .flush order fails =>
      match (flush order fails).exec run.flushing with
      | (.ok _, flushing) => some { run with flushing }
      | (.error _, _) => none
  | .getBox boxId => run.both (ExtraIndexer.getBox boxId)
  | .getAddress treeHash => run.both (ExtraIndexer.getAddress treeHash)
  | .getToken tokenId => run.both (ExtraIndexer.getToken sr tokenId)

/-- The call returns, and it gives the same with flushes as without. -/
def SameAnswer (run : FlushRun) : Action → Prop
  | .indexOutput output => run.Answers Eq (indexOutput sr output.boxId output.height output.boxBytes output.value
      output.ergoTreeBytes output.tokens)
  | .spendBox boxId spendingTxId spendingHeight => run.Answers Eq (spendBox sr boxId spendingTxId spendingHeight)
  | .registerToken tokenId creationBoxId amount name description decimals =>
      run.Answers Eq (registerToken sr tokenId creationBoxId amount name description decimals)
  | .flush order fails => ∃ answer flushing, (flush order fails).exec run.flushing = (.ok answer, flushing)
  | .getBox boxId => run.Answers Eq (ExtraIndexer.getBox boxId)
  | .getAddress treeHash => run.Answers (Option.Rel SameAddress) (ExtraIndexer.getAddress treeHash)
  | .getToken tokenId => run.Answers Eq (ExtraIndexer.getToken sr tokenId)

/-- Calls that add to records find them in the buffer unless they begin them, a box is spent whose address and
tokens are in the buffer, and every key is used for records of one kind. -/
def Loaded (kind : Digest32 → RecordKind) (run : FlushRun) : Action → Prop
  | .indexOutput output =>
      AtHand run.flushing.addresses run.flushing.storage (output.tree sr) ∧
        ∀ token ∈ output.tokens, AtHand run.flushing.tokens run.flushing.storage (tokenUniqueId sr token.1)
  | .spendBox boxId _ _ =>
      OfKind kind .box run.flushing.boxes run.flushing.storage boxId ∧
        ∀ ieb ∈ ((ExtraIndexer.getBox boxId).exec run.flushing).1.toOption.join,
          (run.flushing.addresses.lookup ieb.ergoTreeHash).isSome = true ∧
            ∀ token ∈ ieb.tokens, (run.flushing.tokens.lookup (tokenUniqueId sr token.1)).isSome = true
  | .registerToken tokenId _ _ _ _ _ =>
      AtHand run.flushing.tokens run.flushing.storage (tokenUniqueId sr tokenId)
  | .flush _ fails => fails = true ∨ Storable kind run.flushing
  | .getBox boxId => OfKind kind .box run.flushing.boxes run.flushing.storage boxId
  | .getAddress treeHash => OfKind kind .address run.flushing.addresses run.flushing.storage treeHash
  | .getToken tokenId =>
      OfKind kind .token run.flushing.tokens run.flushing.storage (tokenUniqueId sr tokenId)

instance (kind : Digest32 → RecordKind) (run : FlushRun) : (action : Action) → Decidable (Loaded sr kind run action)
  | .indexOutput _ => inferInstanceAs (Decidable (_ ∧ _))
  | .spendBox _ _ _ => inferInstanceAs (Decidable (_ ∧ ∀ ieb ∈ _, _))
  | .registerToken _ _ _ _ _ _ => inferInstanceAs (Decidable (AtHand _ _ _))
  | .flush _ _ => inferInstanceAs (Decidable (_ ∨ Storable _ _))
  | .getBox _ => inferInstanceAs (Decidable (OfKind _ _ _ _ _))
  | .getAddress _ => inferInstanceAs (Decidable (OfKind _ _ _ _ _))
  | .getToken _ => inferInstanceAs (Decidable (OfKind _ _ _ _ _))

end FlushRun

/-! ### Records in the buffer and in storage -/

section Found
variable {A : Type} {lock : BufferLock} {buffer : ExtraIndexer → Table Digest32 A} {read : RecordRead A}
variable {indexer : ExtraIndexer} {key : Digest32} {found : Option A} {same : A → A → Prop}

inductive Found (table : Table Digest32 A) (storage : IndexStorage) (read : RecordRead A) (key : Digest32) :
    Option A → Prop where
  | buffered {record : A} (there : table.lookup key = some record) : Found table storage read key (some record)
  | stored {record : A} {data : Bytes} {rest : Cursor} (missing : table.lookup key = none)
      (there : storage (.extraIndex key) = some data) (reads : (read.exec ⟨0, data⟩).result = .ok (record, rest)) :
      Found table storage read key (some record)
  | missing (unbuffered : table.lookup key = none) (unstored : storage (.extraIndex key) = none) :
      Found table storage read key none

theorem Found.exec_lookup (found_ : Found (buffer indexer) indexer.storage read key found)
    (keeps : ∀ held, buffer { indexer with held } = buffer indexer)
    (free : indexer.held.any (blocks lock .read) = false) :
    (lookup lock buffer read key).exec indexer = (.ok found, indexer) := by
  cases found_ with
  | buffered there => exact exec_lookup_buffered keeps free there
  | stored missing there reads =>
      rw [exec_lookup_stored keeps free missing]
      exact exec_stored_some there reads
  | missing unbuffered unstored =>
      rw [exec_lookup_stored keeps free unbuffered]
      exact exec_stored_none unstored

def Alike (same : A → A → Prop) (table : Table Digest32 A) (storage : IndexStorage) (read : RecordRead A)
    (plain : Table Digest32 A) (key : Digest32) : Prop :=
  ∃ found, Found table storage read key found ∧ Option.Rel same found (plain.lookup key)

variable {table plain : Table Digest32 A} {storage : IndexStorage} {record other : A}
variable {kind : Digest32 → RecordKind} {wanted : RecordKind}

theorem atHand_insert {k : Digest32} (elsewhere : key ≠ k) :
    AtHand (table.insert k record) storage key ↔ AtHand table storage key := by
  rw [AtHand, AtHand, AList.lookup_insert_ne elsewhere]

theorem AtHand.insert {k : Digest32} (atHand : AtHand table storage key) :
    AtHand (table.insert k record) storage key := by
  by_cases here : key = k
  · subst here
    exact .inl (by simp)
  · exact (atHand_insert here).mpr atHand

theorem alike_insert {k : Digest32}
    (alike : OfKind kind wanted table storage key → Alike same table storage read plain key)
    (like : same record other) (ofKind : OfKind kind wanted (table.insert k record) storage key) :
    Alike same (table.insert k record) storage read (plain.insert k other) key := by
  by_cases here : key = k
  · subst here
    refine ⟨some record, .buffered (AList.lookup_insert _), ?_⟩
    rw [AList.lookup_insert]
    exact .some like
  · obtain ⟨found, holds, rel⟩ := alike (ofKind.imp_right (atHand_insert here).mp)
    refine ⟨found, ?_, ?_⟩
    · cases holds with
      | buffered there => exact .buffered ((AList.lookup_insert_ne here).trans there)
      | stored missing there reads => exact .stored ((AList.lookup_insert_ne here).trans missing) there reads
      | missing unbuffered unstored => exact .missing ((AList.lookup_insert_ne here).trans unbuffered) unstored
    · rw [AList.lookup_insert_ne here]
      exact rel

theorem Alike.atHand (alike : Alike same table storage read plain key) (atHand : AtHand table storage key) :
    Option.Rel same (table.lookup key) (plain.lookup key) := by
  obtain ⟨found, holds, rel⟩ := alike
  cases holds with
  | buffered there =>
      rw [there]
      exact rel
  | stored missing there reads =>
      rcases atHand with buffered | unstored
      · rw [missing] at buffered
        cases buffered
      · rw [there] at unstored
        cases unstored
  | missing unbuffered unstored =>
      rw [unbuffered]
      exact rel

theorem Alike.isSome (alike : Alike same table storage read plain key) (buffered : (table.lookup key).isSome = true) :
    (plain.lookup key).isSome = true := by
  have rel := alike.atHand (.inl buffered)
  obtain ⟨record, there⟩ := Option.isSome_iff_exists.mp buffered
  rw [there] at rel
  cases found : plain.lookup key with
  | some other => rfl
  | none => rw [found] at rel; cases rel

end Found

/-! ### Addresses with the same entries -/

section Same
variable {table other : Table Digest32 Int64}

theorem lookup_addToken (same : ∀ tokenId, table.lookup tokenId = other.lookup tokenId) (token : Digest32 × UInt64)
    (tokenId : Digest32) :
    (BalanceInfo.addToken table token).lookup tokenId = (BalanceInfo.addToken other token).lookup tokenId := by
  rw [BalanceInfo.addToken, BalanceInfo.addToken, same]
  by_cases here : tokenId = token.1
  · subst here
    rw [AList.lookup_insert, AList.lookup_insert]
  · rw [AList.lookup_insert_ne here, AList.lookup_insert_ne here, same]

theorem lookup_subtractToken (same : ∀ tokenId, table.lookup tokenId = other.lookup tokenId)
    (token : Digest32 × UInt64) (tokenId : Digest32) :
    (BalanceInfo.subtractToken table token).lookup tokenId =
      (BalanceInfo.subtractToken other token).lookup tokenId := by
  rw [BalanceInfo.subtractToken, BalanceInfo.subtractToken, same]
  by_cases here : tokenId = token.1
  · subst here
    split
    · rw [AList.lookup_erase, AList.lookup_erase]
    · rw [AList.lookup_insert, AList.lookup_insert]
  · split
    · rw [AList.lookup_erase_ne here, AList.lookup_erase_ne here, same]
    · rw [AList.lookup_insert_ne here, AList.lookup_insert_ne here, same]

theorem lookup_foldl {f : Table Digest32 Int64 → Digest32 × UInt64 → Table Digest32 Int64}
    (keeps : ∀ {table other}, (∀ tokenId, table.lookup tokenId = other.lookup tokenId) → ∀ token tokenId,
      (f table token).lookup tokenId = (f other token).lookup tokenId)
    (same : ∀ tokenId, table.lookup tokenId = other.lookup tokenId) (tokens : List (Digest32 × UInt64)) :
    ∀ tokenId, (tokens.foldl f table).lookup tokenId = (tokens.foldl f other).lookup tokenId := by
  induction tokens generalizing table other with
  | nil => exact same
  | cons token rest ih => exact ih (keeps same token)

end Same

theorem SameBalance.refl (balance : BalanceInfo) : SameBalance balance balance := ⟨rfl, fun _ => rfl⟩

theorem SameAddress.refl (addr : IndexedErgoAddress) : SameAddress addr addr := ⟨rfl, rfl, rfl, .refl _⟩

section SameAddress
variable {addr other another : IndexedErgoAddress}

theorem SameAddress.trans (first : SameAddress addr other) (second : SameAddress other another) :
    SameAddress addr another where
  treeHash := first.treeHash.trans second.treeHash
  txIndexes := first.txIndexes.trans second.txIndexes
  boxIndexes := first.boxIndexes.trans second.boxIndexes
  balance := ⟨first.balance.1.trans second.balance.1, fun tokenId => (first.balance.2 tokenId).trans
    (second.balance.2 tokenId)⟩

theorem SameAddress.addBox (same : SameAddress addr other) (globalIndex value : UInt64)
    (tokens : List (Digest32 × UInt64)) :
    SameAddress (addr.addBox globalIndex value tokens) (other.addBox globalIndex value tokens) where
  treeHash := same.treeHash
  txIndexes := same.txIndexes
  boxIndexes := congrArg (· ++ _) same.boxIndexes
  balance := ⟨congrArg (· + _) same.balance.1, lookup_foldl lookup_addToken same.balance.2 tokens⟩

theorem SameAddress.spendBox (same : SameAddress addr other) (globalIndex value : UInt64)
    (tokens : List (Digest32 × UInt64)) :
    SameAddress (addr.spendBox globalIndex value tokens) (other.spendBox globalIndex value tokens) where
  treeHash := same.treeHash
  txIndexes := same.txIndexes
  boxIndexes := congrArg (spendIndex _) same.boxIndexes
  balance := ⟨congrArg (· - _) same.balance.1, lookup_foldl lookup_subtractToken same.balance.2 tokens⟩

end SameAddress

/-! ### What a flush does -/

section Flush
variable {indexer : ExtraIndexer} {order : FlushOrder}

def flushed (order : FlushOrder) (indexer : ExtraIndexer) : ExtraIndexer :=
  { indexer with
    storage := indexer.storage.write (flushBatch order indexer)
    boxes := ∅
    addresses := ∅
    tokens := ∅
    transactions := [] }

theorem exec_readLocks (idle : indexer.held = []) (locks : List BufferLock) :
    (Op.forEach (fun lock => withLock lock .read (pure ())) locks : IndexerOp Unit).exec indexer = (.ok (), indexer) := by
  induction locks with
  | nil => rfl
  | cons lock rest ih =>
      have free : indexer.held.any (blocks lock .read) = false := by simp [idle]
      have given : (withLock lock .read (pure ()) : IndexerOp Unit).exec indexer = (.ok (), indexer) :=
        @exec_withLock Unit lock .read (pure ()) indexer (withGuard lock .read indexer) () free rfl
      rw [Op.exec_forEach_cons]
      simp only [given]
      exact ih

theorem exec_flush_fails (idle : indexer.held = []) :
    (flush order true).exec indexer = (.ok (.error .database), indexer) := by
  unfold flush
  rw [Op.exec_bind_of_ok (exec_readLocks idle _), Op.exec_bind_of_ok (Op.exec_get _)]
  rfl

theorem exec_clearBuffers (idle : indexer.held = []) : clearBuffers.exec indexer =
    (.ok (), { indexer with boxes := ∅, addresses := ∅, tokens := ∅, transactions := [] }) := by
  unfold clearBuffers
  rw [Op.exec_bind_of_ok (exec_withLock_modify (by simp [idle]) _),
    Op.exec_bind_of_ok (exec_withLock_modify (by simp [idle]) _),
    Op.exec_bind_of_ok (exec_withLock_modify (by simp [idle]) _)]
  exact exec_withLock_modify (by simp [idle]) _

theorem exec_flush (idle : indexer.held = []) :
    (flush order false).exec indexer = (.ok (.ok ()), flushed order indexer) := by
  unfold flush
  rw [Op.exec_bind_of_ok (exec_readLocks idle _), Op.exec_bind_of_ok (Op.exec_get _)]
  dsimp only
  rw [if_neg (by simp), Op.exec_bind_of_ok (Op.exec_modify _ _)]
  exact Op.exec_bind_of_ok (@exec_clearBuffers
    { indexer with storage := indexer.storage.write (flushBatch order indexer) } idle)

end Flush

section Storage
variable {A : Type} {storage other : IndexStorage} {table : Table Digest32 A} {serialize : A → Bytes}
variable {order : Iteration Digest32 A} {key : Digest32}

theorem write_records : storage.write ((order.entries table).flatMap (recordBatch serialize)) (.extraIndex key) =
    ((table.lookup key).map serialize).or (storage (.extraIndex key)) := by
  let address (record : Digest32 × A) : IndexAddress := .extraIndex record.1
  let bytes (record : Digest32 × A) : Bytes := serialize record.2
  have batch : (order.entries table).flatMap (recordBatch serialize) = puts address bytes (order.entries table) :=
    List.map_eq_flatMap.symm
  have keys : (order.entries table).map address = ((order.entries table).map Prod.fst).map .extraIndex := by
    rw [List.map_map]
    rfl
  rw [batch]
  cases there : table.lookup key with
  | some record =>
      have distinct : ((order.entries table).map address).Nodup := by
        rw [keys]
        exact (Entries.nodup_of_perm (order.perm table)).map fun _ _ same => IndexAddress.extraIndex.inj same
      exact Store.write_puts_of_mem storage distinct ((Entries.mem_of_perm (order.perm table)).mpr there)
  | none =>
      apply Store.write_puts_of_not_mem
      rw [keys]
      intro member
      obtain ⟨id, listed, same⟩ := List.mem_map.mp member
      cases same
      obtain ⟨⟨id, record⟩, entry, rfl⟩ := List.mem_map.mp listed
      rw [(Entries.mem_of_perm (order.perm table)).mp entry] at there
      cases there

theorem write_boxes (boxes : List (Digest32 × IndexedErgoBox))
    (same : storage (.extraIndex key) = other (.extraIndex key)) :
    storage.write (boxes.flatMap boxBatch) (.extraIndex key) =
      other.write (boxes.flatMap (recordBatch IndexedErgoBox.serialize)) (.extraIndex key) := by
  induction boxes generalizing storage other with
  | nil => exact same
  | cons box rest ih =>
      rw [List.flatMap_cons, List.flatMap_cons, Store.write_append, Store.write_append]
      apply ih
      rw [boxBatch, recordBatch, Store.write_cons, Store.write_cons, Store.write_cons, Store.write_nil, Store.write_nil,
        Store.apply_of_ne _ (by simp)]
      exact Store.write_congr [⟨.extraIndex box.1, .put (IndexedErgoBox.serialize box.2)⟩] same

/-- What is stored under a key after a flush: the record of the token, the address or the box, in this order. -/
theorem storage_flushed {indexer : ExtraIndexer} {order : FlushOrder} (none : indexer.transactions = []) :
    (flushed order indexer).storage (.extraIndex key) =
      ((indexer.tokens.lookup key).map IndexedToken.serialize).or
        (((indexer.addresses.lookup key).map (IndexedErgoAddress.serialize order.balance)).or
          (((indexer.boxes.lookup key).map IndexedErgoBox.serialize).or (indexer.storage (.extraIndex key)))) := by
  change indexer.storage.write (flushBatch order indexer) _ = _
  rw [flushBatch, none, List.flatMap_nil, List.append_nil, Store.write_append, Store.write_append, Store.write_append,
    write_records, write_records, write_boxes _ rfl, write_records]
  rw [Store.write_cons, Store.write_nil, Store.apply_of_ne _ (by simp)]

end Storage

/-! ### The tokens of a box -/

section Tokens
variable {sr : SigmaRust} {table plain : Table Digest32 IndexedToken} {storage : IndexStorage} {globalIndex : UInt64}

theorem eq_of_rel {A : Type} {first second : Option A} (rel : Option.Rel Eq first second) : first = second := by
  cases rel with
  | some same => rw [same]
  | none => rfl

variable {kind : Digest32 → RecordKind} {tokens : List (Digest32 × UInt64)}

theorem alike_addTokenBoxes
    (alike : ∀ tokenId, OfKind kind .token table storage (tokenUniqueId sr tokenId) →
      Alike Eq table storage IndexedToken.read plain (tokenUniqueId sr tokenId))
    (atHand : ∀ token ∈ tokens, AtHand table storage (tokenUniqueId sr token.1)) (tokenId : Digest32)
    (ofKind : OfKind kind .token (tokens.foldl (addTokenBox sr globalIndex) table) storage (tokenUniqueId sr tokenId)) :
    Alike Eq (tokens.foldl (addTokenBox sr globalIndex) table) storage IndexedToken.read
      (tokens.foldl (addTokenBox sr globalIndex) plain) (tokenUniqueId sr tokenId) := by
  induction tokens generalizing table plain with
  | nil => exact alike tokenId ofKind
  | cons token rest ih =>
      obtain ⟨here, later⟩ := List.forall_mem_cons.mp atHand
      refine ih (fun other => alike_insert (alike other) ?_) (fun other member => (later other member).insert) ofKind
      rw [eq_of_rel ((alike token.1 (.inr here)).atHand here)]

theorem alike_spendTokenBoxes
    (alike : ∀ tokenId, OfKind kind .token table storage (tokenUniqueId sr tokenId) →
      Alike Eq table storage IndexedToken.read plain (tokenUniqueId sr tokenId))
    (buffered : ∀ token ∈ tokens, (table.lookup (tokenUniqueId sr token.1)).isSome = true) (tokenId : Digest32)
    (ofKind : OfKind kind .token (tokens.foldl (spendTokenBox sr globalIndex) table) storage
      (tokenUniqueId sr tokenId)) :
    Alike Eq (tokens.foldl (spendTokenBox sr globalIndex) table) storage IndexedToken.read
      (tokens.foldl (spendTokenBox sr globalIndex) plain) (tokenUniqueId sr tokenId) := by
  induction tokens generalizing table plain with
  | nil => exact alike tokenId ofKind
  | cons token rest ih =>
      obtain ⟨here, later⟩ := List.forall_mem_cons.mp buffered
      refine ih (fun other => ?_) (fun other member => isSome_lookup_spendTokenBox.mpr (later other member)) ofKind
      obtain ⟨record, there⟩ := Option.isSome_iff_exists.mp here
      have same := eq_of_rel ((alike token.1 (.inr (.inl here))).atHand (.inl here))
      rw [spendTokenBox, spendTokenBox, ← same, there]
      exact alike_insert (alike other) rfl

end Tokens

/-! ### Runs -/

section Run
variable {sr : SigmaRust} {kind : Digest32 → RecordKind} {run : FlushRun}

/-- Neither indexer is in a call, and under every key the records of its kind are alike. -/
structure Transparent (sr : SigmaRust) (kind : Digest32 → RecordKind) (run : FlushRun) : Prop where
  idle : run.flushing.held = []
  plainIdle : run.plain.held = []
  unstored : ∀ key, run.plain.storage key = none
  transactions : run.flushing.transactions = []
  place : run.flushing.state.globalBoxIndex = run.plain.state.globalBoxIndex
  boxes : ∀ key, OfKind kind .box run.flushing.boxes run.flushing.storage key →
    Alike Eq run.flushing.boxes run.flushing.storage IndexedErgoBox.read run.plain.boxes key
  addresses : ∀ key, OfKind kind .address run.flushing.addresses run.flushing.storage key →
    Alike SameAddress run.flushing.addresses run.flushing.storage IndexedErgoAddress.read run.plain.addresses key
  tokens : ∀ tokenId, OfKind kind .token run.flushing.tokens run.flushing.storage (tokenUniqueId sr tokenId) →
    Alike Eq run.flushing.tokens run.flushing.storage IndexedToken.read run.plain.tokens (tokenUniqueId sr tokenId)

theorem transparent_start (sr : SigmaRust) (kind : Digest32 → RecordKind) : Transparent sr kind .start where
  idle := rfl
  plainIdle := rfl
  unstored _ := rfl
  transactions := rfl
  place := rfl
  boxes _ _ := ⟨none, .missing rfl rfl, .none⟩
  addresses _ _ := ⟨none, .missing rfl rfl, .none⟩
  tokens _ _ := ⟨none, .missing rfl rfl, .none⟩

/-! Flushes. -/

section Flushed
variable {A : Type} {same : A → A → Prop} {read : RecordRead A} {serialize : A → Bytes} {wanted : RecordKind}
variable {table plain : Table Digest32 A} {storage later : IndexStorage} {key : Digest32}

theorem lookup_of_other {P : A → Prop} (all : ∀ entry ∈ table.entries, kind entry.1 = wanted ∧ P entry.2)
    (other : kind key ≠ wanted) : table.lookup key = none := by
  cases there : table.lookup key with
  | none => rfl
  | some record => exact absurd (all _ (AList.mem_lookup_iff.mp there)).1 other

theorem rel_again {again record : A} {found : Option A} (trans : ∀ a b c, same a b → same b c → same a c)
    (like : same again record) (rel : Option.Rel same (some record) found) : Option.Rel same (some again) found := by
  cases rel with
  | some later => exact .some (trans _ _ _ like later)

/-- A record that fits is found again in storage once it has left the buffer. -/
theorem alike_flushed (serialize : A → Bytes)
    (alike : OfKind kind wanted table storage key → Alike same table storage read plain key)
    (trans : ∀ a b c, same a b → same b c → same a c)
    (fits : ∀ record, table.lookup key = some record →
      ∃ again, same again record ∧ ∃ rest, (read.exec ⟨0, serialize record⟩).result = .ok (again, rest))
    (now : kind key = wanted →
      later (.extraIndex key) = ((table.lookup key).map serialize).or (storage (.extraIndex key)))
    (gone : later (.extraIndex key) = none → table.lookup key = none ∧ storage (.extraIndex key) = none)
    (ofKind : OfKind kind wanted (∅ : Table Digest32 A) later key) : Alike same ∅ later read plain key := by
  rcases ofKind with mine | buffered | unstored
  · cases there : table.lookup key with
    | some record =>
        obtain ⟨again, like, rest, reads⟩ := fits record there
        rw [there] at now
        refine ⟨some again, .stored (AList.lookup_empty _) (now mine) reads, rel_again trans like ?_⟩
        have rel := (alike (.inl mine)).atHand (.inl (by simp [there]))
        rwa [there] at rel
    | none =>
        rw [there] at now
        obtain ⟨found, holds, rel⟩ := alike (.inl mine)
        refine ⟨found, ?_, rel⟩
        cases holds with
        | buffered here => rw [there] at here; cases here
        | stored _ stored reads => exact .stored (AList.lookup_empty _) ((now mine).trans stored) reads
        | missing _ unstored => exact .missing (AList.lookup_empty _) ((now mine).trans unstored)
  · simp at buffered
  · obtain ⟨unbuffered, before⟩ := gone unstored
    have rel := (alike (.inr (.inr before))).atHand (.inr before)
    rw [unbuffered] at rel
    exact ⟨none, .missing (AList.lookup_empty _) unstored, rel⟩

end Flushed

theorem Transparent.flush (transparent : Transparent sr kind run) (storable : Storable kind run.flushing)
    (order : FlushOrder) : Transparent sr kind { run with flushing := flushed order run.flushing } := by
  have stored := fun key => @storage_flushed key run.flushing order transparent.transactions
  have gone : ∀ key, (flushed order run.flushing).storage (.extraIndex key) = none →
      run.flushing.tokens.lookup key = none ∧ run.flushing.addresses.lookup key = none ∧
        run.flushing.boxes.lookup key = none ∧ run.flushing.storage (.extraIndex key) = none := by
    intro key unstored
    simpa [stored] using unstored
  refine ⟨transparent.idle, transparent.plainIdle, transparent.unstored, rfl, transparent.place, fun key => ?_,
    fun key => ?_, fun tokenId => ?_⟩
  · apply alike_flushed IndexedErgoBox.serialize (transparent.boxes key) fun _ _ _ => Eq.trans
    · intro ieb there
      have fits := (storable.boxes _ (AList.mem_lookup_iff.mp there)).2
      exact ⟨ieb, rfl, _, (reads_box fits).whole (Nat.lt_succ_self _)⟩
    · intro mine
      rw [stored, lookup_of_other storable.tokens (by simp [mine]), lookup_of_other storable.addresses (by simp [mine])]
      rfl
    · exact fun unstored => (gone key unstored).2.2
  · apply alike_flushed (IndexedErgoAddress.serialize order.balance) (transparent.addresses key)
      fun _ _ _ => SameAddress.trans
    · intro addr there
      have fits := (storable.addresses _ (AList.mem_lookup_iff.mp there)).2
      obtain ⟨again, same, reads⟩ := reads_address fits
      exact ⟨again, same, _, reads.whole (Nat.lt_succ_self _)⟩
    · intro mine
      rw [stored, lookup_of_other storable.tokens (by simp [mine]), lookup_of_other storable.boxes (by simp [mine])]
      rfl
    · exact fun unstored => ⟨(gone key unstored).2.1, (gone key unstored).2.2.2⟩
  · apply alike_flushed IndexedToken.serialize (transparent.tokens tokenId) fun _ _ _ => Eq.trans
    · intro token there
      have fits := (storable.tokens _ (AList.mem_lookup_iff.mp there)).2
      exact ⟨token, rfl, _, (reads_token fits).whole (Nat.lt_succ_self _)⟩
    · intro mine
      rw [stored, lookup_of_other storable.addresses (by simp [mine]), lookup_of_other storable.boxes (by simp [mine])]
      rfl
    · exact fun unstored => ⟨(gone _ unstored).1, (gone _ unstored).2.2.2⟩

/-! Calls. -/

theorem sameAddress_addressAt {addresses plain : Table Digest32 IndexedErgoAddress} {tree : Digest32}
    (rel : Option.Rel SameAddress (addresses.lookup tree) (plain.lookup tree)) :
    SameAddress (addressAt addresses tree) (addressAt plain tree) := by
  unfold addressAt
  cases first : addresses.lookup tree with
  | none =>
      rw [first] at rel
      cases second : plain.lookup tree with
      | none => exact .refl _
      | some other => rw [second] at rel; cases rel
  | some addr =>
      rw [first] at rel
      cases second : plain.lookup tree with
      | none => rw [second] at rel; cases rel
      | some other =>
          rw [second] at rel
          cases rel with
          | some same => exact same

theorem Transparent.indexOutput (transparent : Transparent sr kind run) {output : Output}
    (address : AtHand run.flushing.addresses run.flushing.storage (output.tree sr))
    (tokens : ∀ token ∈ output.tokens, AtHand run.flushing.tokens run.flushing.storage (tokenUniqueId sr token.1)) :
    Transparent sr kind ⟨indexed sr run.flushing output, indexed sr run.plain output⟩ := by
  have place := transparent.place
  refine ⟨transparent.idle, transparent.plainIdle, transparent.unstored, transparent.transactions,
    congrArg (· + 1) place, fun key => ?_, fun key => ?_, fun tokenId => ?_⟩
  · apply alike_insert (transparent.boxes key)
    rw [place]
  · apply alike_insert (transparent.addresses key)
    rw [place]
    exact (sameAddress_addressAt ((transparent.addresses _ (.inr address)).atHand address)).addBox _ _ _
  · unfold indexed
    rw [← place]
    exact alike_addTokenBoxes transparent.tokens tokens tokenId

theorem Transparent.spendBox (transparent : Transparent sr kind run) {boxId txId : Digest32} {height : UInt32}
    {ieb : IndexedErgoBox} (address : (run.flushing.addresses.lookup ieb.ergoTreeHash).isSome = true)
    (tokens : ∀ token ∈ ieb.tokens, (run.flushing.tokens.lookup (tokenUniqueId sr token.1)).isSome = true) :
    Transparent sr kind ⟨spent sr run.flushing boxId ieb txId height, spent sr run.plain boxId ieb txId height⟩ := by
  refine ⟨transparent.idle, transparent.plainIdle, transparent.unstored, transparent.transactions,
    transparent.place, fun key => ?_, fun key => ?_, fun tokenId => ?_⟩
  · exact alike_insert (transparent.boxes key) rfl
  · apply alike_insert (transparent.addresses key)
    have atHand : AtHand run.flushing.addresses run.flushing.storage ieb.ergoTreeHash := .inl address
    exact (sameAddress_addressAt ((transparent.addresses _ (.inr atHand)).atHand atHand)).spendBox _ _ _
  · exact alike_spendTokenBoxes transparent.tokens tokens tokenId

def registered (indexer : ExtraIndexer) (uniqueId : Digest32) (fresh : IndexedToken) (amount : UInt64) :
    ExtraIndexer :=
  let token := match indexer.tokens.lookup uniqueId with
    | some existing => existing.addEmission amount
    | none => fresh
  { indexer with tokens := indexer.tokens.insert uniqueId token }

theorem exec_registerToken {indexer : ExtraIndexer} (idle : indexer.held = []) (tokenId creationBoxId : Digest32)
    (amount : UInt64) (name description : String) (decimals : UInt8) :
    (registerToken sr tokenId creationBoxId amount name description decimals).exec indexer =
      (.ok (), registered indexer (tokenUniqueId sr tokenId)
        (.withCreationInfo tokenId creationBoxId amount name description decimals) amount) :=
  exec_withLock_modify (by simp [idle]) _

theorem Transparent.registerToken (transparent : Transparent sr kind run) {tokenId : Digest32} {fresh : IndexedToken}
    {amount : UInt64} (atHand : AtHand run.flushing.tokens run.flushing.storage (tokenUniqueId sr tokenId)) :
    Transparent sr kind ⟨registered run.flushing (tokenUniqueId sr tokenId) fresh amount,
      registered run.plain (tokenUniqueId sr tokenId) fresh amount⟩ := by
  refine ⟨transparent.idle, transparent.plainIdle, transparent.unstored, transparent.transactions,
    transparent.place, transparent.boxes, transparent.addresses, fun other => ?_⟩
  apply alike_insert (transparent.tokens other)
  rw [eq_of_rel ((transparent.tokens tokenId (.inr atHand)).atHand atHand)]

/-! Steps. -/

theorem both_of_ok {A : Type} {call : IndexerOp A} {answer other : A} {flushing plain : ExtraIndexer}
    (first : call.exec run.flushing = (.ok answer, flushing)) (second : call.exec run.plain = (.ok other, plain)) :
    run.both call = some ⟨flushing, plain⟩ := by
  unfold FlushRun.both
  rw [first, second]

/-- A call that returns from both with answers that are alike, and leaves both transparent. -/
theorem answered {A : Type} {same : A → A → Prop} {call : IndexerOp A} {answer other : A}
    {flushing plain : ExtraIndexer} (first : call.exec run.flushing = (.ok answer, flushing))
    (second : call.exec run.plain = (.ok other, plain)) (alike : same answer other)
    (next : Transparent sr kind ⟨flushing, plain⟩) :
    run.Answers same call ∧ ∃ next, run.both call = some next ∧ Transparent sr kind next :=
  ⟨⟨answer, other, flushing, plain, first, second, alike⟩, _, both_of_ok first second, next⟩

section Lookup
variable {A : Type} {buffer : ExtraIndexer → Table Digest32 A} {read : RecordRead A}
variable {key : Digest32} {same : A → A → Prop}

theorem Transparent.exec_lookup (transparent : Transparent sr kind run) (lock : BufferLock)
    (keeps : ∀ indexer held, buffer { indexer with held } = buffer indexer)
    (alike : Alike same (buffer run.flushing) run.flushing.storage read (buffer run.plain) key) :
    ∃ found, (lookup lock buffer read key).exec run.flushing = (.ok found, run.flushing) ∧
      (lookup lock buffer read key).exec run.plain = (.ok ((buffer run.plain).lookup key), run.plain) ∧
      Option.Rel same found ((buffer run.plain).lookup key) := by
  obtain ⟨found, holds, rel⟩ := alike
  have plain : Found (buffer run.plain) run.plain.storage read key ((buffer run.plain).lookup key) := by
    cases there : (buffer run.plain).lookup key with
    | some record => exact .buffered there
    | none => exact .missing there (transparent.unstored _)
  exact ⟨found, holds.exec_lookup (keeps _) (by simp [transparent.idle]),
    plain.exec_lookup (keeps _) (by simp [transparent.plainIdle]), rel⟩

end Lookup

theorem transparent_spendBox (transparent : Transparent sr kind run) {boxId txId : Digest32} {height : UInt32}
    (loaded : FlushRun.Loaded sr kind run (.spendBox boxId txId height)) :
    run.Answers Eq (spendBox sr boxId txId height) ∧
      ∃ next, run.both (spendBox sr boxId txId height) = some next ∧ Transparent sr kind next := by
  obtain ⟨ofKind, ready⟩ := loaded
  obtain ⟨found, first, second, rel⟩ :=
    transparent.exec_lookup .boxes (fun _ _ => rfl) (transparent.boxes boxId ofKind)
  rw [← eq_of_rel rel] at second
  cases found with
  | none => exact answered (exec_spendBox_of_none first txId height) (exec_spendBox_of_none second txId height) rfl transparent
  | some ieb =>
      have looked : ((getBox boxId).exec run.flushing).1.toOption.join = some ieb := by
        rw [getBox, first]
        rfl
      obtain ⟨address, tokens⟩ := ready ieb looked
      have plainAddress := (transparent.addresses _ (.inr (.inl address))).isSome address
      have plainTokens := fun token member =>
        (transparent.tokens token.1 (.inr (.inl (tokens token member)))).isSome (tokens token member)
      exact answered (exec_spendBox transparent.idle first address tokens txId height)
        (exec_spendBox transparent.plainIdle second plainAddress plainTokens txId height) rfl
        (transparent.spendBox address tokens)

theorem transparent_step {action : FlushRun.Action} (transparent : Transparent sr kind run)
    (loaded : FlushRun.Loaded sr kind run action) :
    FlushRun.SameAnswer sr run action ∧ ∃ next, run.step sr action = some next ∧ Transparent sr kind next := by
  cases action with
  | indexOutput output =>
      exact answered (exec_indexOutput transparent.idle output) (exec_indexOutput transparent.plainIdle output)
        transparent.place (transparent.indexOutput loaded.1 loaded.2)
  | spendBox boxId txId height => exact transparent_spendBox transparent loaded
  | registerToken tokenId creationBoxId amount name description decimals =>
      exact answered (exec_registerToken transparent.idle tokenId creationBoxId amount name description decimals)
        (exec_registerToken transparent.plainIdle tokenId creationBoxId amount name description decimals) rfl
        (transparent.registerToken loaded)
  | flush order fails =>
      cases fails with
      | true =>
          have refused := @exec_flush_fails run.flushing order transparent.idle
          exact ⟨⟨_, _, refused⟩, run, by simp only [FlushRun.step, refused], transparent⟩
      | false =>
          have done := @exec_flush run.flushing order transparent.idle
          exact ⟨⟨_, _, done⟩, _, by simp only [FlushRun.step, done], transparent.flush (loaded.resolve_left nofun) order⟩
  | getBox boxId =>
      obtain ⟨found, first, second, rel⟩ :=
        transparent.exec_lookup .boxes (fun _ _ => rfl) (transparent.boxes boxId loaded)
      exact answered first second (eq_of_rel rel) transparent
  | getAddress treeHash =>
      obtain ⟨found, first, second, rel⟩ :=
        transparent.exec_lookup .addresses (fun _ _ => rfl) (transparent.addresses treeHash loaded)
      exact answered first second rel transparent
  | getToken tokenId =>
      obtain ⟨found, first, second, rel⟩ :=
        transparent.exec_lookup .tokens (fun _ _ => rfl) (transparent.tokens tokenId loaded)
      exact answered first second (eq_of_rel rel) transparent

end Run

/-- In a run that is loaded at every step, every call returns, and it gives the same with flushes as without. -/
theorem sameAnswers_of_loaded (sr : SigmaRust) (kind : Digest32 → RecordKind) (actions : List FlushRun.Action)
    (loaded : Along (FlushRun.step sr) (FlushRun.Loaded sr kind) .start actions) :
    (∃ last, run (FlushRun.step sr) .start actions = some last) ∧
      Along (FlushRun.step sr) (FlushRun.SameAnswer sr) .start actions :=
  loaded.completes transparent_step (transparent_start sr kind)

/-! ### Records that stay at hand, and records that do not -/

def sampleOrder : FlushOrder := ⟨⟨_, fun _ => .rfl⟩, ⟨_, fun _ => .rfl⟩, ⟨_, fun _ => .rfl⟩, ⟨_, fun _ => .rfl⟩⟩

def sampleKind (key : Digest32) : RecordKind :=
  if key = .filled 1 then .address else if key = .filled 4 then .token else .box

def loadedActions : List FlushRun.Action :=
  [.registerToken (.filled 4) (.filled 2) 100 "token" "test" 2, .indexOutput (sampleOutput 2 5),
    .spendBox (.filled 2) (.filled 9) 10, .flush sampleOrder false, .getBox (.filled 2), .getAddress (.filled 1),
    .getToken (.filled 4)]

theorem loadedActions_sameAnswers :
    (∃ last, run (FlushRun.step sampleHash) .start loadedActions = some last) ∧
      Along (FlushRun.step sampleHash) (FlushRun.SameAnswer sampleHash) .start loadedActions :=
  sameAnswers_of_loaded sampleHash sampleKind loadedActions (by decide +kernel)

def storedActions : List FlushRun.Action := [.indexOutput (sampleOutput 2 5), .flush sampleOrder false]

theorem storedActions_not_sameAnswer : ¬ Along (FlushRun.step sampleHash) (FlushRun.SameAnswer sampleHash) .start
    (storedActions ++ [.spendBox (.filled 2) (.filled 9) 10]) := by
  intro along
  have hangs : (run (FlushRun.step sampleHash) .start storedActions).map (fun last =>
      ((spendBox sampleHash (.filled 2) (.filled 9) 10).exec last.flushing).1.toOption.isSome) = some false := by
    decide +kernel
  obtain ⟨last, ran, hangs⟩ := Option.map_eq_some_iff.mp hangs
  obtain ⟨answer, other, flushing, plain, returns, -⟩ := along storedActions _ List.prefix_rfl last ran
  rw [returns] at hangs
  cases hangs

end ErgoNode.Proof.Indexer
