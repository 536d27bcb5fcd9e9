import ErgoNode.Proof.History.Sections
import ErgoNode.Proof.Manager.Calls
import ErgoNode.Proof.Sample

/-!
# Full blocks read back

A block that is appended, alone or in a batch, is read from its sections. The stored bytes do not have the
version of the transactions section, and the length of an extension value has two bytes.
-/

namespace ErgoNode.Proof.Manager
open Lib StateManager Utxo
open ErgoNode.Proof.History
open BlockStore (serializeTransactions serializeExtension getExtension deserializeExtension)

variable {sr : SigmaRust} {block : FullBlock} {blocks : List FullBlock}

/-! ### What a write puts into the section columns -/

structure BlockBytes where
  block : FullBlock
  header : Bytes
  txs : Bytes

def BlockBytes.ops (bytes : BlockBytes) : WriteBatch :=
  [⟨⟨.headers, bytes.block.id⟩, .put bytes.header⟩, ⟨⟨.headerChain, bytes.block.height⟩, .put bytes.block.id⟩,
    ⟨⟨.blockTransactions, bytes.block.id⟩, .put bytes.txs⟩,
    ⟨⟨.extensions, bytes.block.extension.headerId⟩, .put (serializeExtension bytes.block.extension)⟩]

def BlockBytes.Encoded (sr : SigmaRust) (bytes : BlockBytes) : Prop :=
  sr.headerBytes bytes.block.header = .ok bytes.header ∧
    serializeTransactions sr bytes.block.transactions = .ok bytes.txs

def BlockColumn (cf : ColumnFamily) : Prop :=
  cf = .headers ∨ cf = .headerChain ∨ cf = .blockTransactions ∨ cf = .extensions

structure SectionsPut (sr : SigmaRust) (blocks : List FullBlock) (sections : List BlockBytes) (batch : WriteBatch) :
    Prop where
  blocks : sections.map (·.block) = blocks
  encoded : ∀ bytes ∈ sections, bytes.Encoded sr
  column : ∀ {cf}, BlockColumn cf → batchColumn cf batch = batchColumn cf (sections.flatMap BlockBytes.ops)

section Put
variable {sections : List BlockBytes} {batch : WriteBatch} {cf : ColumnFamily}

theorem ops_headers (sections : List BlockBytes) :
    batchColumn .headers (sections.flatMap BlockBytes.ops) = puts (·.block.id) (·.header) sections := by
  rw [batchColumn_flatMap, puts, List.map_eq_flatMap]
  simp [BlockBytes.ops, batchColumn_cons_of_ne]

theorem ops_chain (sections : List BlockBytes) :
    batchColumn .headerChain (sections.flatMap BlockBytes.ops) =
      puts (·.block.height) (·.block.id) sections := by
  rw [batchColumn_flatMap, puts, List.map_eq_flatMap]
  simp [BlockBytes.ops, batchColumn_cons_of_ne]

theorem ops_transactions (sections : List BlockBytes) :
    batchColumn .blockTransactions (sections.flatMap BlockBytes.ops) = puts (·.block.id) (·.txs) sections := by
  rw [batchColumn_flatMap, puts, List.map_eq_flatMap]
  simp [BlockBytes.ops, batchColumn_cons_of_ne]

theorem ops_extensions (sections : List BlockBytes) :
    batchColumn .extensions (sections.flatMap BlockBytes.ops) =
      puts (·.block.extension.headerId) (fun bytes => serializeExtension bytes.block.extension) sections := by
  rw [batchColumn_flatMap, puts, List.map_eq_flatMap]
  simp [BlockBytes.ops, batchColumn_cons_of_ne]

theorem blockOps_blockColumn (known : BlockColumn cf) (header txs : Bytes) (cumulative : Nat) :
    batchColumn cf (blockOps block header txs cumulative) = batchColumn cf (BlockBytes.ops ⟨block, header, txs⟩) := by
  rw [blockOps, batchColumn_append]
  rcases known with rfl | rfl | rfl | rfl <;> cases block.adProofs <;>
    simp [BlockBytes.ops, batchColumn_cons_of_ne, FullBlock.id, FullBlock.height]

theorem blockColumn_ne (known : BlockColumn cf) : HistoryColumn cf := by
  rcases known with rfl | rfl | rfl | rfl <;> exact ⟨fun kind => by simp, by simp, by simp, by simp⟩

theorem SectionsPut.putBestBlock (put : SectionsPut sr blocks sections batch) (history : ErgoNode.History)
    (id : BlockId) (height cumulative : Nat) :
    SectionsPut sr blocks sections (History.putBestBlock history batch id height cumulative) where
  blocks := put.blocks
  encoded := put.encoded
  column known := by rw [putBestBlock_column (blockColumn_ne known).2.2.2, put.column known]

theorem sectionsPut_append {parent cumulative : Nat}
    (built : History.addBlockToBatch sr [] block parent = .ok (batch, cumulative)) :
    ∃ sections, SectionsPut sr [block] sections batch := by
  obtain ⟨header, txs, encoded, serialized, -, rfl⟩ := addBlockToBatch_eq_ok.mp built
  refine ⟨[⟨block, header, txs⟩], rfl, ?_, fun known => ?_⟩
  · exact List.forall_mem_singleton.mpr ⟨encoded, serialized⟩
  · rw [List.nil_append, blockOps_blockColumn known, List.flatMap_singleton]

variable {st : StateManager} {acc next : BlockBatch} {item : FullBlock × StateChange}

theorem SectionsPut.step (put : SectionsPut sr blocks sections acc.batch)
    (turn : addToBatch sr st acc item = .ok next) :
    ∃ more, SectionsPut sr (blocks ++ [item.1]) more next.batch := by
  obtain ⟨block, change⟩ := item
  simp only [addToBatch, Except.bind_ok_eq_ok, Except.pure_eq_ok] at turn
  obtain ⟨⟨batch, cumulative⟩, added, boxes, changed, rfl⟩ := turn
  obtain ⟨header, txs, encoded, serialized, -, rfl⟩ := addBlockToBatch_eq_ok.mp added
  obtain ⟨removed, spec⟩ := changeToBatch_spec changed
  refine ⟨sections ++ [⟨block, header, txs⟩], ?_, ?_, fun known => ?_⟩
  · rw [List.map_append, put.blocks]
    rfl
  · exact List.forall_mem_append.mpr ⟨put.encoded, List.forall_mem_singleton.mpr ⟨encoded, serialized⟩⟩
  · obtain ⟨unindexed, utxo, undoData, metadata⟩ := blockColumn_ne known
    rw [spec.column unindexed, batchColumn_append, put.column known, blockOps_blockColumn known, List.flatMap_append,
      batchColumn_append, List.flatMap_singleton]
    simp [changeOps, batchColumn_cons_of_ne, utxo, undoData, metadata]

theorem sectionsPut_batch {start : Nat} {items : List (FullBlock × StateChange)}
    (built : items.foldlM (addToBatch sr st) ⟨[], start, BoxMap.empty⟩ = .ok acc) :
    ∃ sections, SectionsPut sr (items.map Prod.fst) sections acc.batch := by
  have start : SectionsPut sr (([] : List (FullBlock × StateChange)).map Prod.fst) [] [] := ⟨rfl, nofun, fun _ => rfl⟩
  refine foldlM_prefix_invariant
    (fun done (acc : BlockBatch) => ∃ sections, SectionsPut sr (done.map Prod.fst) sections acc.batch) ?_ ⟨[], start⟩ built
  rintro done acc item next ⟨_, put⟩ turn
  rw [List.map_append]
  exact put.step turn

end Put

/-! ### Storing and reading -/

/-- The block is written to the database together with the others of the list, in this order. -/
inductive Stored (sr : SigmaRust) (block : FullBlock) : List FullBlock → Database → Database → Prop
  | append {view after : OnDatabase ErgoNode.History} {selection : ChainSelection}
      (done : (History.appendFullBlock sr block).exec view = (.ok selection, after)) :
      Stored sr block [block] view.db after.db
  | batch {st after : StateManager} {items : List (FullBlock × StateChange)} {selection : ChainSelection}
      (done : (applyBlocksBatched sr items).exec st = (.ok selection, after))
      (last : (items.map Prod.fst).reverse.find? (fun other => other.id = block.id) = some block) :
      Stored sr block (items.map Prod.fst) st.db after.db

variable {db after : Database}

theorem Stored.last (stored : Stored sr block blocks db after) :
    blocks.reverse.find? (fun other => other.id = block.id) = some block := by
  cases stored with
  | append done => simp
  | batch done last => exact last

theorem Stored.put (stored : Stored sr block blocks db after) :
    ∃ sections batch, SectionsPut sr blocks sections batch ∧ after.columns = db.columns.write batch := by
  cases stored with
  | append done =>
      obtain ⟨batch, cumulative, built, columns, -⟩ := appendFullBlock_eq_ok done
      obtain ⟨sections, put⟩ := sectionsPut_append built
      exact ⟨sections, _, put.putBestBlock .., columns⟩
  | @batch _ _ items _ done last =>
      cases items with
      | nil => cases last
      | cons first rest =>
          obtain ⟨acc, built, applied⟩ := applyBlocksBatched_eq_ok done
          obtain ⟨sections, put⟩ := sectionsPut_batch built
          exact ⟨sections, _, put.putBestBlock .., applied.columns⟩

def lastExtension (blocks : List FullBlock) (id : BlockId) : Option Extension :=
  (blocks.reverse.find? fun other => other.extension.headerId = id).map (·.extension)

/-- What is left under the id of the block is its own extension, whose lengths fit, or reads as the same
fields. -/
def ExtensionSurvives (db : Database) (blocks : List FullBlock) (block : FullBlock) : Prop :=
  match lastExtension blocks block.id with
  | some extension =>
      if extension.fields = block.extension.fields then FieldsFit block.extension.fields
      else deserializeExtension block.id (serializeExtension extension) = .ok ⟨block.id, block.extension.fields⟩
  | none => ∃ found, getExtension db block.id = .ok found ∧
      (found.getD (Extension.empty block.id)).fields = block.extension.fields

structure Survives (sr : SigmaRust) (db : Database) (blocks : List FullBlock) (block : FullBlock) : Prop where
  version : block.transactions.blockVersion = 2
  named : block.transactions.headerId = block.id
  transactions : TransactionsFit sr block.transactions.txs
  extension : ExtensionSurvives db blocks block

theorem find?_block {sections : List BlockBytes} (p : FullBlock → Bool) :
    (sections.map (·.block)).reverse.find? p =
      (sections.reverse.find? fun bytes => p bytes.block).map (·.block) := by
  rw [← List.map_reverse, List.find?_map]
  rfl

theorem Stored.sections (stored : Stored sr block blocks db after) : ∃ header txs, sr.headerBytes block.header = .ok header ∧
    serializeTransactions sr block.transactions = .ok txs ∧ after.get .headers block.id = some header ∧
    after.get .blockTransactions block.id = some txs := by
  obtain ⟨sections, batch, put, columns⟩ := stored.put
  have last := stored.last
  rw [← put.blocks, find?_block, Option.map_eq_some_iff] at last
  obtain ⟨bytes, found, rfl⟩ := last
  obtain ⟨encoded, serialized⟩ := put.encoded bytes (List.mem_reverse.mp (List.mem_of_find?_eq_some found))
  refine ⟨bytes.header, bytes.txs, encoded, serialized, ?_, ?_⟩
  · have column := congrFun (Store.column_write db.columns batch .headers) bytes.block.id
    rw [put.column (.inl rfl), ops_headers, Store.write_puts_eq, found] at column
    rw [Database.get, columns]
    exact column
  · have column := congrFun (Store.column_write db.columns batch .blockTransactions) bytes.block.id
    rw [put.column (.inr (.inr (.inl rfl))), ops_transactions, Store.write_puts_eq, found] at column
    rw [Database.get, columns]
    exact column

theorem Stored.extension (stored : Stored sr block blocks db after) (id : BlockId) :
    after.get .extensions id = ((lastExtension blocks id).map serializeExtension).or (db.get .extensions id) := by
  obtain ⟨sections, batch, put, columns⟩ := stored.put
  have column := congrFun (Store.column_write db.columns batch .extensions) id
  rw [put.column (.inr (.inr (.inr rfl))), ops_extensions, Store.write_puts_eq] at column
  rw [Database.get, columns, ← put.blocks, lastExtension, find?_block, Option.map_map, Option.map_map]
  exact column

theorem Stored.extension_iff (stored : Stored sr block blocks db after) :
    (∃ found, getExtension after block.id = .ok found ∧
      (found.getD (Extension.empty block.id)).fields = block.extension.fields) ↔ ExtensionSurvives db blocks block := by
  have left := stored.extension block.id
  unfold ExtensionSurvives
  cases last : lastExtension blocks block.id with
  | none =>
      rw [last] at left
      have same : getExtension after block.id = getExtension db block.id := by
        rw [getExtension, getExtension, left]
        rfl
      rw [same]
  | some extension =>
      rw [last] at left
      have read : getExtension after block.id =
          (deserializeExtension block.id (serializeExtension extension)).map some := by
        rw [getExtension, left]
        rfl
      have whole : (∃ found, getExtension after block.id = .ok found ∧
            (found.getD (Extension.empty block.id)).fields = block.extension.fields) ↔
          deserializeExtension block.id (serializeExtension extension) = .ok ⟨block.id, block.extension.fields⟩ := by
        rw [read]
        constructor
        · rintro ⟨found, given, fields⟩
          obtain ⟨own, here, rfl⟩ := Except.map_eq_ok.mp given
          rw [here, ← fields, ← deserializeExtension_headerId here]
          rfl
        · intro here
          rw [here]
          exact ⟨some ⟨block.id, block.extension.fields⟩, rfl, rfl⟩
      rw [whole]
      dsimp only
      split
      · next same => rw [← same, deserializeExtension_serializeExtension]
      · rfl

/-- A stored block is read back as it was exactly when it survives. -/
theorem stored_readBack_iff {interpreter : Interpreter} (codec : TransactionCodec sr)
    (parses : ∀ {header bytes}, sr.headerBytes header = .ok bytes → ∃ parsed, sr.parseHeader bytes = .ok parsed)
    (stored : Stored sr block blocks db after) :
    SectionsReadBack sr interpreter after block ↔ Survives sr db blocks block := by
  obtain ⟨header, txs, encoded, serialized, inHeaders, inTransactions⟩ := stored.sections
  obtain ⟨parsed, read⟩ := parses encoded
  rw [readBack_iff codec inHeaders read serialized inTransactions, stored.extension_iff]
  constructor
  · rintro ⟨version, named, transactions, extension⟩
    exact ⟨version, named, transactions, extension⟩
  · intro survives
    exact ⟨survives.version, survives.named, survives.transactions, survives.extension⟩

/-! ### Blocks of both versions -/

section Samples
open Sample BlockTransactions

theorem sample_transactionCodec (boxes : List ErgoBox) (headers : List Header) (txs : List Transaction) :
    TransactionCodec (codec boxes headers txs) :=
  ⟨decodeIn_encodeIn, encode_le_of_decode⟩

def countInterpreter : Interpreter where
  verify _ _ _ _ := .error "no scripts"
  bytesToSign _ := .ok []
  outputIndex _ := none
  getRegister _ _ := none
  maxTxIo := 32767
  merkleRoot leaves := .filled (UInt8.ofNat leaves.length)
  getU32 _ := .error "no numbers"

def versionTx : Transaction := ⟨.filled 1, [⟨.filled 1, [], []⟩], none, [sampleBox 2]⟩

def versionHeader (version : Nat) : Header := { header11 with version, transactionRoot := .filled (UInt8.ofNat version) }

def versionBlock (version : Nat) : FullBlock :=
  ⟨versionHeader version, ⟨header11.id, [versionTx], version⟩, ⟨header11.id, [⟨(1, 0), [7]⟩]⟩, none⟩

def versionCodec (version : Nat) : SigmaRust := codec [] [versionHeader version] [versionTx]

def versionStored (version : Nat) : OnDatabase ErgoNode.History :=
  ((History.appendFullBlock (versionCodec version) (versionBlock version)).exec ⟨.empty, .new⟩).2

theorem secondVersion_readBack : SectionsReadBack (versionCodec 2) countInterpreter (versionStored 2).db (versionBlock 2) := by
  have done : (History.appendFullBlock (versionCodec 2) (versionBlock 2)).exec ⟨.empty, .new⟩ =
      (.ok .extended, versionStored 2) := Prod.ext rfl rfl
  refine (stored_readBack_iff (sample_transactionCodec ..) ?_ (.append done)).mpr ⟨rfl, rfl, ⟨by decide, ?_⟩, ?_⟩
  · intro header bytes encoded
    exact ⟨header, decodeIn_encodeIn encoded⟩
  · intro tx member bytes written
    obtain rfl := List.mem_singleton.mp member
    cases written
    decide
  · exact ⟨by decide, by decide⟩

/-- The block of version 1 has the root that its header names, and the block that is read back has not. -/
theorem firstVersion_not_readBack : ¬ SectionsReadBack (versionCodec 1) countInterpreter (versionStored 1).db (versionBlock 1) ∧
    validateAgainstHeader (versionCodec 1) countInterpreter (versionBlock 1).transactions (versionHeader 1) = .ok () ∧
    ∀ stored, History.getFullBlock (versionCodec 1) (versionStored 1).db (versionHeader 1).id = .ok (some stored) →
      validateAgainstHeader (versionCodec 1) countInterpreter stored.transactions (versionHeader 1) ≠ .ok () := by
  have whole : History.getFullBlock (versionCodec 1) (versionStored 1).db (versionHeader 1).id =
      .ok (some { versionBlock 1 with transactions := ⟨header11.id, [versionTx], 2⟩ }) := rfl
  refine ⟨?_, by decide, ?_⟩
  · rintro ⟨stored, read, -, -, version, -⟩
    cases whole.symm.trans read
    cases version
  · intro stored read
    cases whole.symm.trans read
    decide

end Samples

end ErgoNode.Proof.Manager
