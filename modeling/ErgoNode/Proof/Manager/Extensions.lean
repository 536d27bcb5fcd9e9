import ErgoNode.Node.Epochs
import ErgoNode.Proof.History.Sections
import ErgoNode.Proof.Manager.Headers
import ErgoNode.Proof.Sync.Stored

/-!
# Extensions beside blocks

A block that is applied takes the extension stored for it away: the block is put together with an empty
one, which is written with it. The parameters are read back after that, so that no batch changes them.
Of the two sections of a block the one that comes last decides what is stored, and the parameters of
the extension come into force in neither order.
-/

namespace ErgoNode.Proof.Manager
open Lib StateManager Utxo
open ErgoNode.Proof.History
  (blockOps_extensions addBlockToBatch_eq_ok putBestBlock_column deserializeExtension_serializeExtension fieldsFit_nil)
open ErgoNode.Proof.Sync (column_storeHeadersBatch)

variable {sr : SigmaRust}

/-! ### The extensions of a batch -/

section Batch
variable {st after : StateManager} {acc next : BlockBatch} {item : FullBlock × StateChange}
variable {blocks : List (FullBlock × StateChange)}

abbrev extensionPuts (blocks : List (FullBlock × StateChange)) :
    List (BatchOperation fun k => Address.Value ⟨.extensions, k⟩) :=
  puts (fun entry : FullBlock × StateChange => entry.1.extension.headerId)
    (fun entry => BlockStore.serializeExtension entry.1.extension) blocks

theorem extensions_addToBatch (added : addToBatch sr st acc item = .ok next) :
    batchColumn .extensions next.batch = batchColumn .extensions acc.batch ++ extensionPuts [item] := by
  obtain ⟨block, change⟩ := item
  simp only [addToBatch, Except.bind_ok_eq_ok, Except.pure_eq_ok] at added
  obtain ⟨⟨batch, cumulative⟩, sections, boxes, changed, rfl⟩ := added
  obtain ⟨headerBytes, txs, -, -, -, rfl⟩ := addBlockToBatch_eq_ok.mp sections
  obtain ⟨removed, spec⟩ := changeToBatch_spec changed
  have unindexed : Unindexed .extensions := fun kind => by simp
  have others : batchColumn .extensions (changeOps sr change block.height removed) = [] := by
    simp [changeOps, batchColumn_cons_of_ne]
  rw [spec.column unindexed, others, List.append_nil, batchColumn_append, blockOps_extensions]
  rfl

theorem applyBlocksBatched_extensions {selection : ChainSelection}
    (done : (applyBlocksBatched sr blocks).exec st = (.ok selection, after)) :
    after.db.columns.column .extensions = (st.db.columns.column .extensions).write (extensionPuts blocks) := by
  cases blocks with
  | nil =>
      cases done
      rfl
  | cons first rest =>
      obtain ⟨acc, built, applied⟩ := applyBlocksBatched_eq_ok done
      have column := @foldlM_prefix_invariant _ _ _
        (fun done (acc : BlockBatch) => batchColumn .extensions acc.batch = extensionPuts done) _
        (fun inv turn => by
          rw [extensions_addToBatch turn, inv]
          exact (List.map_append ..).symm) _ [] _ _ rfl built
      rw [applied.columns, Store.column_write, putBestBlock_column (by decide), column]
      rfl

end Batch

/-! ### What becomes of a stored extension -/

section Stored
open VotedState
variable {s t : VotedState} {a : VotedState.Action} {id : BlockId} {blocks : List (FullBlock × StateChange)}
variable {downloaded : List DownloadedBlock} {extensionData : Bytes} {extension : Extension}

theorem columns_putExtension {db after : Database}
    (wrote : (BlockStore.putExtension extension).exec db = (.ok (), after)) :
    after.columns.column .extensions =
      Function.update (db.columns.column .extensions) extension.headerId
        (some (BlockStore.serializeExtension extension)) := by
  rw [Database.columns_of_writeBatch_ok wrote, Store.column_write]
  simp [BlockStore.putExtensionBatched, Store.apply]

theorem assemble_eq_some {db : Database} {block : DownloadedBlock} {entry : FullBlock × StateChange}
    (assembled : assemble sr db block = some entry) :
    entry.1.extension = Extension.empty (blockIdOf block.blockId) ∧
      Node.getHeader sr db block.blockId = some entry.1.header := by
  obtain ⟨header, found, rfl⟩ := Option.map_eq_some_iff.mp assembled
  exact ⟨rfl, found⟩

theorem validateQueued_assembled {interpreter : Interpreter} {parameters : Nat → ChainParameters} {db : Database}
    {overlay after : ErgoBoxMap} {queued : QueuedBlock} {block : FullBlock} {change : StateChange}
    (valid : Node.validateQueued sr interpreter parameters db overlay queued = .ok (block, change, after)) :
    assemble sr db ⟨queued.blockId, block.transactions, change⟩ = some (block, change) := by
  unfold Node.validateQueued at valid
  split at valid
  · cases valid
  · next blockTxs _ =>
      split at valid
      · cases valid
      · next header found =>
          simp only [Except.bind_ok_eq_ok, Except.pure_eq_ok, Prod.mk.injEq] at valid
          obtain ⟨_, -, rfl, rfl, -⟩ := valid
          rw [assemble, found]
          rfl

theorem assembled_mem {db : Database} (assembled : downloaded.mapM (assemble sr db) = some blocks)
    {entry : FullBlock × StateChange} (member : entry ∈ blocks) :
    ∃ block ∈ downloaded, assemble sr db block = some entry := by
  exact exists_left (mapM_eq_some.mp assembled) member

def Named (id : BlockId) (downloaded : List DownloadedBlock) : Prop :=
  ∃ block ∈ downloaded, blockIdOf block.blockId = id

theorem extensionIds_assembled {db : Database} (assembled : downloaded.mapM (assemble sr db) = some blocks) :
    id ∈ blocks.map (fun entry => entry.1.extension.headerId) ↔ Named id downloaded := by
  have pairs := mapM_eq_some.mp assembled
  have names : List.Forall₂ (fun block entry => blockIdOf block.blockId = entry) downloaded
      (blocks.map fun entry => entry.1.extension.headerId) := by
    rw [List.forall₂_map_right_iff]
    exact pairs.imp fun block entry same => by rw [(assemble_eq_some same).1]; rfl
  have same : downloaded.map (fun block => blockIdOf block.blockId) =
      blocks.map fun entry => entry.1.extension.headerId := by
    rw [← List.forall₂_eq_eq_eq, List.forall₂_map_left_iff]
    exact names
  rw [← same, List.mem_map]
  rfl

theorem extensions_applied {st after : StateManager} {selection : ChainSelection}
    (assembled : downloaded.mapM (assemble sr st.db) = some blocks)
    (done : (applyBlocksBatched sr blocks).exec st = (.ok selection, after)) (named : Named id downloaded) :
    after.db.get .extensions id = some (BlockStore.serializeExtension (Extension.empty id)) := by
  have column := congrFun (applyBlocksBatched_extensions done) id
  obtain ⟨entry, member, -, here⟩ := Store.exists_of_write_puts (st.db.columns.column .extensions)
    (fun entry : FullBlock × StateChange => BlockStore.serializeExtension entry.1.extension)
    ((extensionIds_assembled assembled).mpr named)
  obtain ⟨block, -, same⟩ := assembled_mem assembled member
  rw [(assemble_eq_some same).1] at here
  exact column.trans here

theorem extensions_applied_of_not_named {st after : StateManager} {selection : ChainSelection}
    (assembled : downloaded.mapM (assemble sr st.db) = some blocks)
    (done : (applyBlocksBatched sr blocks).exec st = (.ok selection, after)) (other : ¬ Named id downloaded) :
    after.db.get .extensions id = st.db.get .extensions id := by
  have column := congrFun (applyBlocksBatched_extensions done) id
  rw [← extensionIds_assembled assembled] at other
  exact column.trans (Store.write_puts_of_not_mem _ _ other)

def Concerns (id : BlockId) : VotedState.Action → Prop
  | .storeExtension extensionData => ∃ extension, Extension.parse extensionData = .ok extension ∧
      extension.headerId = id
  | .applyBatch downloaded => Named id downloaded
  | .storeHeadersBatch _ => False

theorem extensions_kept (apart : ¬ Concerns id a) (taken : VotedState.step sr s a = some t) :
    t.manager.db.get .extensions id = s.manager.db.get .extensions id := by
  cases a with
  | storeExtension extensionData =>
      cases taken
      unfold VotedState.storeExtension
      cases parsed : Extension.parse extensionData with
      | error e => rfl
      | ok extension =>
          have other : extension.headerId ≠ id := fun same => apart ⟨extension, parsed, same⟩
          rcases wrote : (BlockStore.putExtension extension).exec s.manager.db with ⟨error | done, db⟩
          · simp only [wrote]
            rw [Database.get, Database.columns_of_writeBatch_error wrote]
            rfl
          · simp only [wrote]
            have column := congrFun (columns_putExtension wrote) id
            rw [Function.update_of_ne other.symm] at column
            exact column
  | applyBatch downloaded =>
      obtain ⟨blocks, assembled, rfl⟩ := Option.map_eq_some_iff.mp taken
      unfold VotedState.applyBatch
      rcases done : (applyBlocksBatched sr blocks).exec s.manager with ⟨error | selection, after⟩
      · rw [Database.get, (applyBlocksBatched_eq_error done).1]
        rfl
      · exact extensions_applied_of_not_named assembled done apart
  | storeHeadersBatch headers =>
      cases taken
      have column := @column_storeHeadersBatch sr .extensions (by decide) s.manager headers
      exact congrFun column id

end Stored

/-! ### What becomes of the parameters -/

section Parameters
open VotedState VotedParameters
variable {s t : VotedState} {a : VotedState.Action} {blocks : List (FullBlock × StateChange)}
variable {downloaded : List DownloadedBlock} {params : VotedParameters}

/-- The header of a block is stored under its id, and its bytes written again still hash to the id. -/
def ReadsBack (sr : SigmaRust) (db : Database) (block : DownloadedBlock) : Prop :=
  ∀ header, Node.getHeader sr db block.blockId = some header →
    header.id = blockIdOf block.blockId ∧ Reserializes sr header

theorem updateFromBlock_of_empty {block : FullBlock} (empty : block.extension.fields = []) :
    updateFromBlock block params = params := by
  have none : block.extension.parseParameters = .ok ∅ := by
    rw [Extension.parseParameters, empty]
    rfl
  unfold updateFromBlock
  rw [none]
  split
  · rfl
  · rfl

theorem serializeExtension_eq_empty {extension : Extension} {id : BlockId} :
    BlockStore.serializeExtension extension = BlockStore.serializeExtension (Extension.empty id) ↔
      extension.fields = [] := by
  obtain ⟨headerId, fields⟩ := extension
  cases fields with
  | nil => exact ⟨fun _ => rfl, fun _ => rfl⟩
  | cons field rest =>
      constructor
      · intro same
        have lengths := congrArg List.length same
        simp [BlockStore.serializeExtension, Extension.empty] at lengths
      · intro none
        cases none

theorem getFullBlock_of_empty {db : Database} {id : BlockId} {block : FullBlock}
    (stored : db.get .extensions id = some (BlockStore.serializeExtension (Extension.empty id)))
    (read : History.getFullBlock sr db id = .ok (some block)) : block.extension.fields = [] := by
  have extension : BlockStore.getExtension db id = .ok (some (Extension.empty id)) := by
    have read := (deserializeExtension_serializeExtension id (Extension.empty id)).mpr fieldsFit_nil
    rw [BlockStore.getExtension, stored]
    dsimp only
    rw [read]
    rfl
  rw [History.getFullBlock, Except.bind_ok_eq_ok] at read
  obtain ⟨_ | header, -, read⟩ := read
  · simp at read
  · rw [Except.bind_ok_eq_ok] at read
    obtain ⟨_ | transactions, -, read⟩ := read
    · simp at read
    · dsimp only at read
      rw [extension] at read
      cases read
      rfl

variable {st after : StateManager} {selection : ChainSelection}

theorem getByHeight_applied (assembled : downloaded.mapM (assemble sr st.db) = some blocks)
    (done : (applyBlocksBatched sr blocks).exec st = (.ok selection, after))
    (reads : ∀ block ∈ downloaded, ReadsBack sr st.db block) {height : Nat}
    (inBatch : height ∈ blocks.map fun entry => entry.1.height) :
    ∃ header, HeaderStore.getByHeight sr after.db height = .ok (some header) ∧ Named header.id downloaded := by
  cases blocks with
  | nil => simp at inBatch
  | cons first rest =>
      obtain ⟨added, batch, writes, -⟩ := applyBlocksBatched_added done
      have heights : added.map (·.header.height) = (first :: rest).map fun entry => entry.1.height := by
        simpa [List.map_map, Function.comp_def, FullBlock.height] using congrArg (List.map Header.height) batch.headers
      obtain ⟨a, inAdded, -, chain⟩ := Store.exists_of_write_puts (st.db.columns.column .headerChain)
        (fun a : History.Added => a.header.id) (heights ▸ inBatch)
      obtain ⟨b, inAdded', same, bytes⟩ := Store.exists_of_write_puts (st.db.columns.column .headers)
        (fun a : History.Added => a.rawBytes) (List.mem_map_of_mem (f := (·.header.id)) inAdded)
      have inHeaders : b.header ∈ ((first :: rest).map Prod.fst).map (·.header) :=
        batch.headers ▸ List.mem_map_of_mem inAdded'
      obtain ⟨full, inFull, header⟩ := List.mem_map.mp inHeaders
      obtain ⟨entry, inBlocks, rfl⟩ := List.mem_map.mp inFull
      obtain ⟨block, inDownloaded, own⟩ := assembled_mem assembled inBlocks
      obtain ⟨keyed, reserializes⟩ := reads block inDownloaded b.header
        (header ▸ (assemble_eq_some own).2)
      obtain ⟨hash, parsed, parses⟩ := reserializes b.rawBytes (batch.encoded b inAdded')
      have chain : after.db.get .headerChain height = some a.header.id := (congrFun writes.chain height).trans chain
      have bytes : after.db.get .headers a.header.id = some b.rawBytes :=
        (congrFun writes.headers a.header.id).trans bytes
      refine ⟨{ parsed with id := sr.blake2b256 b.rawBytes }, ?_, block, inDownloaded, ?_⟩
      · simp [HeaderStore.getByHeight, chain, HeaderStore.get, bytes, parses, Except.mapError]
      · exact keyed.symm.trans hash.symm

theorem updateAtHeight_applied (assembled : downloaded.mapM (assemble sr st.db) = some blocks)
    (done : (applyBlocksBatched sr blocks).exec st = (.ok selection, after))
    (reads : ∀ block ∈ downloaded, ReadsBack sr st.db block) {height : Nat}
    (inBatch : height ∈ blocks.map fun entry => entry.1.height) :
    updateAtHeight sr after.db params height = params := by
  obtain ⟨header, byHeight, named⟩ := getByHeight_applied assembled done reads inBatch
  have stored := extensions_applied assembled done named
  unfold updateAtHeight
  rw [byHeight]
  split
  · dsimp only
    split
    · next block read =>
        exact updateFromBlock_of_empty (getFullBlock_of_empty stored read)
    · rfl
  · rfl

theorem range'_of_contiguous {heights : List Nat} {start n : Nat} (contiguous : heights = List.range' start n)
    (nonempty : heights ≠ []) :
    List.range' (heights.head?.getD 0) (heights.getLast?.getD 0 + 1 - heights.head?.getD 0) = heights := by
  subst contiguous
  have positive : n ≠ 0 := by
    rintro rfl
    exact nonempty rfl
  rw [List.head?_range', List.getLast?_range', if_neg positive, if_neg positive, Option.getD_some, Option.getD_some]
  congr 1
  omega

theorem updateForHeightRange_applied (assembled : downloaded.mapM (assemble sr st.db) = some blocks)
    (done : (applyBlocksBatched sr blocks).exec st = (.ok selection, after))
    (reads : ∀ block ∈ downloaded, ReadsBack sr st.db block) :
    updateForHeightRange sr after.db ((blocks.head?.map fun entry => entry.1.height).getD 0)
      ((blocks.getLast?.map fun entry => entry.1.height).getD 0) params = params := by
  cases blocks with
  | nil => rfl
  | cons first rest =>
      obtain ⟨acc, -, applied⟩ := applyBlocksBatched_eq_ok done
      rw [updateForHeightRange, ← List.head?_map, ← List.getLast?_map, range'_of_contiguous applied.heights (by simp)]
      refine List.foldlRecOn (motive := (· = params)) _ _ rfl fun current same height inBatch => ?_
      rw [same]
      exact updateAtHeight_applied assembled done reads inBatch

theorem parameters_applyBatch {applied : StateResult ChainSelection}
    (assembled : downloaded.mapM (assemble sr s.manager.db) = some blocks)
    (reads : ∀ block ∈ downloaded, ReadsBack sr s.manager.db block)
    (done : s.applyBatch sr blocks = (applied, t)) : t.currentParameters = s.currentParameters := by
  simp only [VotedState.applyBatch] at done
  split at done
  · next ran =>
      cases done
      exact updateForHeightRange_applied assembled ran reads
  · cases done
    rfl

def StepReadsBack (sr : SigmaRust) (s : VotedState) : VotedState.Action → Prop
  | .applyBatch downloaded => ∀ block ∈ downloaded, ReadsBack sr s.manager.db block
  | _ => True

theorem parameters_kept (reads : StepReadsBack sr s a) (taken : VotedState.step sr s a = some t) :
    t.currentParameters = s.currentParameters := by
  cases a with
  | storeExtension extensionData =>
      cases taken
      unfold VotedState.storeExtension
      split
      · rfl
      · split <;> rfl
  | applyBatch downloaded =>
      obtain ⟨blocks, assembled, rfl⟩ := Option.map_eq_some_iff.mp taken
      exact parameters_applyBatch assembled reads rfl
  | storeHeadersBatch headers =>
      cases taken
      rfl

end Parameters

/-! ### The two sections of a block -/

section Sections
open VotedState VotedParameters
variable (sr : SigmaRust)

inductive SectionOrder where
  | extensionFirst | transactionsFirst
  deriving DecidableEq

def Stores (extensionData : Bytes) (s t : VotedState) : Prop := s.storeExtension extensionData = (.ok (), t)

def Applies (block : FullBlock) (downloaded : List DownloadedBlock) (s t : VotedState) : Prop :=
  ∃ blocks selection, downloaded.mapM (assemble sr s.manager.db) = some blocks ∧ block ∈ blocks.map Prod.fst ∧
    (∀ block ∈ downloaded, ReadsBack sr s.manager.db block) ∧ s.applyBatch sr blocks = (.ok selection, t)

def Meanwhile (id : BlockId) (s t : VotedState) : Prop :=
  ∃ actions, (∀ a ∈ actions, ¬ Concerns id a) ∧ Along (VotedState.step sr) (StepReadsBack sr) s actions ∧
    run (VotedState.step sr) s actions = some t

def Processed (extensionData : Bytes) (block : FullBlock) (downloaded : List DownloadedBlock) :
    SectionOrder → VotedState → VotedState → Prop
  | .extensionFirst, s, t => ∃ s₁ s₂ s₃, Stores extensionData s s₁ ∧ Meanwhile sr block.id s₁ s₂ ∧
      Applies sr block downloaded s₂ s₃ ∧ Meanwhile sr block.id s₃ t
  | .transactionsFirst, s, t => ∃ s₁ s₂ s₃, Applies sr block downloaded s s₁ ∧ Meanwhile sr block.id s₁ s₂ ∧
      Stores extensionData s₂ s₃ ∧ Meanwhile sr block.id s₃ t

/-- The extension is stored with its fields, and the parameters are those it gives the block. -/
structure Settled (extension : Extension) (block : FullBlock) (previous : VotedParameters) (t : VotedState) :
    Prop where
  stored : t.manager.db.get .extensions block.id = some (BlockStore.serializeExtension extension)
  parameters : t.getParameters = updateFromBlock { block with extension } previous

variable {sr} {s t : VotedState} {extensionData : Bytes} {extension : Extension} {block : FullBlock}
variable {downloaded : List DownloadedBlock}

theorem Stores.settles (parsed : Extension.parse extensionData = .ok extension)
    (stores : Stores extensionData s t) :
    t.manager.db.get .extensions extension.headerId = some (BlockStore.serializeExtension extension) ∧
      t.currentParameters = s.currentParameters := by
  simp only [Stores, storeExtension, parsed] at stores
  split at stores
  · next wrote =>
      cases stores
      refine ⟨?_, rfl⟩
      have column := congrFun (columns_putExtension wrote) extension.headerId
      rw [Function.update_self] at column
      exact column
  · cases stores

theorem Applies.settles (applies : Applies sr block downloaded s t) :
    t.manager.db.get .extensions block.id = some (BlockStore.serializeExtension (Extension.empty block.id)) ∧
      t.currentParameters = s.currentParameters := by
  obtain ⟨blocks, selection, assembled, member, reads, done⟩ := applies
  refine ⟨?_, parameters_applyBatch assembled reads done⟩
  obtain ⟨entry, inBlocks, rfl⟩ := List.mem_map.mp member
  obtain ⟨d, inDownloaded, own⟩ := assembled_mem assembled inBlocks
  obtain ⟨keyed, -⟩ := reads d inDownloaded entry.1.header (assemble_eq_some own).2
  simp only [VotedState.applyBatch] at done
  split at done
  · next ran =>
      cases done
      exact extensions_applied assembled ran ⟨d, inDownloaded, keyed.symm⟩
  · cases done

theorem Meanwhile.keeps {id : BlockId} (meanwhile : Meanwhile sr id s t) :
    t.manager.db.get .extensions id = s.manager.db.get .extensions id ∧
      t.currentParameters = s.currentParameters := by
  obtain ⟨actions, apart, reads, ran⟩ := meanwhile
  have apart := (along_actions ran).mpr apart
  have along : Along (VotedState.step sr) (fun s a => ¬ Concerns id a ∧ StepReadsBack sr s a) s actions :=
    fun before a prefixed u reached => ⟨apart before a prefixed u reached, reads before a prefixed u reached⟩
  refine along.invariant (fun u => u.manager.db.get .extensions id = s.manager.db.get .extensions id ∧
    u.currentParameters = s.currentParameters) ?_ ⟨rfl, rfl⟩ t ⟨actions, List.prefix_rfl, ran⟩
  rintro u a v ⟨stored, parameters⟩ ⟨apart, reads⟩ taken
  exact ⟨(extensions_kept apart taken).trans stored, (parameters_kept reads taken).trans parameters⟩

/-- The last of the two sections decides what is stored, and the parameters stay. -/
theorem Processed.settles (parsed : Extension.parse extensionData = .ok extension)
    (own : extension.headerId = block.id) {order : SectionOrder}
    (processed : Processed sr extensionData block downloaded order s t) :
    t.manager.db.get .extensions block.id =
        some (BlockStore.serializeExtension
          (if order = .transactionsFirst then extension else Extension.empty block.id)) ∧
      t.currentParameters = s.currentParameters := by
  cases order with
  | extensionFirst =>
      obtain ⟨s₁, s₂, s₃, stores, between, applies, later⟩ := processed
      obtain ⟨stored, third⟩ := applies.settles
      refine ⟨later.keeps.1.trans stored, ?_⟩
      rw [later.keeps.2, third, between.keeps.2, (stores.settles parsed).2]
  | transactionsFirst =>
      obtain ⟨s₁, s₂, s₃, applies, between, stores, later⟩ := processed
      obtain ⟨stored, third⟩ := stores.settles parsed
      rw [own] at stored
      refine ⟨later.keeps.1.trans stored, ?_⟩
      rw [later.keeps.2, third, between.keeps.2, applies.settles.2]

theorem processed_settled_iff (parsed : Extension.parse extensionData = .ok extension)
    (own : extension.headerId = block.id) {order : SectionOrder}
    (processed : Processed sr extensionData block downloaded order s t) :
    Settled extension block s.getParameters t ↔ (extension.fields = [] ∨ order = .transactionsFirst) ∧
      updateFromBlock { block with extension } s.getParameters = s.getParameters := by
  obtain ⟨stored, parameters⟩ := processed.settles parsed own
  have kept : t.getParameters = s.getParameters := parameters
  constructor
  · rintro ⟨fields, updated⟩
    refine ⟨?_, updated.symm.trans kept⟩
    rw [stored, Option.some.injEq] at fields
    cases order with
    | extensionFirst => exact .inl (serializeExtension_eq_empty.mp fields.symm)
    | transactionsFirst => exact .inr rfl
  · rintro ⟨last, same⟩
    refine ⟨?_, kept.trans same.symm⟩
    rw [stored, Option.some.injEq]
    split
    · rfl
    · next first => exact (serializeExtension_eq_empty.mpr (last.resolve_right first)).symm

end Sections

/-! ### The block at the first epoch boundary -/

section Boundary
open Sample VotedState

def boundaryHeader : Header := sampleHeader 14 13 1024 easyBits

def boundaryCodec : SigmaRust := codec [] [boundaryHeader] []

def boundaryStart : VotedState where
  manager := {
    db := ⟨Store.write (fun _ => none) (WriteBatch.put [] .headers boundaryHeader.id []), []⟩
    utxo := { UtxoState.new with height := 1023 }
    history := .new
    stateRootVerification := .warnOnly }
  currentParameters := .default

def boundaryDownload : List DownloadedBlock := [⟨List.replicate 32 14, ⟨boundaryHeader.id, [], 1⟩, emptyChange⟩]

def boundaryBlock : FullBlock := sampleBlock boundaryHeader

def linksData : Bytes := List.replicate 32 14 ++ [1, 1, 0, 2, 1, 9]

def votesData : Bytes := List.replicate 32 14 ++ [1, 0, 4, 4, 0, 30, 132, 128]

def linksExtension : Extension := ⟨boundaryHeader.id, [⟨(1, 0), [1, 9]⟩]⟩

def votesExtension : Extension := ⟨boundaryHeader.id, [⟨(0, 4), [0, 30, 132, 128]⟩]⟩

def boundaryBatch : List (FullBlock × StateChange) := [(boundaryBlock, emptyChange)]

theorem boundary_applies {s : VotedState}
    (held : Node.getHeader boundaryCodec s.manager.db (List.replicate 32 14) = some boundaryHeader)
    (works : (s.applyBatch boundaryCodec boundaryBatch).1 = .ok .extended) :
    Applies boundaryCodec boundaryBlock boundaryDownload s (s.applyBatch boundaryCodec boundaryBatch).2 := by
  refine ⟨boundaryBatch, .extended, ?_, by decide, fun block member header found => ?_, Prod.ext works rfl⟩
  · rw [mapM_eq_some]
    refine .cons ?_ .nil
    rw [assemble, held]
    rfl
  · obtain rfl := List.mem_singleton.mp member
    cases held.symm.trans found
    exact ⟨by decide, by decide⟩

theorem meanwhile_nothing (id : BlockId) (s : VotedState) : Meanwhile boundaryCodec id s s :=
  ⟨[], by simp, along_nil, rfl⟩

theorem linksExtension_settled : ∃ t,
    Processed boundaryCodec linksData boundaryBlock boundaryDownload .transactionsFirst boundaryStart t ∧
      Settled linksExtension boundaryBlock boundaryStart.getParameters t := by
  let applied := (boundaryStart.applyBatch boundaryCodec boundaryBatch).2
  let stored := (applied.storeExtension linksData).2
  have processed : Processed boundaryCodec linksData boundaryBlock boundaryDownload .transactionsFirst
      boundaryStart stored :=
    ⟨applied, applied, stored, boundary_applies rfl rfl, meanwhile_nothing _ _, Prod.ext rfl rfl, meanwhile_nothing _ _⟩
  exact ⟨stored, processed, (processed_settled_iff rfl rfl processed).mpr ⟨.inr rfl, by decide⟩⟩

theorem votesExtension_processed (order : SectionOrder) :
    ∃ t, Processed boundaryCodec votesData boundaryBlock boundaryDownload order boundaryStart t := by
  cases order with
  | extensionFirst =>
      let stored := (boundaryStart.storeExtension votesData).2
      let applied := (stored.applyBatch boundaryCodec boundaryBatch).2
      exact ⟨applied, stored, stored, applied, Prod.ext rfl rfl, meanwhile_nothing _ _, boundary_applies rfl rfl,
        meanwhile_nothing _ _⟩
  | transactionsFirst =>
      let applied := (boundaryStart.applyBatch boundaryCodec boundaryBatch).2
      let stored := (applied.storeExtension votesData).2
      exact ⟨stored, applied, applied, stored, boundary_applies rfl rfl, meanwhile_nothing _ _, Prod.ext rfl rfl,
        meanwhile_nothing _ _⟩

theorem not_settled_of_votes {order : SectionOrder} {t : VotedState}
    (processed : Processed boundaryCodec votesData boundaryBlock boundaryDownload order boundaryStart t) :
    ¬ Settled votesExtension boundaryBlock boundaryStart.getParameters t := by
  intro settled
  have parsed : Extension.parse votesData = .ok votesExtension := rfl
  have same := settled.parameters.symm.trans (processed.settles parsed rfl).2
  exact absurd (congrArg (fun params => params.maxBlockCost) same) (by decide)

/-- In neither order does the limit come into force. -/
theorem votesExtension_lost :
    (∃ t, Processed boundaryCodec votesData boundaryBlock boundaryDownload .extensionFirst boundaryStart t ∧
      ¬ Settled votesExtension boundaryBlock boundaryStart.getParameters t) ∧
    ∃ t, Processed boundaryCodec votesData boundaryBlock boundaryDownload .transactionsFirst boundaryStart t ∧
      ¬ Settled votesExtension boundaryBlock boundaryStart.getParameters t := by
  constructor
  · obtain ⟨t, processed⟩ := votesExtension_processed .extensionFirst
    exact ⟨t, processed, not_settled_of_votes processed⟩
  · obtain ⟨t, processed⟩ := votesExtension_processed .transactionsFirst
    exact ⟨t, processed, not_settled_of_votes processed⟩

end Boundary

end ErgoNode.Proof.Manager
