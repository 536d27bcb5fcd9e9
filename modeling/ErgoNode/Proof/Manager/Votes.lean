import ErgoNode.Proof.Manager.Epochs
import ErgoNode.Proof.Manager.Restart

/-!
# The votes that stay stored

Blocks that are put leave the votes of the boundaries below them as they are. Pruning takes the votes of
every boundary below the minimal height away, or none at all.
-/

namespace ErgoNode.Proof.Manager
open Lib StateManager VotedParameters
open ErgoNode.Proof.History (appendFullBlock_eq_ok appendFullBlock_eq_error)

variable {sr : SigmaRust} {heightOf : BlockId → Nat} {db before after : Database} {height : Nat}
variable {block : FullBlock} {blocks : List FullBlock}

/-! ### Blocks that are put into a sound store -/

/-- The id of the block stands for its height and names its extension, and the bytes of its header hash to
the id and parse to a header of that height. -/
structure Genuine (sr : SigmaRust) (heightOf : BlockId → Nat) (block : FullBlock) : Prop where
  height : heightOf block.id = block.height
  extension : block.extension.headerId = block.id
  header : ∀ bytes, sr.headerBytes block.header = .ok bytes → sr.blake2b256 bytes = block.id ∧
    ∃ parsed, sr.parseHeader bytes = .ok parsed ∧ parsed.height = block.height

def SameSections (before after : Database) : Prop :=
  ∀ cf, BlockColumn cf → after.columns.column cf = before.columns.column cf

def PutBlocks (sr : SigmaRust) (blocks : List FullBlock) (before after : Database) : Prop :=
  ∃ sections : List BlockBytes, sections.map (·.block) = blocks ∧ (∀ bytes ∈ sections, bytes.Encoded sr) ∧
    ∀ {cf}, BlockColumn cf → after.columns.column cf =
      (before.columns.column cf).write (batchColumn cf (sections.flatMap BlockBytes.ops))

theorem putBlocks_of_same (same : SameSections before after) : PutBlocks sr [] before after :=
  ⟨[], rfl, nofun, same _⟩

structure SameAt (before after : Database) (id : BlockId) : Prop where
  headers : after.get .headers id = before.get .headers id
  transactions : after.get .blockTransactions id = before.get .blockTransactions id
  extensions : after.get .extensions id = before.get .extensions id

theorem votesAt_congr {epoch : Nat} (sound : Sound sr heightOf before)
    (slot : after.get .headerChain epoch = before.get .headerChain epoch)
    (same : ∀ id, before.get .headerChain epoch = some id → SameAt before after id) :
    votesAt sr after epoch = votesAt sr before epoch := by
  have header : HeaderStore.getByHeight sr after epoch = HeaderStore.getByHeight sr before epoch := by
    rw [HeaderStore.getByHeight, HeaderStore.getByHeight, slot]
    cases here : before.get .headerChain epoch with
    | none => rfl
    | some id =>
        dsimp only
        rw [HeaderStore.get, HeaderStore.get, (same id here).headers]
  unfold votesAt
  rw [header]
  rcases found : HeaderStore.getByHeight sr before epoch with error | _ | header
  · rfl
  · rfl
  · have kept := same header.id (sound.getByHeight found).1
    have stored := @storedExtension_congr sr before after header.id kept.headers kept.transactions kept.extensions
    exact congrArg (·.bind votesIn) stored

section Put
variable (put : PutBlocks sr blocks before after)
include put

theorem PutBlocks.chain : (∃ block ∈ blocks, block.height = height ∧ after.get .headerChain height = some block.id) ∨
    height ∉ blocks.map FullBlock.height ∧ after.get .headerChain height = before.get .headerChain height := by
  obtain ⟨sections, rfl, -, column⟩ := put
  have column := congrFun (column (.inr (.inl rfl))) height
  rw [ops_chain] at column
  by_cases member : height ∈ sections.map (·.block.height)
  · obtain ⟨bytes, inSections, same, now⟩ := Store.exists_of_write_puts (before.columns.column .headerChain)
      (fun bytes : BlockBytes => bytes.block.id) member
    exact .inl ⟨bytes.block, List.mem_map_of_mem inSections, same, column.trans now⟩
  · refine .inr ⟨?_, column.trans (Store.write_puts_of_not_mem _ _ member)⟩
    rwa [List.map_map]

theorem PutBlocks.header (id : BlockId) : (∃ block ∈ blocks, block.id = id ∧
      ∃ bytes, sr.headerBytes block.header = .ok bytes ∧ after.get .headers id = some bytes) ∨
    id ∉ blocks.map FullBlock.id ∧ after.get .headers id = before.get .headers id := by
  obtain ⟨sections, rfl, encoded, column⟩ := put
  have column := congrFun (column (.inl rfl)) id
  rw [ops_headers] at column
  by_cases member : id ∈ sections.map (·.block.id)
  · obtain ⟨bytes, inSections, same, now⟩ := Store.exists_of_write_puts (before.columns.column .headers)
      (fun bytes : BlockBytes => bytes.header) member
    exact .inl ⟨bytes.block, List.mem_map_of_mem inSections, same, bytes.header, (encoded bytes inSections).1,
      column.trans now⟩
  · refine .inr ⟨?_, column.trans (Store.write_puts_of_not_mem _ _ member)⟩
    rwa [List.map_map]

theorem PutBlocks.transactions_of_not_mem {id : BlockId} (other : id ∉ blocks.map FullBlock.id) :
    after.get .blockTransactions id = before.get .blockTransactions id := by
  obtain ⟨sections, rfl, -, column⟩ := put
  have column := congrFun (column (.inr (.inr (.inl rfl)))) id
  rw [ops_transactions] at column
  rw [List.map_map] at other
  exact column.trans (Store.write_puts_of_not_mem _ _ other)

theorem PutBlocks.extensions_of_not_mem {id : BlockId} (other : id ∉ blocks.map (·.extension.headerId)) :
    after.get .extensions id = before.get .extensions id := by
  obtain ⟨sections, rfl, -, column⟩ := put
  have column := congrFun (column (.inr (.inr (.inr rfl)))) id
  rw [ops_extensions] at column
  rw [List.map_map] at other
  exact column.trans (Store.write_puts_of_not_mem _ _ other)

theorem Sound.putBlocks (sound : Sound sr heightOf before) (genuine : ∀ block ∈ blocks, Genuine sr heightOf block) :
    Sound sr heightOf after where
  index height id slot := by
    rcases put.chain with ⟨block, member, same, now⟩ | ⟨-, kept⟩
    · rw [now] at slot
      cases slot
      exact (genuine block member).height.trans same
    · exact sound.index height id (kept ▸ slot)
  headers id header found := by
    rcases put.header id with ⟨block, member, same, bytes, encoded, now⟩ | ⟨-, kept⟩
    · obtain ⟨hash, parsed, parses, high⟩ := (genuine block member).header bytes encoded
      rw [HeaderStore.get, now] at found
      dsimp only at found
      rw [parses] at found
      cases found
      refine ⟨hash.trans same, high.trans ?_⟩
      rw [← (genuine block member).height, same]
    · refine sound.headers id header ?_
      rw [HeaderStore.get, kept] at found
      exact found

theorem votesAt_put {epoch : Nat} (sound : Sound sr heightOf before)
    (genuine : ∀ block ∈ blocks, Genuine sr heightOf block) (above : ∀ block ∈ blocks, epoch < block.height) :
    votesAt sr after epoch = votesAt sr before epoch := by
  have slot : after.get .headerChain epoch = before.get .headerChain epoch := by
    rcases put.chain with ⟨block, member, same, -⟩ | ⟨-, kept⟩
    · exact absurd same (Nat.ne_of_gt (above block member))
    · exact kept
  refine votesAt_congr sound slot fun id here => ?_
  have other : id ∉ blocks.map FullBlock.id := by
    intro member
    obtain ⟨block, inBlocks, rfl⟩ := List.mem_map.mp member
    have high := above block inBlocks
    rw [← (genuine block inBlocks).height, sound.index epoch _ here] at high
    exact Nat.lt_irrefl _ high
  have otherExtension : id ∉ blocks.map (·.extension.headerId) := by
    intro member
    obtain ⟨block, inBlocks, rfl⟩ := List.mem_map.mp member
    exact other ((genuine block inBlocks).extension ▸ List.mem_map_of_mem inBlocks)
  refine ⟨?_, put.transactions_of_not_mem other, put.extensions_of_not_mem otherExtension⟩
  rcases put.header id with ⟨block, member, same, -⟩ | ⟨-, kept⟩
  · exact absurd (List.mem_map.mpr ⟨block, member, same⟩) other
  · exact kept

end Put

/-! ### What the calls put -/

section Calls
variable {st : StateManager} {items : List (FullBlock × StateChange)}

theorem putBlocks_of_sections {sections : List BlockBytes} {batch : WriteBatch}
    (put : SectionsPut sr blocks sections batch) (columns : after.columns = before.columns.write batch) :
    PutBlocks sr blocks before after := by
  refine ⟨sections, put.blocks, put.encoded, fun known => ?_⟩
  rw [columns, Store.column_write, put.column known]

theorem putBlocks_applyBlock (sr : SigmaRust) (st : StateManager) (block : FullBlock) (change : StateChange) :
    ∃ blocks, PutBlocks sr blocks st.db ((StateManager.applyBlock sr block change).exec st).2.db ∧
      ∀ other ∈ blocks, other = block ∧ block.height = st.utxo.height + 1 := by
  rcases applyBlock_history sr st block change with same | ⟨next, rest⟩
  · rw [same]
    exact ⟨[], putBlocks_of_same fun _ _ => rfl, nofun⟩
  · have kept {cf : ColumnFamily} (known : BlockColumn cf) := (rest (blockColumn_ne known)).1
    rcases ran : (History.appendFullBlock sr block).exec st.historyView with ⟨error | selection, view⟩
    · refine ⟨[], putBlocks_of_same fun cf known => (kept known).trans ?_, nofun⟩
      rw [onHistory, Op.exec_zoom, ran]
      exact congrArg (Store.column · _) (appendFullBlock_eq_error ran).1
    · have stored : Stored sr block [block] st.db view.db := .append ran
      obtain ⟨sections, batch, put, columns⟩ := stored.put
      obtain ⟨bytes, same, encoded, column⟩ := putBlocks_of_sections put columns
      refine ⟨[block], ⟨bytes, same, encoded, fun known => (kept known).trans ?_⟩, ?_⟩
      · rw [onHistory, Op.exec_zoom, ran]
        exact column known
      · exact List.forall_mem_singleton.mpr ⟨rfl, next⟩

theorem putBlocks_applyBlocksBatched {selection : ChainSelection} {after : StateManager}
    (done : (applyBlocksBatched sr items).exec st = (.ok selection, after)) :
    PutBlocks sr (items.map Prod.fst) st.db after.db := by
  cases items with
  | nil =>
      cases done
      exact putBlocks_of_same fun _ _ => rfl
  | cons first rest =>
      obtain ⟨acc, built, applied⟩ := applyBlocksBatched_eq_ok done
      obtain ⟨sections, put⟩ := sectionsPut_batch built
      exact putBlocks_of_sections (put.putBestBlock ..) applied.columns

end Calls

/-! ### What pruning takes away -/

section Pruning
open HistoryPruning
variable {view : OnDatabase HistoryPruning} {minimal : Nat}

def pruneOps (id : BlockId) : WriteBatch :=
  [⟨⟨.blockTransactions, id⟩, .delete⟩, ⟨⟨.extensions, id⟩, .delete⟩, ⟨⟨.adProofs, id⟩, .delete⟩]

structure Below (sr : SigmaRust) (db : Database) (minimal : Nat) (ids : List BlockId) : Prop where
  named : ∀ id ∈ ids, ∃ height header, height < minimal ∧
    HeaderStore.getByHeight sr db height = .ok (some header) ∧ header.id = id
  all : ∀ height header, genesisHeight ≤ height → height < minimal →
    HeaderStore.getByHeight sr db height = .ok (some header) → db.contains .blockTransactions header.id = true →
    header.id ∈ ids

def PrunedBelow (sr : SigmaRust) (minimal : Nat) (before after : Database) : Prop :=
  ∃ ids, Below sr before minimal ids ∧ ∀ cf, BlockColumn cf → after.columns.column cf =
    (before.columns.column cf).write (batchColumn cf (ids.flatMap pruneOps))

def SameBesideMetadata (before after : Database) : Prop :=
  ∀ cf, .metadata ≠ cf → after.columns.column cf = before.columns.column cf

def PrunedColumns (sr : SigmaRust) (minimal : Nat) (before after : Database) : Prop :=
  ∃ ids, Below sr before minimal ids ∧ ∀ cf, .metadata ≠ cf → after.columns.column cf =
    (before.columns.column cf).write (batchColumn cf (ids.flatMap pruneOps))

theorem pruneHeight_eq_ok {batch next : WriteBatch} (turn : pruneHeight sr db batch height = .ok next) :
    ∃ found, HeaderStore.getByHeight sr db height = .ok found ∧
      next = batch ++ ((found.filter fun header => db.contains .blockTransactions header.id).elim []
        fun header => pruneOps header.id) := by
  rw [pruneHeight, Except.bind_ok_eq_ok] at turn
  obtain ⟨_ | header, there, turn⟩ := turn
  · cases turn
    exact ⟨none, there, (List.append_nil _).symm⟩
  · refine ⟨some header, there, ?_⟩
    dsimp only at turn
    split at turn
    · next held =>
        cases turn
        rw [Option.filter_some, if_pos held]
        simp [WriteBatch.delete, pruneOps]
    · next missing =>
        cases turn
        rw [Option.filter_some, if_neg missing]
        exact (List.append_nil _).symm

theorem below_of_pruneHeights {minimal : Nat} {batch : WriteBatch}
    (built : (List.range' genesisHeight (minimal - genesisHeight)).foldlM (pruneHeight sr db) [] = .ok batch) :
    ∃ ids, batch = ids.flatMap pruneOps ∧ Below sr db minimal ids := by
  have inRange {height : Nat} : height ∈ List.range' genesisHeight (minimal - genesisHeight) ↔
      genesisHeight ≤ height ∧ height < minimal := by
    rw [List.mem_range'_1]
    simp only [genesisHeight]
    omega
  have collected := @foldlM_prefix_invariant _ _ _ (fun done (batch : WriteBatch) => ∃ ids : List BlockId,
    batch = ids.flatMap pruneOps ∧ (∀ id ∈ ids, ∃ height ∈ done, ∃ header,
      HeaderStore.getByHeight sr db height = .ok (some header) ∧ header.id = id) ∧
    ∀ height ∈ done, ∀ header, HeaderStore.getByHeight sr db height = .ok (some header) →
      db.contains .blockTransactions header.id = true → header.id ∈ ids) (pruneHeight sr db) ?_ _ [] _ _
    ⟨[], rfl, nofun, nofun⟩ built
  · obtain ⟨ids, same, named, all⟩ := collected
    refine ⟨ids, same, fun id member => ?_,
      fun height header first below => all height (inRange.mpr ⟨first, below⟩) header⟩
    obtain ⟨height, member, header, found, own⟩ := named id member
    exact ⟨height, header, (inRange.mp member).2, found, own⟩
  · rintro done batch height next ⟨ids, rfl, named, all⟩ turn
    obtain ⟨found, there, rfl⟩ := pruneHeight_eq_ok turn
    have earlier : ∀ id ∈ ids, ∃ other ∈ done ++ [height], ∃ header,
        HeaderStore.getByHeight sr db other = .ok (some header) ∧ header.id = id := fun id member =>
      (named id member).imp fun other found => ⟨List.mem_append_left _ found.1, found.2⟩
    cases held : found.filter fun header => db.contains .blockTransactions header.id with
    | none =>
        refine ⟨ids, List.append_nil _, earlier, List.forall_mem_append.mpr ⟨all, List.forall_mem_singleton.mpr ?_⟩⟩
        intro header here stored
        cases there.symm.trans here
        exact absurd stored (Option.filter_eq_none_iff.mp held header rfl)
    | some header =>
        obtain ⟨rfl, -⟩ := Option.filter_eq_some_iff.mp held
        refine ⟨ids ++ [header.id], by simp, List.forall_mem_append.mpr ⟨earlier, List.forall_mem_singleton.mpr ?_⟩,
          List.forall_mem_append.mpr ⟨fun other member own here stored => ?_, List.forall_mem_singleton.mpr ?_⟩⟩
        · exact ⟨height, List.mem_append_right _ (List.mem_singleton_self _), header, there, rfl⟩
        · exact List.mem_append_left _ (all other member own here stored)
        · intro own here _
          cases there.symm.trans here
          exact List.mem_append_right _ (List.mem_singleton_self _)

theorem batchColumn_pruneOps {cf : ColumnFamily} (ids : List BlockId) (headers : cf = .headers ∨ cf = .headerChain) :
    batchColumn cf (ids.flatMap pruneOps) = [] := by
  rw [batchColumn_flatMap, List.flatMap_eq_nil_iff]
  intro id _
  rcases headers with rfl | rfl <;> simp [pruneOps, batchColumn_cons_of_ne]

theorem batchColumn_pruneTransactions (ids : List BlockId) :
    batchColumn .blockTransactions (ids.flatMap pruneOps) = ids.map fun id => ⟨id, .delete⟩ := by
  rw [batchColumn_flatMap, List.map_eq_flatMap]
  simp [pruneOps, batchColumn_cons_of_ne]

theorem batchColumn_pruneExtensions (ids : List BlockId) :
    batchColumn .extensions (ids.flatMap pruneOps) = ids.map fun id => ⟨id, .delete⟩ := by
  rw [batchColumn_flatMap, List.map_eq_flatMap]
  simp [pruneOps, batchColumn_cons_of_ne]

theorem storedExtension_of_pruned {id : BlockId} (gone : after.get .blockTransactions id = none) :
    storedExtension sr after id = none := by
  have none : BlockStore.getTransactions sr after id = .ok none := by
    rw [BlockStore.getTransactions, gone]
    rfl
  unfold storedExtension History.getFullBlock
  rcases HeaderStore.get sr after id with error | _ | header
  · rfl
  · rfl
  · dsimp only [bind, Except.bind]
    rw [none]
    rfl

theorem getByHeight_congr (headers : after.columns.column .headers = before.columns.column .headers)
    (chain : after.columns.column .headerChain = before.columns.column .headerChain) (height : Nat) :
    HeaderStore.getByHeight sr after height = HeaderStore.getByHeight sr before height := by
  have slot : after.get .headerChain height = before.get .headerChain height := congrFun chain height
  have same (id : BlockId) : after.get .headers id = before.get .headers id := congrFun headers id
  unfold HeaderStore.getByHeight HeaderStore.get
  rw [slot]
  cases before.get .headerChain height with
  | none => rfl
  | some id =>
      dsimp only
      rw [same id]

theorem PrunedColumns.of_same {middle : Database} (pruned : PrunedColumns sr minimal middle after)
    (same : SameBesideMetadata before middle) : PrunedColumns sr minimal before after := by
  obtain ⟨ids, below, column⟩ := pruned
  have read (height : Nat) := @getByHeight_congr sr before middle (same _ (by simp)) (same _ (by simp)) height
  have stored (id : BlockId) : middle.contains .blockTransactions id = before.contains .blockTransactions id :=
    congrArg Option.isSome (congrFun (same .blockTransactions (by simp)) id)
  refine ⟨ids, ⟨fun id member => ?_, fun height header first low found held => ?_⟩, fun cf apart => ?_⟩
  · obtain ⟨height, header, low, found, own⟩ := below.named id member
    exact ⟨height, header, low, (read height).symm.trans found, own⟩
  · exact below.all height header first low ((read height).trans found) ((stored _).trans held)
  · rw [column cf apart, same cf apart]

section Below
variable (pruned : PrunedBelow sr minimal before after)
include pruned

theorem PrunedBelow.headers {cf : ColumnFamily} (headers : cf = .headers ∨ cf = .headerChain) :
    after.columns.column cf = before.columns.column cf := by
  obtain ⟨ids, -, column⟩ := pruned
  have known : BlockColumn cf := by
    rcases headers with rfl | rfl
    · exact .inl rfl
    · exact .inr (.inl rfl)
  rw [column _ known, batchColumn_pruneOps ids headers, Store.write_nil]

theorem Sound.prunedBelow (sound : Sound sr heightOf before) : Sound sr heightOf after where
  index height id slot := by
    have same : after.get .headerChain height = before.get .headerChain height :=
      congrFun (pruned.headers (.inr rfl)) height
    exact sound.index height id (same ▸ slot)
  headers id header found := by
    have same : after.get .headers id = before.get .headers id := congrFun (pruned.headers (.inl rfl)) id
    refine sound.headers id header ?_
    rw [HeaderStore.get, same] at found
    exact found

theorem getByHeight_prunedBelow (height : Nat) :
    HeaderStore.getByHeight sr after height = HeaderStore.getByHeight sr before height :=
  getByHeight_congr (pruned.headers (.inl rfl)) (pruned.headers (.inr rfl)) height

theorem votesAt_prunedBelow (sound : Sound sr heightOf before) {epoch : Nat} (first : genesisHeight ≤ epoch) :
    votesAt sr after epoch = if epoch < minimal then none else votesAt sr before epoch := by
  have chain := getByHeight_prunedBelow pruned epoch
  unfold votesAt
  rw [chain]
  rcases found : HeaderStore.getByHeight sr before epoch with error | _ | header
  · exact (ite_self none).symm
  · exact (ite_self none).symm
  · have headers : after.get .headers header.id = before.get .headers header.id :=
      congrFun (pruned.headers (.inl rfl)) header.id
    obtain ⟨ids, below, column⟩ := pruned
    have transactions := congrFun (column _ (.inr (.inr (.inl rfl)))) header.id
    have extensions := congrFun (column _ (.inr (.inr (.inr rfl)))) header.id
    rw [batchColumn_pruneTransactions, Store.write_deletes] at transactions
    rw [batchColumn_pruneExtensions, Store.write_deletes] at extensions
    obtain ⟨own, -⟩ := sound.getByHeight found
    by_cases member : header.id ∈ ids
    · have low : epoch < minimal := by
        obtain ⟨height, other, low, there, same⟩ := below.named _ member
        obtain ⟨slot, -⟩ := sound.getByHeight there
        rw [same] at slot
        rw [← sound.index epoch _ own, sound.index height _ slot]
        exact low
      rw [if_pos member] at transactions
      have gone := @storedExtension_of_pruned sr after _ transactions
      rw [if_pos low]
      simp [Except.toOption, gone]
    · rw [if_neg member] at transactions extensions
      have same := @storedExtension_congr sr before after header.id headers transactions extensions
      split
      · next low =>
          have unstored : before.get .blockTransactions header.id = none := by
            have missing := mt (below.all epoch header first low found) member
            rwa [Database.contains, Option.isSome_iff_ne_none, not_not] at missing
          have none := @storedExtension_of_pruned sr before _ unstored
          simp [Except.toOption, same, none]
      · simp [Except.toOption, same]

end Below

theorem keeps_columns_markHeadersSynced {cf : ColumnFamily} (apart : .metadata ≠ cf) :
    Op.Keeps (fun view : OnDatabase HistoryPruning => view.db.columns.column cf) markHeadersSynced := by
  have untouched : batchColumn cf (WriteBatch.put [] .metadata .isHeadersChainSynced true) = [] := by
    simp [apart]
  exact Op.keeps_get.bind fun _ => .ite (Op.keeps_pure ()) ((Op.keeps_modify fun _ => rfl).bind fun _ =>
    History.keeps_column_writeBatch untouched)

theorem blockColumn_ne_metadata {cf : ColumnFamily} (known : BlockColumn cf) : .metadata ≠ cf := by
  rintro rfl
  simp [BlockColumn] at known

theorem sameBesideMetadata_markHeadersSynced (same : SameBesideMetadata before view.db) :
    Op.Ends (fun now => SameBesideMetadata before now.db) markHeadersSynced view :=
  fun cf apart => (keeps_columns_markHeadersSynced apart view).trans (same cf apart)

theorem pruneBlocksBelow_columns {result : StateResult Unit} {now : OnDatabase HistoryPruning}
    (ran : (pruneBlocksBelow sr minimal).exec view = (result, now)) :
    match result with
    | .ok _ => PrunedColumns sr minimal view.db now.db
    | .error _ => SameBesideMetadata view.db now.db := by
  rw [pruneBlocksBelow, Op.exec_bind_of_ok (Op.exec_get view)] at ran
  rcases built : (List.range' genesisHeight (minimal - genesisHeight)).foldlM (pruneHeight sr view.db) []
    with error | batch
  · rw [built] at ran
    cases ran
    exact fun _ _ => rfl
  · rw [built] at ran
    obtain ⟨ids, rfl, below⟩ := below_of_pruneHeights built
    change ((if (ids.flatMap pruneOps).isEmpty then pure () else OnDatabase.writeBatch (ids.flatMap pruneOps) :
      Op (OnDatabase HistoryPruning) StateError Unit).exec view) = _ at ran
    split at ran
    · next empty =>
        cases ran
        refine ⟨ids, below, fun cf _ => ?_⟩
        rw [List.isEmpty_iff.mp empty]
        rfl
    · cases fails : Database.writeFails view.db.faults with
      | true =>
          rw [OnDatabase.exec_writeBatch_of_fails fails] at ran
          cases ran
          exact fun _ _ => rfl
      | false =>
          rw [OnDatabase.exec_writeBatch fails] at ran
          cases ran
          exact ⟨ids, below, fun cf _ => Store.column_write ..⟩

/-- Whether the call takes sections away when it goes through. -/
def Rises (pruning : HistoryPruning) (header : Header) : Prop :=
  pruning.newMinimalHeight header > pruning.minimalFullBlockHeight ∧ pruning.isEnabled

theorem updateBestFullBlockPruning_columns {header : Header} {result : StateResult Nat}
    {now : OnDatabase HistoryPruning}
    (ran : (updateBestFullBlockPruning sr header).exec view = (result, now)) :
    (∃ minimal, result = .ok minimal) ∧ Rises view.mem header ∧
        PrunedColumns sr (view.mem.newMinimalHeight header) view.db now.db ∨
      (¬ ((∃ minimal, result = .ok minimal) ∧ Rises view.mem header)) ∧ SameBesideMetadata view.db now.db := by
  rw [updateBestFullBlockPruning, Op.exec_bind_of_ok (Op.exec_get view), Op.exec_bind_of_ok (Op.exec_modify _ _)] at ran
  cases fails : Database.writeFails view.db.faults with
  | true =>
      rw [Op.exec_bind_of_error (OnDatabase.exec_writeBatch_of_fails fails _ _)] at ran
      cases ran
      exact .inr ⟨by simp, fun _ _ => rfl⟩
  | false =>
      rw [Op.exec_bind_of_ok (OnDatabase.exec_writeBatch fails _ _)] at ran
      have same := @sameBesideMetadata_markHeadersSynced view.db
        ⟨⟨view.db.columns.write (WriteBatch.put [] .metadata .minimalFullBlockHeight (view.mem.newMinimalHeight header)),
          view.db.faults.tail⟩, { view.mem with minimalFullBlockHeight := view.mem.newMinimalHeight header }⟩
        fun cf apart => by
          rw [Store.column_write, WriteBatch.column_put_of_ne _ _ apart, batchColumn_nil, Store.write_nil]
      unfold Op.Ends at same
      rcases marked : markHeadersSynced.exec ⟨⟨view.db.columns.write (WriteBatch.put [] .metadata
          .minimalFullBlockHeight (view.mem.newMinimalHeight header)), view.db.faults.tail⟩,
        { view.mem with minimalFullBlockHeight := view.mem.newMinimalHeight header }⟩ with ⟨error | _, synced⟩
      · rw [marked] at same
        rw [Op.exec_bind_of_error marked] at ran
        cases ran
        exact .inr ⟨by simp, same⟩
      · rw [marked] at same
        rw [Op.exec_bind_of_ok marked, Op.exec_ite] at ran
        split at ran
        · next rises =>
            rcases deleted : (pruneBlocksBelow sr (view.mem.newMinimalHeight header)).exec synced with ⟨error | _, last⟩
            · have columns := pruneBlocksBelow_columns deleted
              rw [Op.exec_bind_of_error deleted] at ran
              cases ran
              exact .inr ⟨by simp, fun cf apart => (columns cf apart).trans (same cf apart)⟩
            · have columns := pruneBlocksBelow_columns deleted
              rw [Op.exec_bind_of_ok deleted] at ran
              cases ran
              exact .inl ⟨⟨_, rfl⟩, rises, columns.of_same same⟩
        · next stays =>
            cases ran
            exact .inr ⟨fun rises => stays rises.2, same⟩

theorem updateBestFullBlockPruning_sections {header : Header} {result : StateResult Nat}
    {now : OnDatabase HistoryPruning}
    (ran : (updateBestFullBlockPruning sr header).exec view = (result, now)) :
    (∃ minimal, result = .ok minimal) ∧ Rises view.mem header ∧
        PrunedBelow sr (view.mem.newMinimalHeight header) view.db now.db ∨
      (¬ ((∃ minimal, result = .ok minimal) ∧ Rises view.mem header)) ∧ SameSections view.db now.db := by
  rcases updateBestFullBlockPruning_columns ran with ⟨done, rises, ids, below, column⟩ | ⟨stays, same⟩
  · exact .inl ⟨done, rises, ids, below, fun cf known => column cf (blockColumn_ne_metadata known)⟩
  · exact .inr ⟨stays, fun cf known => same cf (blockColumn_ne_metadata known)⟩

end Pruning

end ErgoNode.Proof.Manager
