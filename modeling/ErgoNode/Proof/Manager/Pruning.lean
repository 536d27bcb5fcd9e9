import ErgoNode.Proof.History.Locator
import ErgoNode.Proof.Manager.Votes
import ErgoNode.Proof.Sync.Stored

/-!
# What an update prunes

The minimal height follows the window of the last blocks, down to the beginning of a voting epoch. The window
is one block less than the number of blocks to keep, which underflows where no block is to be kept. An update
takes the bodies of the blocks below the new minimal height away, and touches nothing else of a block.
-/

namespace ErgoNode.Proof.Manager
open Lib HistoryPruning
open ErgoNode.Proof.History
open ErgoNode.Proof.Sync (BodyColumn keeps_column_appendHeadersBatched)

/-! ### The minimal height -/

section Heights
variable {pruning : HistoryPruning} {header : Header} {h low : Nat}

/-- The heights that pruning may stop at. -/
def Aligned (h : Nat) : Prop := h ≤ votingEpochLength ∨ votingEpochLength ∣ h

def epochStart (h : Nat) : Nat := if h > votingEpochLength then h - h % votingEpochLength else h

theorem epochStart_le (h : Nat) : epochStart h ≤ h := by
  unfold epochStart
  split
  · exact Nat.sub_le ..
  · exact Nat.le_refl h

theorem aligned_epochStart (h : Nat) : Aligned (epochStart h) := by
  unfold epochStart Aligned
  split
  · exact .inr (Nat.dvd_sub_mod h)
  · next small => exact .inl (Nat.not_lt.mp small)

theorem le_epochStart (aligned : Aligned low) (le : low ≤ h) : low ≤ epochStart h := by
  unfold epochStart Aligned votingEpochLength at *
  split
  · omega
  · exact le

theorem min_extensionWithParametersHeight (h : Nat) :
    (if h > votingEpochLength then min h (extensionWithParametersHeight h) else h) = epochStart h := by
  unfold epochStart extensionWithParametersHeight
  split
  · next high =>
      rw [if_neg (by omega)]
      exact Nat.min_eq_right (Nat.sub_le ..)
  · rfl

theorem newMinimalHeight_eq (keeps : 0 < pruning.blocksToKeep) (fits : pruning.blocksToKeep < 2 ^ 31) :
    pruning.newMinimalHeight header =
      epochStart (max pruning.minimalFullBlockHeight (header.height - (pruning.blocksToKeep.toNat - 1))) := by
  have enabled : pruning.isEnabled = true := decide_eq_true (Int.le_of_lt keeps)
  have back : (pruning.blocksToKeep.toNat + (2 ^ 32 - 1)) % 2 ^ 32 = pruning.blocksToKeep.toNat - 1 := by omega
  rw [newMinimalHeight, if_pos enabled, back]
  exact min_extensionWithParametersHeight _

theorem checkedExtensionHeight_exact (h : Nat) : (checkedExtensionHeight h).overflowed = false := by
  unfold checkedExtensionHeight
  split
  · rfl
  · exact decide_eq_false (Nat.not_lt.mpr (Nat.mod_le ..))

theorem checkedMinimalHeight_exact_iff (enabled : 0 ≤ pruning.blocksToKeep) :
    (pruning.checkedMinimalHeight header).overflowed = false ↔ 0 < pruning.blocksToKeep := by
  have on : pruning.isEnabled = true := decide_eq_true enabled
  have rest (h : Nat) : (if h > votingEpochLength then do return min h (← checkedExtensionHeight h) else return h :
      Overflowing Nat).overflowed = false := by
    split
    · rw [Overflowing.overflowed_bind, checkedExtensionHeight_exact]
      rfl
    · rfl
  rw [checkedMinimalHeight, if_pos on, Overflowing.overflowed_bind]
  dsimp only
  rw [rest, Bool.or_false, Overflowing.sub, decide_eq_false_iff_not]
  omega

end Heights

/-! ### Bodies -/

structure BlockBody where
  transactions : Option Bytes
  extension : Option Bytes
  adProofs : Option Bytes
  deriving DecidableEq

def BlockBody.absent : BlockBody := ⟨none, none, none⟩

def bodyOf (db : Database) (id : BlockId) : BlockBody :=
  ⟨db.get .blockTransactions id, db.get .extensions id, db.get .adProofs id⟩

def NamesItself (block : FullBlock) : Prop :=
  block.extension.headerId = block.id ∧ ∀ proofs ∈ block.adProofs, proofs.headerId = block.id

instance (block : FullBlock) : Decidable (NamesItself block) := inferInstanceAs (Decidable (_ ∧ _))

section Bodies
variable {sr : SigmaRust} {before after : Database} {id : BlockId} {block : FullBlock} {st : State}

theorem bodyOf_eq {db : Database} {body : BlockBody}
    (transactions : db.columns.column .blockTransactions id = body.transactions)
    (extension : db.columns.column .extensions id = body.extension)
    (adProofs : db.columns.column .adProofs id = body.adProofs) : bodyOf db id = body := by
  obtain ⟨_, _, _⟩ := body
  exact congr (congr (congrArg BlockBody.mk transactions) extension) adProofs

theorem bodyOf_congr (same : ∀ cf, BodyColumn cf → after.columns.column cf = before.columns.column cf) (id : BlockId) :
    bodyOf after id = bodyOf before id :=
  bodyOf_eq (congrFun (same .blockTransactions (by decide)) id) (congrFun (same .extensions (by decide)) id)
    (congrFun (same .adProofs (by decide)) id)

theorem batchColumn_pruneProofs (ids : List BlockId) :
    batchColumn .adProofs (ids.flatMap pruneOps) = ids.map fun id => ⟨id, .delete⟩ := by
  rw [batchColumn_flatMap, List.map_eq_flatMap]
  simp [pruneOps, batchColumn_cons_of_ne]

theorem bodyOf_prune {ids : List BlockId} (column : ∀ cf, .metadata ≠ cf → after.columns.column cf =
      (before.columns.column cf).write (batchColumn cf (ids.flatMap pruneOps))) (id : BlockId) :
    bodyOf after id = if id ∈ ids then .absent else bodyOf before id := by
  have transactions := congrFun (column .blockTransactions (by decide)) id
  have extension := congrFun (column .extensions (by decide)) id
  have proofs := congrFun (column .adProofs (by decide)) id
  rw [batchColumn_pruneTransactions, Store.write_deletes] at transactions
  rw [batchColumn_pruneExtensions, Store.write_deletes] at extension
  rw [batchColumn_pruneProofs, Store.write_deletes] at proofs
  split at transactions
  · next member =>
      rw [if_pos member] at extension proofs ⊢
      exact bodyOf_eq transactions extension proofs
  · next other =>
      rw [if_neg other] at extension proofs ⊢
      exact bodyOf_eq transactions extension proofs

theorem keeps_column_appendHeaderInternal {cf : ColumnFamily} (body : BodyColumn cf) (header : Header)
    (rawBytes : Option Bytes) :
    Op.Keeps (fun view => view.db.columns.column cf) (History.appendHeaderInternal sr header rawBytes) := by
  obtain ⟨headers, chain, cumulative, metadata⟩ := body
  refine Op.keeps_get.bind fun _ => .ite (Op.keeps_pure _) (.ite (Op.keeps_throw _)
    (Op.Keeps.ofExcept_bind fun batch encoded => ?_))
  obtain ⟨raw, rfl⟩ := headerBatch_eq_ok encoded
  refine (keeps_column_writeBatch ?_).bind fun _ => keeps_column_selectChain metadata ?_ _ _ _
  · simp [HeaderStore.putWithBytesBatched, headers, chain]
  · simp [History.storeCumulativeDifficulty, cumulative]

theorem headerCall_bodies (st : State) (call : HeaderCall) (id : BlockId) :
    bodyOf ((call.exec sr).exec st).2.db id = bodyOf st.db id := by
  refine bodyOf_congr (fun cf body => ?_) id
  cases call with
  | appendHeader header => exact keeps_column_appendHeaderInternal body header none st
  | appendHeaderWithBytes header rawBytes => exact keeps_column_appendHeaderInternal body header (some rawBytes) st
  | appendHeadersBatched headers => exact keeps_column_appendHeadersBatched body headers st

theorem headerCall_fullBlock (st : State) (call : HeaderCall) :
    fullBlock ((call.exec sr).exec st).2.mem = fullBlock st.mem := by
  cases call with
  | appendHeader header => exact keeps_appendHeaderInternal header none st
  | appendHeaderWithBytes header rawBytes => exact keeps_appendHeaderInternal header (some rawBytes) st
  | appendHeadersBatched headers => exact keeps_appendHeadersBatched headers st

structure PutsBody (sr : SigmaRust) (block : FullBlock) (before after : State) : Prop where
  encoded : ∃ bytes, sr.headerBytes block.header = .ok bytes
  others : ∀ id, id ≠ block.id → bodyOf after.db id = bodyOf before.db id
  own : (bodyOf after.db block.id).transactions ≠ none
  header : stored after.db.columns block.id
  slot : slot after.db.columns block.height = some block.id
  best : after.mem.bestFullBlockHeight = block.height

theorem bodyOf_written {before after : Database} (names : NamesItself block) {headerBytes txs : Bytes}
    {cumulative : Nat} (column : ∀ cf, .metadata ≠ cf → after.columns.column cf =
      (before.columns.column cf).write (batchColumn cf (blockOps block headerBytes txs cumulative))) :
    (∀ id, id ≠ block.id → bodyOf after id = bodyOf before id) ∧ (bodyOf after block.id).transactions ≠ none := by
  have transactions := column .blockTransactions (by decide)
  have extensions := column .extensions (by decide)
  have adProofs := column .adProofs (by decide)
  rw [blockOps_blocks] at transactions
  rw [blockOps_extensions, names.1] at extensions
  rw [blockOps_adProofs] at adProofs
  constructor
  · intro id other
    have noProofs : ∀ op ∈ block.adProofs.toList.map fun proofs =>
        (⟨proofs.headerId, .put proofs.proofBytes⟩ : BatchOperation fun k => Address.Value ⟨.adProofs, k⟩),
        op.address ≠ id := by
      intro op member
      obtain ⟨proofs, given, rfl⟩ := List.mem_map.mp member
      rw [names.2 proofs (Option.mem_toList.mp given)]
      exact other.symm
    refine bodyOf_eq ?_ ?_ ?_
    · rw [transactions]
      exact Function.update_of_ne other ..
    · rw [extensions]
      exact Function.update_of_ne other ..
    · rw [adProofs]
      exact Store.write_of_forall_ne _ noProofs
  · have here := congrFun transactions block.id
    rw [Store.write_cons, Store.write_nil, Store.apply, Function.update_self] at here
    intro gone
    cases here.symm.trans gone

theorem appendFullBlock_body (names : NamesItself block) (higher : st.mem.bestFullBlockHeight < block.height) :
    Unchanged st ((History.appendFullBlock sr block).exec st).2 ∨
      PutsBody sr block st ((History.appendFullBlock sr block).exec st).2 := by
  rcases ran : (History.appendFullBlock sr block).exec st with ⟨error | selection, after⟩
  · exact .inl (appendFullBlock_eq_error ran)
  · obtain ⟨batch, cumulative, built, columns, mem⟩ := appendFullBlock_eq_ok ran
    obtain ⟨headerBytes, txs, encoded, -, -, rfl⟩ := addBlockToBatch_eq_ok.mp built
    rw [List.nil_append] at columns
    obtain ⟨others, own⟩ := @bodyOf_written _ st.db after.db names headerBytes txs cumulative fun cf apart => by
      rw [columns, Store.column_write, putBestBlock_column apart]
    have writes := block_writes block st.db.columns st.mem headerBytes txs cumulative
    rw [← columns] at writes
    refine .inr ⟨⟨_, encoded⟩, others, own, ?_, ?_, ?_⟩
    · exact (stored_after writes _).mpr (.inr (List.mem_singleton_self _))
    · rw [slot, writes.chain]
      exact Function.update_self ..
    · have best := congrArg Prod.snd (fullBlock_withBestBlock st.mem block.id block.height cumulative)
      rw [if_pos higher] at best
      rw [mem]
      exact best

end Bodies

/-! ### One update -/

section Update
variable {sr : SigmaRust} {view : OnDatabase HistoryPruning} {header : Header}

theorem updateBestFullBlockPruning_mem (sr : SigmaRust) (view : OnDatabase HistoryPruning) (header : Header) :
    let after := ((updateBestFullBlockPruning sr header).exec view).2.mem
    after.minimalFullBlockHeight = view.mem.newMinimalHeight header ∧ after.blocksToKeep = view.mem.blocksToKeep := by
  intro after
  let heights (view : OnDatabase HistoryPruning) := (view.mem.minimalFullBlockHeight, view.mem.blocksToKeep)
  have writes (batch : WriteBatch) : Op.Keeps heights (OnDatabase.writeBatch batch : Op _ StateError Unit) :=
    fun _ => rfl
  have marks : Op.Keeps heights markHeadersSynced := Op.keeps_get.bind fun _ =>
    .ite (Op.keeps_pure ()) (Op.Keeps.bind (fun _ => rfl) fun _ =>
      writes (WriteBatch.put [] .metadata .isHeadersChainSynced true))
  have prunes (minimal : Nat) : Op.Keeps heights (pruneBlocksBelow sr minimal) := Op.keeps_get.bind fun _ =>
    (Op.keeps_ofExcept _).bind fun _ => .ite (Op.keeps_pure ()) (writes _)
  have kept : heights ((updateBestFullBlockPruning sr header).exec view).2 =
      (view.mem.newMinimalHeight header, view.mem.blocksToKeep) := by
    rw [updateBestFullBlockPruning, Op.exec_bind_of_ok (Op.exec_get view), Op.exec_bind_of_ok (Op.exec_modify _ _)]
    exact ((writes _).bind fun _ => marks.bind fun _ =>
      .ite ((prunes _).bind fun _ => Op.keeps_pure _) (Op.keeps_pure _)) _
  exact Prod.mk.inj kept

/-- No write fails, and every slot of the height index can be read. -/
def Serviceable (sr : SigmaRust) (db : Database) : Prop :=
  db.faults = [] ∧ ∀ h, ∃ found, HeaderStore.getByHeight sr db h = .ok found

theorem finishes_writeBatch {batch : WriteBatch} (serviceable : Serviceable sr view.db)
    (untouched : batchColumn .headers batch = [] ∧ batchColumn .headerChain batch = []) :
    Op.Finishes (fun now => Serviceable sr now.db) (OnDatabase.writeBatch batch : Op _ StateError Unit) view := by
  obtain ⟨⟨columns, faults⟩, mem⟩ := view
  obtain ⟨rfl, reads⟩ := serviceable
  refine ⟨(), _, OnDatabase.exec_writeBatch rfl mem batch, rfl, fun h => ?_⟩
  refine (reads h).imp fun found read => (getByHeight_congr ?_ ?_ h).trans read
  · rw [Store.column_write, untouched.1, Store.write_nil]
  · rw [Store.column_write, untouched.2, Store.write_nil]

theorem finishes_markHeadersSynced (serviceable : Serviceable sr view.db) :
    Op.Finishes (fun now => Serviceable sr now.db) markHeadersSynced view := by
  refine Op.Finishes.get_bind (.ite (Op.finishes_pure () serviceable) (Op.Finishes.modify_bind ?_))
  exact finishes_writeBatch serviceable ⟨by simp, by simp⟩

theorem finishes_pruneBlocksBelow (serviceable : Serviceable sr view.db) (minimal : Nat) :
    Op.Finishes (fun now => Serviceable sr now.db) (pruneBlocksBelow sr minimal) view := by
  refine Op.Finishes.get_bind ?_
  rcases built : (List.range' genesisHeight (minimal - genesisHeight)).foldlM (pruneHeight sr view.db) [] with
    error | batch
  · obtain ⟨-, h, -, batch, -, -, failed⟩ := exists_of_foldlM_eq_error built
    obtain ⟨found, read⟩ := serviceable.2 h
    rw [pruneHeight, read] at failed
    cases found with
    | none => cases failed
    | some header =>
        dsimp only [bind, Except.bind] at failed
        split at failed <;> cases failed
  · obtain ⟨ids, rfl, -⟩ := below_of_pruneHeights built
    refine Op.Finishes.ok_bind (.ite (Op.finishes_pure () serviceable) ?_)
    exact finishes_writeBatch serviceable ⟨batchColumn_pruneOps ids (.inl rfl), batchColumn_pruneOps ids (.inr rfl)⟩

theorem finishes_updateBestFullBlockPruning (serviceable : Serviceable sr view.db) (header : Header) :
    Op.Finishes (fun now => Serviceable sr now.db) (updateBestFullBlockPruning sr header) view := by
  refine Op.Finishes.get_bind (Op.Finishes.modify_bind ?_)
  refine Op.Finishes.bind (finishes_writeBatch serviceable ⟨by simp, by simp⟩) fun _ now here => ?_
  refine Op.Finishes.bind (finishes_markHeadersSynced here) fun _ now here => ?_
  refine .ite ?_ (Op.finishes_pure _ here)
  exact (finishes_pruneBlocksBelow here _).bind fun _ now here => Op.finishes_pure _ here

end Update

end ErgoNode.Proof.Manager
