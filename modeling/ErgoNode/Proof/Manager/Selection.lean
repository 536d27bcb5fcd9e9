import ErgoNode.Proof.History.Selection
import ErgoNode.Proof.Manager.Calls
import ErgoNode.Proof.Manager.Runs

/-!
# Selection results over runs

Over any run of the manager, failing calls included, the stored headers are read back and have their
parents, as long as the headers that come in are read back and blocks come after their parents. So in
every state that is reached the result for a new best header is right exactly where the height index
shows its last common ancestor with the old one.
-/

namespace ErgoNode.Proof.Manager
open Lib StateManager
open ErgoNode.Proof.History (HeaderTree Added Appended Rooted Widened Writable ReadsAs SelectsRight IndexShowsFork
  bestPlace HeaderColumn appendHeaderInternal_cases exec_appendHeaderInternal appended_headerAppended
  widened_headerAppended widened_of_writes headerWritten headerAppended appendHeadersBatched_appended
  final_stored appendFullBlock_eq_ok appendFullBlock_eq_error addBlockToBatch_eq_ok blockOps block_writes
  rooted_empty selectsRight_iff contains_iff stored_after)

def managerStep (sr : SigmaRust) (st : StateManager) (call : Call) : Option StateManager :=
  some ((call.exec sr).exec st).2

namespace Call

def items : Call → List (Header × Option Bytes)
  | appendHeader header => [(header, none)]
  | appendHeaderWithBytes header rawBytes => [(header, some rawBytes)]
  | appendHeadersBatched headers => headers.map fun item => (item.1, some item.2)
  | applyBlock block _ => [(block.header, none)]
  | applyBlocksBatched blocks => blocks.map fun item => (item.1.header, none)
  | rollbackTo _ => []

end Call

def storedBytes (sr : SigmaRust) (item : Header × Option Bytes) : Except String Bytes :=
  match item.2 with
  | some rawBytes => .ok rawBytes
  | none => sr.headerBytes item.1

def ReadBack (sr : SigmaRust) (item : Header × Option Bytes) : Prop :=
  ∀ bytes, storedBytes sr item = .ok bytes → ReadsAs sr bytes item.1

instance (sr : SigmaRust) (item : Header × Option Bytes) : Decidable (ReadBack sr item) :=
  match encoded : storedBytes sr item with
  | .ok bytes => decidable_of_iff (ReadsAs sr bytes item.1) (by simp [ReadBack, encoded])
  | .error _ => .isTrue fun _ same => by simp [encoded] at same

/-- The headers of the call are in the tree and are read back, and the parents of its blocks are there. -/
structure ReadableCall (tree : HeaderTree) (sr : SigmaRust) (st : StateManager) (call : Call) : Prop where
  known : ∀ item ∈ call.items, tree.header item.1.id = item.1
  positive : ∀ item ∈ call.items, 0 < item.1.height
  reads : ∀ item ∈ call.items, ReadBack sr item
  parents : ∀ block ∈ call.blocks, 2 < block.height →
    HeaderStore.contains st.db block.header.parentId = true ∨ block.header.parentId ∈ call.blocks.map FullBlock.id

instance (tree : HeaderTree) (sr : SigmaRust) (st : StateManager) (call : Call) :
    Decidable (ReadableCall tree sr st call) :=
  decidable_of_iff ((∀ item ∈ call.items, tree.header item.1.id = item.1) ∧ (∀ item ∈ call.items, 0 < item.1.height) ∧
      (∀ item ∈ call.items, ReadBack sr item) ∧ ∀ block ∈ call.blocks, 2 < block.height →
        HeaderStore.contains st.db block.header.parentId = true ∨
          block.header.parentId ∈ call.blocks.map FullBlock.id)
    ⟨fun ⟨known, positive, reads, parents⟩ => ⟨known, positive, reads, parents⟩,
      fun readable => ⟨readable.known, readable.positive, readable.reads, readable.parents⟩⟩

section Step
variable {tree : HeaderTree} {sr : SigmaRust} {st after : StateManager} {call : Call}
variable {view viewAfter : OnDatabase ErgoNode.History} {header : Header} {rawBytes : Option Bytes}

theorem headerBatch_stored {raw : Bytes}
    (encoded : History.headerBatch sr header rawBytes = .ok (HeaderStore.putWithBytesBatched [] header raw)) :
    storedBytes sr (header, rawBytes) = .ok raw := by
  have same {bytes : Bytes} (equal : HeaderStore.putWithBytesBatched [] header bytes =
      HeaderStore.putWithBytesBatched [] header raw) : bytes = raw := by
    have column := congrArg (batchColumn .headers) equal
    simpa [HeaderStore.putWithBytesBatched] using column
  cases rawBytes with
  | some bytes => exact congrArg Except.ok (same (Except.ok.inj encoded))
  | none =>
      simp only [History.headerBatch, HeaderStore.putBatched, Except.bind_ok_eq_ok, Except.mapError_ok_iff,
        Except.pure_eq_ok] at encoded
      obtain ⟨bytes, found, equal⟩ := encoded
      exact found.trans (congrArg Except.ok (same equal))

theorem rooted_unchanged (rooted : Rooted tree sr view) (columns : viewAfter.db.columns = view.db.columns)
    (mem : viewAfter.mem = view.mem) : Rooted tree sr viewAfter :=
  rooted.of_columns (by rw [columns]) (by rw [columns]) (congrArg bestPlace mem)

theorem rooted_appendHeaderInternal (rooted : Rooted tree sr view) (known : tree.header header.id = header)
    (positive : 0 < header.height)
    (reads : ReadBack sr (header, rawBytes)) :
    Rooted tree sr ((History.appendHeaderInternal sr header rawBytes).exec view).2 := by
  rcases appendHeaderInternal_cases sr view header rawBytes with
    ⟨columns, mem⟩ | ⟨raw, encoded, unstored, parent, works, half⟩
  · exact rooted_unchanged rooted columns mem
  · have writable : ∀ item ∈ [(header, raw)], Writable tree sr view ([(header, raw)].map (·.1.id)) item := by
      intro item member
      obtain rfl := List.mem_singleton.mp member
      exact ⟨known, positive, reads raw (headerBatch_stored encoded),
        fun high => .inl ((contains_iff _ _).mp (parent high))⟩
    rcases fails : Database.writeFails view.db.faults.tail with _ | _
    · rw [exec_appendHeaderInternal works fails unstored parent encoded]
      exact (widened_headerAppended known raw).rooted rooted writable
    · -- the header without its cumulative difficulty
      obtain ⟨columns, mem⟩ := half fails
      have place : bestPlace ((History.appendHeaderInternal sr header rawBytes).exec view).2.mem =
          bestPlace view.mem := congrArg bestPlace mem
      refine Widened.rooted ⟨?_, ?_, .inl place⟩ rooted writable
      · rw [columns, headerWritten, Store.column_write]
        simp [HeaderStore.putWithBytesBatched, puts]
      · rw [columns, headerWritten, Store.column_write]
        simp [HeaderStore.putWithBytesBatched, puts]

theorem rooted_appendHeadersBatched (rooted : Rooted tree sr view) {items : List (Header × Bytes)}
    (known : ∀ item ∈ items, tree.header item.1.id = item.1) (positive : ∀ item ∈ items, 0 < item.1.height)
    (reads : ∀ item ∈ items, ReadsAs sr item.2 item.1) :
    Rooted tree sr ((History.appendHeadersBatched sr items).exec view).2 := by
  rcases @appendHeadersBatched_appended sr view items with
    ⟨⟨columns, mem⟩, -⟩ | ⟨first, rest, added, rfl, batched, appended⟩
  · exact rooted_unchanged rooted columns mem
  · have widened : Widened tree view ((History.appendHeadersBatched sr (first :: rest)).exec view).2
        (added.map fun a => (a.header, a.rawBytes)) := by
      refine widened_of_writes appended.writes ?_
      obtain ⟨final, member, here, sameId, sameHeight⟩ := final_stored batched appended.writes
      obtain ⟨item, inItems, rfl⟩ := List.mem_map.mp member
      rw [appended.best, sameId, sameHeight]
      split
      · exact .inr ⟨item.1, known item inItems, here, rfl⟩
      · exact .inl rfl
    refine widened.rooted rooted fun item member => ?_
    obtain ⟨a, inAdded, rfl⟩ := List.mem_map.mp member
    have inItems : (a.header, a.rawBytes) ∈ first :: rest := by
      have fresh : (a.header, a.rawBytes) ∈ (first :: rest).filter fun item =>
          !HeaderStore.contains view.db item.1.id := by
        rw [← batched.fresh]
        exact member
      exact (List.mem_filter.mp fresh).1
    refine ⟨known _ inItems, positive _ inItems, reads _ inItems, fun high => ?_⟩
    obtain ⟨before, later, rfl⟩ := List.append_of_mem inAdded
    rcases (batched.step before a ⟨later, by simp⟩).1 high with inBatch | inStore
    · right
      obtain ⟨b, inBefore, same⟩ := List.mem_map.mp inBatch
      rw [List.map_map]
      exact List.mem_map.mpr ⟨b, List.mem_append_left _ inBefore, same⟩
    · exact .inl ((contains_iff _ _).mp inStore)

theorem rooted_blocks (rooted : Rooted tree sr view) {blocks : List FullBlock} {added : List Added}
    (headers : added.map (·.header) = blocks.map (·.header))
    (encoded : ∀ a ∈ added, sr.headerBytes a.header = .ok a.rawBytes)
    (writes : History.Writes view.db.columns viewAfter.db.columns added) {last : FullBlock} (inBlocks : last ∈ blocks)
    {cumulative : Nat} (mem : viewAfter.mem = view.mem.withBestBlock last.id last.height cumulative)
    (known : ∀ block ∈ blocks, tree.header block.id = block.header) (positive : ∀ block ∈ blocks, 0 < block.height)
    (reads : ∀ block ∈ blocks, ReadBack sr (block.header, none))
    (parents : ∀ block ∈ blocks, 2 < block.height →
      HeaderStore.contains view.db block.header.parentId = true ∨ block.header.parentId ∈ blocks.map FullBlock.id) :
    Rooted tree sr viewAfter := by
  have idsSame : History.ids added = blocks.map FullBlock.id := by
    have := congrArg (List.map Header.id) headers
    rwa [List.map_map, List.map_map] at this
  have widened : Widened tree view viewAfter (added.map fun a => (a.header, a.rawBytes)) := by
    refine widened_of_writes writes ?_
    rw [mem]
    dsimp only [History.withBestBlock]
    by_cases heavier : cumulative > view.mem.bestCumulativeDifficulty
    · refine .inr ⟨last.header, known last inBlocks, (stored_after writes _).mpr (.inr ?_), ?_⟩
      · rw [idsSame]
        exact List.mem_map_of_mem inBlocks
      · rw [if_pos heavier]
        exact apply_ite bestPlace _ _ _ |>.trans (ite_self _)
    · left
      rw [if_neg heavier]
      exact apply_ite bestPlace _ _ _ |>.trans (ite_self _)
  refine widened.rooted rooted fun item member => ?_
  obtain ⟨a, inAdded, rfl⟩ := List.mem_map.mp member
  obtain ⟨block, inBlocks, same⟩ := List.mem_map.mp (headers ▸ List.mem_map_of_mem inAdded)
  have bytes := encoded a inAdded
  rw [← same] at bytes ⊢
  refine ⟨known block inBlocks, positive block inBlocks, reads block inBlocks _ bytes, fun high => ?_⟩
  rw [List.map_map]
  have idsListed : List.map ((fun x : Header × Bytes => x.1.id) ∘ fun a : Added => (a.header, a.rawBytes)) added =
      blocks.map FullBlock.id := idsSame
  rw [idsListed]
  exact (parents block inBlocks high).imp_left fun here => (contains_iff _ _).mp here

theorem rooted_appendFullBlock (rooted : Rooted tree sr view) {block : FullBlock}
    (known : tree.header block.id = block.header) (positive : 0 < block.height)
    (reads : ReadBack sr (block.header, none))
    (parent : 2 < block.height →
      HeaderStore.contains view.db block.header.parentId = true ∨ block.header.parentId ∈ [block].map FullBlock.id) :
    Rooted tree sr ((History.appendFullBlock sr block).exec view).2 := by
  rcases ran : (History.appendFullBlock sr block).exec view with ⟨error | selection, final⟩
  · obtain ⟨columns, mem⟩ := appendFullBlock_eq_error ran
    exact rooted_unchanged rooted columns mem
  · obtain ⟨batch, cumulative, built, columns, mem⟩ := appendFullBlock_eq_ok ran
    obtain ⟨headerBytes, txs, encoded, -, -, rfl⟩ := addBlockToBatch_eq_ok.mp built
    have writes := block_writes block view.db.columns view.mem headerBytes txs cumulative
    rw [← List.nil_append (blockOps block headerBytes txs cumulative), ← columns] at writes
    have inBlocks : block ∈ [block] := List.mem_singleton_self block
    exact rooted_blocks rooted rfl (by simpa using encoded) writes inBlocks mem (by simpa using known)
      (by simpa using positive) (by simpa using reads) (by simpa using parent)

theorem rooted_applyBlocksBatched (rooted : Rooted tree sr st.historyView)
    {blocks : List (FullBlock × StateChange)} (readable : ReadableCall tree sr st (.applyBlocksBatched blocks)) :
    Rooted tree sr ((applyBlocksBatched sr blocks).exec st).2.historyView := by
  obtain ⟨known, positive, reads, parents⟩ := readable
  simp only [Call.items, List.forall_mem_map, Call.blocks] at known positive reads parents
  rcases ran : (applyBlocksBatched sr blocks).exec st with ⟨error | selection, final⟩
  · obtain ⟨columns, history, -⟩ := applyBlocksBatched_eq_error ran
    exact rooted_unchanged rooted columns history
  · cases blocks with
    | nil =>
        cases ran
        exact rooted
    | cons first rest =>
        obtain ⟨added, blocks, writes, history⟩ := applyBlocksBatched_added ran
        have inBlocks : (rest.getLastD first).1 ∈ (first :: rest).map Prod.fst :=
          List.mem_map_of_mem List.getLastD_mem_cons
        have after : Rooted tree sr final.historyView :=
          rooted_blocks rooted blocks.headers blocks.encoded writes inBlocks history
            (List.forall_mem_map.mpr known) (List.forall_mem_map.mpr positive) (List.forall_mem_map.mpr reads)
            (List.forall_mem_map.mpr parents)
        exact after

theorem rooted_call (rooted : Rooted tree sr st.historyView) (readable : ReadableCall tree sr st call) :
    Rooted tree sr ((call.exec sr).exec st).2.historyView := by
  cases call with
  | appendHeader header =>
      obtain ⟨known, positive, reads, -⟩ := readable
      rw [Call.exec, Op.exec_discard]
      exact rooted_appendHeaderInternal rooted (known _ (List.mem_singleton_self _))
        (positive _ (List.mem_singleton_self _)) (reads _ (List.mem_singleton_self _))
  | appendHeaderWithBytes header rawBytes =>
      obtain ⟨known, positive, reads, -⟩ := readable
      rw [Call.exec, Op.exec_discard]
      exact rooted_appendHeaderInternal rooted (known _ (List.mem_singleton_self _))
        (positive _ (List.mem_singleton_self _)) (reads _ (List.mem_singleton_self _))
  | appendHeadersBatched headers =>
      obtain ⟨known, positive, reads, -⟩ := readable
      simp only [Call.items, List.forall_mem_map] at known positive reads
      rw [Call.exec, Op.exec_discard]
      exact rooted_appendHeadersBatched rooted known positive fun item member => reads item member item.2 rfl
  | applyBlock block change =>
      obtain ⟨known, positive, reads, parents⟩ := readable
      rw [Call.exec, Op.exec_discard]
      rcases applyBlock_history sr st block change with same | ⟨-, rest⟩
      · rw [same]
        exact rooted
      · have appended := rooted_appendFullBlock rooted (known _ (List.mem_singleton_self _))
          (positive _ (List.mem_singleton_self _)) (reads _ (List.mem_singleton_self _))
          (parents _ (List.mem_singleton_self _))
        have headers := @rest .headers (headerColumn_ne (.inl rfl))
        have chain := @rest .headerChain (headerColumn_ne (.inr (.inl rfl)))
        exact appended.of_columns headers.1 chain.1 (congrArg bestPlace headers.2)
  | applyBlocksBatched blocks =>
      rw [Call.exec, Op.exec_discard]
      exact rooted_applyBlocksBatched rooted readable
  | rollbackTo height =>
      have headers := Prod.mk.inj (@keeps_rollbackTo sr .headers (headerColumn_ne (.inl rfl)) height st)
      have chain := Prod.mk.inj (@keeps_rollbackTo sr .headerChain (headerColumn_ne (.inr (.inl rfl))) height st)
      exact rooted.of_columns headers.1 chain.1 (congrArg bestPlace headers.2)

end Step

structure BecomesBest (tree : HeaderTree) (sr : SigmaRust) (st : StateManager) (old : BlockId) (header : Header)
    (rawBytes : Option Bytes) : Prop where
  known : tree.header header.id = header
  positive : 0 < header.height
  reads : ReadBack sr (header, rawBytes)
  oldBest : st.history.bestHeaderId = some old
  other : old ≠ header.id
  newBest : ((History.appendHeaderInternal sr header rawBytes).exec st.historyView).2.mem.bestHeaderId =
    some header.id

/-- In every state that a run reaches, the result for a header that becomes the best one is right exactly
where the height index shows its last common ancestor with the old one. -/
theorem selectsRight_reachable (tree : HeaderTree) (sr : SigmaRust) (faults : List Bool)
    (mode : StateRootVerification) {calls : List Call}
    (readable : Along (managerStep sr) (ReadableCall tree sr) (emptyNode faults mode).manager calls) :
    Always (managerStep sr) (fun st => ∀ old header rawBytes, BecomesBest tree sr st old header rawBytes →
        (SelectsRight tree st.historyView old header
            ((History.appendHeaderInternal sr header rawBytes).exec st.historyView).1 ↔
          IndexShowsFork tree st.historyView old header))
      (emptyNode faults mode).manager calls := by
  intro st visited old header rawBytes becomes
  have rooted : Rooted tree sr st.historyView :=
    readable.invariant (fun st => Rooted tree sr st.historyView)
      (fun {_ _ _} rooted call taken => by
        cases taken
        exact rooted_call rooted call) (rooted_empty tree sr faults) st visited
  exact selectsRight_iff rooted becomes.known becomes.positive
    (fun raw encoded => becomes.reads raw (headerBatch_stored encoded)) becomes.oldBest becomes.other becomes.newBest

/-! ### A branch that comes before the best one, and one that comes after it -/

section Sample
open Sample

def forkFirst : List Call :=
  [.appendHeader header11, .appendHeader header22, .appendHeader header12, .appendHeader header13]

/-- Header 22 comes after it and takes the slot of height 2. -/
def forkLater : List Call :=
  [.appendHeader header11, .appendHeader header12, .appendHeader header13, .appendHeader header22]

def stateAfter (calls : List Call) : StateManager :=
  calls.foldl (fun st call => ((call.exec chainCodec).exec st).2) (emptyNode [] .skip).manager

theorem stateAfter_visited (calls : List Call) :
    Visits (managerStep chainCodec) (emptyNode [] .skip).manager calls (stateAfter calls) := by
  refine ⟨calls, List.prefix_rfl, ?_⟩
  unfold stateAfter
  generalize (emptyNode [] .skip).manager = st
  induction calls generalizing st with
  | nil => rfl
  | cons call rest ih => exact ih _

/-- Header 23 is a reorganisation from header 11, with two headers to roll back. -/
theorem forkFirst_selectsRight : SelectsRight History.sampleTree (stateAfter forkFirst).historyView header13.id header23
    ((History.appendHeaderInternal chainCodec header23 none).exec (stateAfter forkFirst).historyView).1 :=
  (@selectsRight_reachable History.sampleTree chainCodec [] .skip forkFirst (by decide) _
    (stateAfter_visited forkFirst) header13.id header23 none
    ⟨by decide, by decide, by decide, by decide, by decide, by decide⟩).mpr (by decide)

/-- Header 22 stands in the slot of the best branch, so the fork is reported at its height. -/
theorem forkLater_not_selectsRight :
    BecomesBest History.sampleTree chainCodec (stateAfter forkLater) header13.id header23 none ∧
      ¬ SelectsRight History.sampleTree (stateAfter forkLater).historyView header13.id header23
        ((History.appendHeaderInternal chainCodec header23 none).exec (stateAfter forkLater).historyView).1 := by
  refine ⟨⟨by decide, by decide, by decide, by decide, by decide, by decide⟩, fun right => ?_⟩
  obtain ⟨fork, common, -, result⟩ := right.reorg (by decide)
  have returned : ((History.appendHeaderInternal chainCodec header23 none).exec
      (stateAfter forkLater).historyView).1 = .ok (.reorg 2 1) := by decide
  have level := common.level_eq (by decide)
  rw [returned] at result
  injection result with result
  injection result with equal
  rw [← equal] at level
  exact absurd level (by decide)

end Sample

end ErgoNode.Proof.Manager
