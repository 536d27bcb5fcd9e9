import ErgoNode.Lib.Run
import ErgoNode.Node.Epochs
import ErgoNode.Proof.Manager.Votes
import ErgoNode.Proof.Sample
import ErgoNode.State.Recovery

/-!
# The parameters of a running node

They follow the boundaries as blocks are applied. A start reads them from the extensions that are stored at
the boundaries up to the UTXO height. The two part when a rollback goes below a boundary with votes, and
when pruning takes votes away that no later boundary repeats.
-/

namespace ErgoNode.Proof.Manager
open Lib StateManager VotedParameters

variable {sr : SigmaRust} {heightOf : BlockId → Nat} {before after : Database} {st : StateManager} {rest : Counters}

/-! ### Calls that keep the sections -/

theorem votesAt_of_same (same : SameSections before after) (epoch : Nat) :
    votesAt sr after epoch = votesAt sr before epoch := by
  have headers := same _ (.inl rfl)
  have chain := same _ (.inr (.inl rfl))
  unfold votesAt
  rw [getByHeight_congr headers chain]
  have stored (header : Header) : storedExtension sr after header.id = storedExtension sr before header.id :=
    storedExtension_congr (congrFun headers _) (congrFun (same _ (.inr (.inr (.inl rfl)))) _)
      (congrFun (same _ (.inr (.inr (.inr rfl)))) _)
  simp only [stored]

theorem initFromStorage_of_same (same : SameSections before after) (height : Nat) :
    initFromStorage sr after height = initFromStorage sr before height :=
  initFromStorage_congr fun epoch _ => votesAt_of_same same epoch

theorem Sound.of_same (sound : Sound sr heightOf before) (same : SameSections before after) :
    Sound sr heightOf after :=
  sound.putBlocks (putBlocks_of_same same) nofun

theorem sameSections_rollback (st : StateManager) (height : Nat) :
    SameSections st.db ((onUtxo (UtxoState.rollback sr height)).exec st).2.db := by
  intro cf known
  exact (Prod.mk.inj (keeps_rollbackTo (blockColumn_ne known) height st)).1

/-! ### The UTXO height -/

theorem utxoHeight_rollback (view : OnDatabase UtxoState) (height : Nat) :
    Op.Ends (fun now => now.mem.height = view.mem.height ∨ now.mem.height = height ∧ height < view.mem.height)
      (UtxoState.rollback sr height) view := by
  refine Op.Ends.get_bind (.ite (fun _ => .inl rfl) fun lower => ?_)
  have unwound := @Op.Ends.forEach _ _ _ (fun now : OnDatabase UtxoState => now.mem = view.mem) view
    (UtxoState.rollbackOneBlock sr) (fun height now same => (Utxo.keeps_rollbackOneBlock sr height now).trans same)
    (UtxoState.heightsAbove height view.mem.height) rfl
  refine Op.Ends.bind (unwound.mono fun now same => .inl (congrArg UtxoState.height same)) fun _ now ran _ => ?_
  have same : now.mem = view.mem := by
    unfold Op.Ends at unwound
    rw [ran] at unwound
    exact unwound
  exact OnDatabase.ends_writeBatch_bind (fun faults => .inl (congrArg UtxoState.height same)) fun faults =>
    .inr ⟨rfl, Nat.lt_of_not_le lower⟩

theorem utxoHeight_rollbackTo (st : StateManager) (height : Nat) :
    let now := ((rollbackTo sr height).exec st).2
    now.utxo.height = st.utxo.height ∨ now.utxo.height = height ∧ height < st.utxo.height :=
  utxoHeight_rollback st.utxoView height

/-- The height of a block that is refused may stay, where its root is and the rollback fails. -/
theorem utxoHeight_applyBlock (st : StateManager) (block : FullBlock) (change : StateChange) :
    Op.Ends (fun now => st.utxo.height ≤ now.utxo.height) (StateManager.applyBlock sr block change) st := by
  refine Op.Ends.get_bind (.ite (fun _ => Nat.le_refl _) fun next => ?_)
  have high : block.height = st.utxo.height + 1 := not_not.mp next
  refine Op.Ends.bind (Nat.le_refl _ : Op.Ends (fun now => st.utxo.height ≤ now.utxo.height) _ st) fun _ middle ran _ => ?_
  have same : middle.utxo = st.utxo := (congrArg (fun now => now.2.utxo) ran).symm
  have applied : Op.Ends (fun now => now.utxo.height = st.utxo.height ∨ now.utxo.height = block.height)
      (onUtxo (UtxoState.applyChange sr change block.height)) middle := by
    rcases ran : (UtxoState.applyChange sr change block.height).exec middle.utxoView with ⟨error | _, view⟩
    · refine .inl ?_
      rw [onUtxo, Op.exec_zoom, ran]
      exact (congrArg UtxoState.height (Utxo.applyChange_eq_error ran).2).trans (congrArg UtxoState.height same)
    · refine .inr ?_
      obtain ⟨_, _, -, -, utxo⟩ := Utxo.applyChange_eq_ok ran
      rw [onUtxo, Op.exec_zoom, ran]
      exact congrArg UtxoState.height utxo
  have most {height : Nat} (known : height = st.utxo.height ∨ height = block.height) : st.utxo.height ≤ height := by
    rcases known with rfl | rfl
    · exact Nat.le_refl _
    · exact high ▸ Nat.le_succ _
  refine Op.Ends.bind (applied.mono fun _ => most) fun _ last _ there => ?_
  refine Op.Ends.bind (Op.Ends.get_bind (.ite (fun _ => ?_) fun _ => there)) fun _ _ _ verified => verified
  refine Op.Ends.bind ?_ fun _ _ _ back => back
  rcases utxoHeight_rollback last.utxoView st.utxo.height with kept | ⟨back, -⟩
  · exact there.trans_eq kept.symm
  · exact back.symm.le

/-! ### What a restart reads back -/

theorem managerStored_checkAndRecover (stored : ManagerStored rest st) :
    Op.Ends (ManagerStored rest) (checkAndRecoverUtxoState sr) st := by
  refine Op.Ends.get_bind (.ite (fun _ => stored) fun _ => Op.Ends.ofExcept_bind stored fun good _ => ?_)
  cases good with
  | none => exact managerStored_rollbackTo stored 1
  | some height => exact .ite (fun _ => managerStored_rollbackTo stored (height - 10)) fun _ => stored

theorem sections_checkAndRecover (st : StateManager) : Op.Ends (fun now => SameSections st.db now.db ∧
    now.utxo.height ≤ st.utxo.height) (checkAndRecoverUtxoState sr) st := by
  have kept : SameSections st.db st.db ∧ st.utxo.height ≤ st.utxo.height := ⟨fun _ _ => rfl, Nat.le_refl _⟩
  have rolled (height : Nat) : Op.Ends (fun now => SameSections st.db now.db ∧ now.utxo.height ≤ st.utxo.height)
      (onUtxo (UtxoState.rollback sr height)) st := by
    refine ⟨sameSections_rollback st height, ?_⟩
    rcases utxoHeight_rollback st.utxoView height with same | ⟨back, low⟩
    · exact same.le
    · exact back.le.trans low.le
  refine Op.Ends.get_bind (.ite (fun _ => kept) fun _ => Op.Ends.ofExcept_bind kept fun good _ => ?_)
  cases good with
  | none => exact rolled 1
  | some height => exact .ite (fun _ => rolled (height - 10)) fun _ => kept

def SameCounters (before after : Database) : Prop :=
  (restarted after).history = (restarted before).history ∧ (restarted after).utxoHeight = (restarted before).utxoHeight

theorem sameCounters_write {columns : Columns} {batch : WriteBatch} (faults : List Bool)
    (same : SameCounters before ⟨columns, []⟩) (clean : batchColumn .metadata batch = []) :
    SameCounters before ⟨columns.write batch, faults⟩ := by
  have moved := @restarted_write columns batch [] faults clean
  rw [SameCounters, moved]
  exact same

theorem sameCounters_markHeadersSynced {view : OnDatabase HistoryPruning} (same : SameCounters before view.db) :
    Op.Ends (fun now => SameCounters before now.db) HistoryPruning.markHeadersSynced view := by
  refine Op.Ends.get_bind (.ite (fun _ => same) fun _ => Op.Ends.modify_bind ?_)
  refine OnDatabase.ends_writeBatch (fun faults => same) fun faults => ?_
  rw [SameCounters, restarted_putSynced]
  exact same

theorem sameCounters_updateBestFullBlockPruning (view : OnDatabase HistoryPruning) (header : Header) :
    Op.Ends (fun now => SameCounters view.db now.db) (HistoryPruning.updateBestFullBlockPruning sr header) view := by
  have start : SameCounters view.db view.db := ⟨rfl, rfl⟩
  refine Op.Ends.get_bind (Op.Ends.modify_bind (OnDatabase.ends_writeBatch_bind (fun faults => start) fun faults => ?_))
  refine Op.Ends.bind (sameCounters_markHeadersSynced ?_) fun _ now _ same => .ite (fun _ => ?_) fun _ => same
  · rw [SameCounters, restarted_putMinimal]
    exact start
  · refine Op.Ends.bind ?_ fun _ _ _ pruned => pruned
    refine Op.Ends.get_bind (Op.Ends.ofExcept_bind same fun batch built => .ite (fun _ => same) fun _ => ?_)
    exact OnDatabase.ends_writeBatch (fun faults => same) fun faults =>
      sameCounters_write faults same (clean_pruneHeight built)

theorem ManagerStored.of_sameCounters (stored : ManagerStored rest st) (same : SameCounters st.db after) :
    ManagerStored (restarted after) { st with db := after } := by
  obtain ⟨history, utxoHeight⟩ := same
  rw [ManagerStored] at stored ⊢
  have known := congrArg Counters.history stored
  have height := congrArg Counters.utxoHeight stored
  dsimp only at known height ⊢
  rw [← known, ← height, ← history, ← utxoHeight]

/-! ### Runs -/

structure ParameterNode where
  voted : VotedState
  pruning : HistoryPruning

inductive ParameterCall where
  | applyBlock (block : FullBlock) (stateChange : StateChange)
  | applyBlocksBatched (blocks : List (FullBlock × StateChange))
  | rollbackTo (height : Nat)
  | updateBestFullBlockPruning (header : Header)
  | setVerificationMode (mode : StateRootVerification)
  | restart

namespace ParameterNode

def start (sr : SigmaRust) (blocksToKeep : Int) (db : Database) : Option ParameterNode :=
  match (checkAndRecoverUtxoState sr).exec (loaded db) with
  | (.ok _, manager) =>
      some ⟨⟨manager, initFromStorage sr manager.db manager.utxo.height⟩, .initFromStorage blocksToKeep db⟩
  | (.error _, _) => none

variable (node : ParameterNode)

def height : Nat := node.voted.manager.utxo.height

def db : Database := node.voted.manager.db

def withManager (manager : StateManager) : ParameterNode := { node with voted.manager := manager }

def step (sr : SigmaRust) (node : ParameterNode) : ParameterCall → Option ParameterNode
  | .applyBlock block stateChange =>
      match (StateManager.applyBlock sr block stateChange).exec node.voted.manager with
      | (.ok _, manager) =>
          some { node with voted := ⟨manager,
            node.voted.currentParameters.updateForHeightRange sr manager.db block.height block.height⟩ }
      | (.error _, manager) => some (node.withManager manager)
  | .applyBlocksBatched blocks => some { node with voted := (node.voted.applyBatch sr blocks).2 }
  | .rollbackTo target => some (node.withManager ((StateManager.rollbackTo sr target).exec node.voted.manager).2)
  | .updateBestFullBlockPruning header =>
      let view := ((HistoryPruning.updateBestFullBlockPruning sr header).exec ⟨node.db, node.pruning⟩).2
      some ⟨{ node.voted with manager.db := view.db }, view.mem⟩
  | .setVerificationMode mode => some (node.withManager { node.voted.manager with stateRootVerification := mode })
  | .restart => start sr node.pruning.blocksToKeep node.db

/-- The parameters in memory are those that a start would read back at the UTXO height. -/
def Rebuilt (sr : SigmaRust) (node : ParameterNode) : Prop :=
  node.voted.getParameters = initFromStorage sr node.db node.height

end ParameterNode

open ParameterNode

namespace ParameterCall

def blocks : ParameterCall → List FullBlock
  | .applyBlock block _ => [block]
  | .applyBlocksBatched blocks => blocks.map Prod.fst
  | _ => []

/-- A call that takes the UTXO height back goes below no boundary with votes, one that prunes leaves the
votes to later boundaries, and a block that is refused does not stay at a boundary. -/
def Covered (sr : SigmaRust) (node : ParameterNode) : ParameterCall → Prop
  | .applyBlock block stateChange =>
      ∀ error manager, (StateManager.applyBlock sr block stateChange).exec node.voted.manager = (.error error, manager) →
        Unvoted (votesAt sr manager.db) node.height manager.utxo.height
  | .applyBlocksBatched _ => True
  | .rollbackTo target =>
      Unvoted (votesAt sr node.db) ((StateManager.rollbackTo sr target).exec node.voted.manager).2.utxo.height node.height
  | .updateBestFullBlockPruning header =>
      (∃ minimal, ((HistoryPruning.updateBestFullBlockPruning sr header).exec ⟨node.db, node.pruning⟩).1 = .ok minimal) →
        Rises node.pruning header →
        VotedAgain (votesAt sr node.db) (min node.height (node.pruning.newMinimalHeight header - 1)) node.height
  | .setVerificationMode _ => True
  | .restart => ∀ manager, (checkAndRecoverUtxoState sr).exec (loaded node.db) = (.ok (), manager) →
      Unvoted (votesAt sr node.db) manager.utxo.height node.height

def RestartKeeps (sr : SigmaRust) (node : ParameterNode) (call : ParameterCall) : Prop :=
  ∀ after, node.step sr call = some after → call = .restart → after.voted.getParameters = node.voted.getParameters

/-- The step leaves the parameters that a start would read back, and a restart changes none. -/
def Keeps (sr : SigmaRust) (node : ParameterNode) (call : ParameterCall) : Prop :=
  ∀ after, node.step sr call = some after → after.Rebuilt sr ∧
    (call = .restart → after.voted.getParameters = node.voted.getParameters)

end ParameterCall

section Runs
open ParameterCall
variable {node next : ParameterNode} {call : ParameterCall} {block : FullBlock} {change : StateChange}

structure Consistent (sr : SigmaRust) (heightOf : BlockId → Nat) (node : ParameterNode) : Prop where
  sound : Sound sr heightOf node.db
  stored : ∃ rest, ManagerStored rest node.voted.manager
  rebuilt : node.Rebuilt sr

theorem votes_applied {manager : StateManager} {blocks : List FullBlock} (consistent : Consistent sr heightOf node)
    (put : PutBlocks sr blocks node.db manager.db) (genuine : ∀ block ∈ blocks, Genuine sr heightOf block)
    (above : ∀ block ∈ blocks, node.height < block.height) :
    initFromStorage sr manager.db node.height = node.voted.getParameters := by
  rw [consistent.rebuilt]
  refine initFromStorage_congr fun epoch member => votesAt_put put consistent.sound genuine fun block inBlocks => ?_
  exact (mem_epochs.mp member).2.trans_lt (above block inBlocks)

/-- Where the sections stay, only votes above the new height count. -/
theorem rebuilt_of_same {manager : StateManager} (consistent : Consistent sr heightOf node)
    (same : SameSections node.db manager.db) (low : manager.utxo.height ≤ node.height) :
    initFromStorage sr manager.db manager.utxo.height = node.voted.getParameters ↔
      Unvoted (votesAt sr node.db) manager.utxo.height node.height := by
  rw [initFromStorage_of_same same, consistent.rebuilt, eq_comm, initFromStorage_eq_iff low]

structure StepSpec (sr : SigmaRust) (heightOf : BlockId → Nat) (node : ParameterNode) (call : ParameterCall)
    (next : ParameterNode) : Prop where
  sound : Sound sr heightOf next.db
  stored : ∃ rest, ManagerStored rest next.voted.manager
  keeps : Keeps sr node call ↔ Covered sr node call

theorem keeps_iff (taken : node.step sr call = some next) : Keeps sr node call ↔ next.Rebuilt sr ∧
    (call = .restart → next.voted.getParameters = node.voted.getParameters) := by
  constructor
  · exact fun keeps => keeps next taken
  · intro here after taken'
    cases taken.symm.trans taken'
    exact here

theorem applyBlock_spec (consistent : Consistent sr heightOf node) (genuine : Genuine sr heightOf block)
    (taken : node.step sr (.applyBlock block change) = some next) :
    StepSpec sr heightOf node (.applyBlock block change) next := by
  have whole := keeps_iff taken
  obtain ⟨rest, stored⟩ := consistent.stored
  have stored := @managerStored_applyBlock sr rest _ stored block change
  have low := @utxoHeight_applyBlock sr node.voted.manager block change
  obtain ⟨blocks, put, only⟩ := putBlocks_applyBlock sr node.voted.manager block change
  unfold Op.Ends at stored low
  rw [ParameterNode.step] at taken
  rcases ran : (StateManager.applyBlock sr block change).exec node.voted.manager with ⟨result, manager⟩
  rw [ran] at stored low put taken
  dsimp only at stored low put
  have given : ∀ other ∈ blocks, Genuine sr heightOf other := fun other member => (only other member).1 ▸ genuine
  have above : ∀ other ∈ blocks, node.height < other.height := fun other member => by
    rw [(only other member).1, (only other member).2]
    exact Nat.lt_succ_self _
  have votes := votes_applied consistent put given above
  have sound := consistent.sound.putBlocks put given
  cases result with
  | error error =>
      cases taken
      refine ⟨sound, ⟨rest, stored⟩, whole.trans ?_⟩
      have same := @initFromStorage_eq_iff sr manager.db node.height manager.utxo.height low
      rw [votes] at same
      unfold Covered
      constructor
      · rintro ⟨rebuilt, -⟩ _ _ again
        cases ran.symm.trans again
        exact same.mp rebuilt.symm
      · intro covered
        exact ⟨(same.mpr (covered error manager ran)).symm, nofun⟩
  | ok selection =>
      cases taken
      refine ⟨sound, ⟨rest, stored⟩, whole.trans (iff_of_true ⟨?_, nofun⟩ ?_)⟩
      · have applied := applyBlock_eq_ok ran
        have high : manager.utxo.height = node.height + 1 := (congrArg UtxoState.height applied.utxo).trans applied.height
        have range := sound.updateForHeightRange_eq node.height 1
        rw [votes] at range
        unfold ParameterNode.Rebuilt
        rw [applied.height]
        exact range.trans (congrArg (initFromStorage sr manager.db) high.symm)
      · intro _ _ again
        cases ran.symm.trans again

structure HeightsApplied (st after : StateManager) (blocks : List (FullBlock × StateChange)) : Prop where
  above : ∀ block ∈ blocks.map Prod.fst, st.utxo.height < block.height
  first : (blocks.head?.map fun item => item.1.height).getD 0 = st.utxo.height + 1
  last : (blocks.getLast?.map fun item => item.1.height).getD 0 = after.utxo.height
  height : after.utxo.height = st.utxo.height + blocks.length

theorem heights_applied {st after : StateManager} {first : FullBlock × StateChange} {rest : List (FullBlock × StateChange)}
    {selection : ChainSelection} (done : (StateManager.applyBlocksBatched sr (first :: rest)).exec st = (.ok selection, after)) :
    HeightsApplied st after (first :: rest) := by
  obtain ⟨acc, -, applied⟩ := applyBlocksBatched_eq_ok done
  have heights := applied.heights
  have last : ((first :: rest).getLast?.map fun item => item.1.height).getD 0 = st.utxo.height + (first :: rest).length := by
    rw [← List.getLast?_map, heights, List.getLast?_range', if_neg (by simp), Option.getD_some]
    simp only [List.length_cons]
    omega
  have now : after.utxo.height = ((first :: rest).getLast?.map fun item => item.1.height).getD 0 := by
    rw [applied.utxo, List.getLast?_cons, List.getLastD_eq_getLast?]
    rfl
  refine ⟨fun block member => ?_, ?_, now.symm, now.trans last⟩
  · obtain ⟨item, inItems, rfl⟩ := List.mem_map.mp member
    have inRange : item.1.height ∈ List.range' (st.utxo.height + 1) (first :: rest).length :=
      heights ▸ List.mem_map_of_mem inItems
    exact (List.mem_range'_1.mp inRange).1
  · rw [← List.head?_map, heights]
    rfl

theorem applyBlocksBatched_spec {blocks : List (FullBlock × StateChange)} (consistent : Consistent sr heightOf node)
    (genuine : ∀ item ∈ blocks, Genuine sr heightOf item.1)
    (taken : node.step sr (.applyBlocksBatched blocks) = some next) :
    StepSpec sr heightOf node (.applyBlocksBatched blocks) next := by
  have whole := keeps_iff taken
  obtain ⟨rest, stored⟩ := consistent.stored
  have stored := @managerStored_applyBlocksBatched sr rest _ stored blocks
  unfold Op.Ends at stored
  rw [ParameterNode.step, VotedState.applyBatch] at taken
  rcases ran : (StateManager.applyBlocksBatched sr blocks).exec node.voted.manager with ⟨error | selection, manager⟩
  · rw [ran] at stored taken
    cases taken
    obtain ⟨columns, -, utxo⟩ := applyBlocksBatched_eq_error ran
    have same : SameSections node.db manager.db := fun cf _ => congrArg (Store.column · cf) columns
    have height : manager.utxo.height = node.height := congrArg UtxoState.height utxo
    have votes := (rebuilt_of_same consistent same height.le).mpr (height ▸ unvoted_self)
    exact ⟨consistent.sound.of_same same, ⟨rest, stored⟩, whole.trans (iff_of_true ⟨votes.symm, nofun⟩ trivial)⟩
  · rw [ran] at stored taken
    cases taken
    have put := putBlocks_applyBlocksBatched ran
    have given : ∀ block ∈ blocks.map Prod.fst, Genuine sr heightOf block := List.forall_mem_map.mpr genuine
    have sound := consistent.sound.putBlocks put given
    refine ⟨sound, ⟨rest, stored⟩, whole.trans (iff_of_true ⟨?_, nofun⟩ trivial)⟩
    cases blocks with
    | nil =>
        cases ran
        exact consistent.rebuilt
    | cons first others =>
        have taken := heights_applied ran
        have votes := votes_applied consistent put given taken.above
        have range := sound.updateForHeightRange_eq node.height (first :: others).length
        rw [votes] at range
        refine Eq.trans ?_ (range.trans (congrArg (initFromStorage sr manager.db) taken.height.symm))
        dsimp only
        rw [taken.first, taken.last, taken.height]
        rfl

theorem rollbackTo_spec {target : Nat} (consistent : Consistent sr heightOf node)
    (taken : node.step sr (.rollbackTo target) = some next) : StepSpec sr heightOf node (.rollbackTo target) next := by
  have whole := keeps_iff taken
  obtain ⟨rest, stored⟩ := consistent.stored
  have stored := @managerStored_rollbackTo sr rest _ stored target
  have same := @sameSections_rollback sr node.voted.manager target
  have low : ((StateManager.rollbackTo sr target).exec node.voted.manager).2.utxo.height ≤ node.height := by
    rcases @utxoHeight_rollbackTo sr node.voted.manager target with kept | ⟨back, below⟩
    · exact kept.le
    · exact back.le.trans below.le
  cases taken
  refine ⟨consistent.sound.of_same same, ⟨rest, stored⟩, whole.trans ?_⟩
  have votes := rebuilt_of_same consistent same low
  refine Iff.trans ?_ votes
  exact ⟨fun kept => kept.1.symm, fun rebuilt => ⟨rebuilt.symm, nofun⟩⟩

theorem rebuilt_of_pruned {minimal : Nat} {db : Database} (consistent : Consistent sr heightOf node)
    (pruned : PrunedBelow sr minimal node.db db) : node.voted.getParameters = initFromStorage sr db node.height ↔
      VotedAgain (votesAt sr node.db) (min node.height (minimal - 1)) node.height := by
  have first {epoch : Nat} (boundary : isEpochBoundary epoch = true) : genesisHeight ≤ epoch :=
    (isEpochBoundary_iff.mp boundary).1
  rw [consistent.rebuilt, initFromStorage_eq, initFromStorage_eq, eq_comm]
  refine replay_of_lost_iff (Nat.min_le_left ..) (fun epoch member => ?_) fun epoch member => ?_
  · obtain ⟨boundary, most⟩ := mem_epochs.mp member
    have below : epoch < minimal := by
      have positive := first boundary
      simp only [genesisHeight] at positive
      omega
    rw [votesAt_prunedBelow pruned consistent.sound (first boundary), if_pos below]
  · obtain ⟨above, most, boundary⟩ := mem_epochsBetween.mp member
    have kept : ¬ epoch < minimal := by omega
    rw [votesAt_prunedBelow pruned consistent.sound (first boundary), if_neg kept]

theorem updateBestFullBlockPruning_spec {header : Header} (consistent : Consistent sr heightOf node)
    (taken : node.step sr (.updateBestFullBlockPruning header) = some next) :
    StepSpec sr heightOf node (.updateBestFullBlockPruning header) next := by
  have whole := keeps_iff taken
  obtain ⟨rest, stored⟩ := consistent.stored
  have counters := @sameCounters_updateBestFullBlockPruning sr ⟨node.db, node.pruning⟩ header
  unfold Op.Ends at counters
  rw [ParameterNode.step] at taken
  rcases ran : (HistoryPruning.updateBestFullBlockPruning sr header).exec ⟨node.db, node.pruning⟩ with ⟨result, view⟩
  rw [ran] at counters taken
  cases taken
  have stored := stored.of_sameCounters counters
  have returned : ((HistoryPruning.updateBestFullBlockPruning sr header).exec ⟨node.db, node.pruning⟩).1 = result :=
    congrArg Prod.fst ran
  rcases updateBestFullBlockPruning_sections ran with ⟨done, rises, pruned⟩ | ⟨stays, same⟩
  · refine ⟨consistent.sound.prunedBelow pruned, ⟨_, stored⟩, whole.trans ?_⟩
    have votes := rebuilt_of_pruned consistent pruned
    exact ⟨fun kept _ _ => votes.mp kept.1, fun covered =>
      ⟨votes.mpr (covered (done.imp fun _ same => returned.trans same) rises), nofun⟩⟩
  · refine ⟨consistent.sound.of_same same, ⟨_, stored⟩, whole.trans (iff_of_true ⟨?_, nofun⟩ ?_)⟩
    · exact consistent.rebuilt.trans (initFromStorage_of_same same _).symm
    · exact fun done rises => absurd ⟨done.imp fun _ same => returned.symm.trans same, rises⟩ stays

theorem restart_spec (consistent : Consistent sr heightOf node) (taken : node.step sr .restart = some next) :
    StepSpec sr heightOf node .restart next := by
  have whole := keeps_iff taken
  obtain ⟨rest, stored⟩ := consistent.stored
  have loads : ManagerStored (restarted node.db) (loaded node.db) := rfl
  have height : (loaded node.db).utxo.height = node.height := congrArg Counters.utxoHeight stored
  have stored := @managerStored_checkAndRecover sr _ _ loads
  have sections := @sections_checkAndRecover sr (loaded node.db)
  unfold Op.Ends at stored sections
  rw [ParameterNode.step, start] at taken
  rcases ran : (checkAndRecoverUtxoState sr).exec (loaded node.db) with ⟨error | _, manager⟩
  · rw [ran] at taken
    cases taken
  · rw [ran] at stored sections taken
    cases taken
    obtain ⟨same, low⟩ := sections
    refine ⟨consistent.sound.of_same same, ⟨_, stored⟩, whole.trans ?_⟩
    have votes := rebuilt_of_same consistent same (height ▸ low)
    unfold Covered
    constructor
    · rintro ⟨-, kept⟩ _ again
      cases ran.symm.trans again
      exact votes.mp (kept rfl)
    · intro covered
      exact ⟨rfl, fun _ => votes.mpr (covered manager ran)⟩

theorem step_spec (consistent : Consistent sr heightOf node) (genuine : ∀ block ∈ call.blocks, Genuine sr heightOf block)
    (taken : node.step sr call = some next) : StepSpec sr heightOf node call next := by
  cases call with
  | applyBlock block change => exact applyBlock_spec consistent (genuine block List.mem_cons_self) taken
  | applyBlocksBatched blocks =>
      exact applyBlocksBatched_spec consistent (fun item member => genuine _ (List.mem_map_of_mem member)) taken
  | rollbackTo target => exact rollbackTo_spec consistent taken
  | updateBestFullBlockPruning header => exact updateBestFullBlockPruning_spec consistent taken
  | setVerificationMode mode =>
      have whole := keeps_iff taken
      cases taken
      exact ⟨consistent.sound, consistent.stored, whole.trans (iff_of_true ⟨consistent.rebuilt, nofun⟩ trivial)⟩
  | restart => exact restart_spec consistent taken

theorem covered_of_refused (refused : node.step sr call = none) : Covered sr node call := by
  cases call with
  | applyBlock block change =>
      rw [ParameterNode.step] at refused
      split at refused <;> cases refused
  | applyBlocksBatched blocks => cases refused
  | rollbackTo target => cases refused
  | updateBestFullBlockPruning header => cases refused
  | setVerificationMode mode => cases refused
  | restart =>
      intro manager ran
      rw [ParameterNode.step, start, ran] at refused
      cases refused

theorem consistent_start {db : Database} {blocksToKeep : Int} (sound : Sound sr heightOf db)
    (started : start sr blocksToKeep db = some node) : Consistent sr heightOf node := by
  have loads : ManagerStored (restarted db) (loaded db) := rfl
  have stored := @managerStored_checkAndRecover sr _ _ loads
  have sections := @sections_checkAndRecover sr (loaded db)
  unfold Op.Ends at stored sections
  rw [start] at started
  rcases ran : (checkAndRecoverUtxoState sr).exec (loaded db) with ⟨error | _, manager⟩
  · rw [ran] at started
    cases started
  · rw [ran] at stored sections started
    cases started
    exact ⟨sound.of_same sections.1, ⟨_, stored⟩, rfl⟩

/-- In every run of a started node the parameters in memory are those that a start would read back, and no
restart changes them, exactly when the run's calls cover the votes they take away. -/
theorem parameters_rebuilt_iff {db : Database} {blocksToKeep : Int} (sound : Sound sr heightOf db)
    (started : start sr blocksToKeep db = some node) {calls : List ParameterCall}
    (genuine : ∀ call ∈ calls, ∀ block ∈ call.blocks, Genuine sr heightOf block) :
    (Always (ParameterNode.step sr) (ParameterNode.Rebuilt sr) node calls ∧
      Along (ParameterNode.step sr) (RestartKeeps sr) node calls) ↔
      Along (ParameterNode.step sr) (Covered sr) node calls := by
  have start := consistent_start sound started
  have given : Along (ParameterNode.step sr) (fun _ call => ∀ block ∈ call.blocks, Genuine sr heightOf block) node calls :=
    fun before call prefixed _ _ => genuine call (prefixed.subset (by simp))
  have steps := @along_iff_along _ _ _ (Covered sr) _ _ (Keeps sr) _ (Consistent sr heightOf) ?_ ?_ start given
  · rw [← steps, always_iff]
    constructor
    · rintro ⟨⟨-, rebuilt⟩, kept⟩ before call prefixed node ran next taken
      exact ⟨rebuilt before call prefixed node ran next taken, kept before call prefixed node ran next taken⟩
    · intro keeps
      refine ⟨⟨start.rebuilt, fun before call prefixed node ran next taken => ?_⟩, fun before call prefixed node ran next
        taken => ?_⟩
      · exact (keeps before call prefixed node ran next taken).1
      · exact (keeps before call prefixed node ran next taken).2
  · intro node call consistent genuine
    cases taken : node.step sr call with
    | some next => exact (step_spec consistent genuine taken).keeps
    | none =>
        refine iff_of_true (fun next there => ?_) (covered_of_refused taken)
        cases taken.symm.trans there
  · intro node call next consistent genuine covered taken
    have spec := step_spec consistent genuine taken
    exact ⟨spec.sound, spec.stored, (spec.keeps.mpr covered next taken).1⟩

end Runs

/-! ### A rollback below a boundary -/

section Samples
open Sample

def header1023 : Header := sampleHeader 13 12 1023 easyBits
def header1024 : Header := sampleHeader 14 13 1024 easyBits

def epochTx (n : UInt8) : Transaction := ⟨.filled n, [], none, [sampleBox n]⟩

def epochCodec : SigmaRust := codec (List.map sampleBox [1, 2]) [header1023, header1024] [epochTx 1, epochTx 2]

def epochHeight (id : BlockId) : Nat := if id = header1024.id then 1024 else 1023

def epochUtxo : Database := ((UtxoState.applyChange epochCodec ⟨[sampleEntry 1 1023], []⟩ 1023).exec fresh).2.db

def epochStored : Database where
  columns := epochUtxo.columns.write (((WriteBatch.put [] .headers header1023.id []).put .headerChain 1023
    header1023.id).put .blockTransactions header1023.id [0, 0, 0, 1, 0, 0, 0, 0])
  faults := []

def epochNode : ParameterNode := ⟨⟨loaded epochStored, .default⟩, .initFromStorage (-1) epochStored⟩

def votedBlock : FullBlock :=
  ⟨header1024, ⟨header1024.id, [epochTx 2], 1⟩, ⟨header1024.id, [⟨(0, 4), [0, 30, 132, 128]⟩]⟩, none⟩

def votedChange : StateChange := ⟨[sampleEntry 2 1024], []⟩

theorem epochNode_started : start epochCodec (-1) epochStored = some epochNode := rfl

theorem epochStored_headers : epochStored.columns.column .headerChain = Function.update (fun _ => none) 1023 (some header1023.id) ∧
    epochStored.columns.column .headers = Function.update (fun _ => none) header1023.id (some []) := by
  have kept {cf : ColumnFamily} (known : BlockColumn cf) : epochUtxo.columns.column cf = fun _ => none :=
    keeps_column_applyChange (blockColumn_ne known) _ _ fresh
  constructor
  · rw [epochStored, Store.column_write, kept (.inr (.inl rfl))]
    simp [Store.write, Store.apply]
  · rw [epochStored, Store.column_write, kept (.inl rfl)]
    simp [Store.write, Store.apply]

theorem sound_epochStored : Sound epochCodec epochHeight epochStored where
  index height id slot := by
    have column := congrFun epochStored_headers.1 height
    have slot := column.symm.trans slot
    by_cases last : height = 1023
    · subst last
      rw [Function.update_self] at slot
      cases slot
      decide
    · rw [Function.update_of_ne last] at slot
      cases slot
  headers id header found := by
    have column : epochStored.get .headers id = _ := congrFun epochStored_headers.2 id
    rw [HeaderStore.get, column] at found
    by_cases last : id = header1023.id
    · subst last
      rw [Function.update_self] at found
      cases found
      decide
    · rw [Function.update_of_ne last] at found
      cases found

theorem genuine_votedBlock : Genuine epochCodec epochHeight votedBlock where
  height := by decide
  extension := rfl
  header bytes encoded := by
    cases encoded
    exact ⟨by decide, header1024, rfl, rfl⟩

/-- A restart at the boundary finds the limit that was voted. -/
theorem voted_rebuilt : Always (ParameterNode.step epochCodec) (ParameterNode.Rebuilt epochCodec) epochNode
      [.applyBlock votedBlock votedChange, .restart] ∧
    Along (ParameterNode.step epochCodec) (ParameterCall.RestartKeeps epochCodec) epochNode
      [.applyBlock votedBlock votedChange, .restart] := by
  refine (parameters_rebuilt_iff sound_epochStored epochNode_started ?_).mpr ?_
  · simp [ParameterCall.blocks, genuine_votedBlock]
  · refine along_cons.mpr ⟨fun error manager failed => ?_, fun node taken => along_cons.mpr ⟨?_, fun _ _ => along_nil⟩⟩
    · have applied : ((StateManager.applyBlock epochCodec votedBlock votedChange).exec epochNode.voted.manager).1 =
          .ok .extended := rfl
      rw [failed] at applied
      cases applied
    · intro manager recovered
      cases taken
      have height : manager.utxo.height = 1024 := (congrArg (fun ran => ran.2.utxo.height) recovered).symm
      rw [height]
      exact unvoted_self

/-- After a rollback to below the boundary the limit stays in force until a restart. -/
theorem rolledBack_not_rebuilt : start epochCodec (-1) epochStored = some epochNode ∧
    ¬ Always (ParameterNode.step epochCodec) (ParameterNode.Rebuilt epochCodec) epochNode
      [.applyBlock votedBlock votedChange, .rollbackTo 1023] ∧
    ¬ Along (ParameterNode.step epochCodec) (ParameterCall.RestartKeeps epochCodec) epochNode
      [.applyBlock votedBlock votedChange, .rollbackTo 1023, .restart] := by
  refine ⟨rfl, fun always => ?_, fun along => ?_⟩
  · have rebuilt := always _ ⟨_, List.prefix_rfl, rfl⟩
    exact absurd (congrArg (·.maxBlockCost) rebuilt) (by decide)
  · have kept := along [.applyBlock votedBlock votedChange, .rollbackTo 1023] .restart List.prefix_rfl _ rfl _ rfl rfl
    exact absurd (congrArg (·.maxBlockCost) kept) (by decide)

end Samples

end ErgoNode.Proof.Manager
