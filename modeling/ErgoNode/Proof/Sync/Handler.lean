import ErgoNode.Proof.Sync.Stored

/-!
# Where the handler's blocks go

Each block the handler takes up is written and reported, reported as failed, or buffered again,
unless the handler drops it. `dropped` follows the handler through its branches and collects the ids
of the blocks that it lets go.
-/

namespace ErgoNode.Proof.Sync
open Lib Node

def Buffered (pending : Table Nat QueuedBlock) (blockId : Bytes) : Prop :=
  ∃ entry ∈ pending.entries, entry.2.blockId = blockId

instance (pending : Table Nat QueuedBlock) (blockId : Bytes) : Decidable (Buffered pending blockId) :=
  inferInstanceAs (Decidable (∃ _ ∈ _, _))

def reportOf : SyncEvent → Option Bytes
  | .blockApplied blockId _ => some blockId
  | .blockFailed blockId => some blockId
  | _ => none

def Reported (events : List SyncEvent) (blockId : Bytes) : Prop :=
  ∃ event ∈ events, reportOf event = some blockId

instance (events : List SyncEvent) (blockId : Bytes) : Decidable (Reported events blockId) :=
  inferInstanceAs (Decidable (∃ _ ∈ _, _))

theorem Reported.append_right {events : List SyncEvent} {blockId : Bytes}
    (reported : Reported events blockId) (more : List SyncEvent) :
    Reported (events ++ more) blockId := by
  obtain ⟨event, member, about⟩ := reported
  exact ⟨event, List.mem_append_left _ member, about⟩

theorem Reported.append_left {events : List SyncEvent} {blockId : Bytes}
    (reported : Reported events blockId) (earlier : List SyncEvent) :
    Reported (earlier ++ events) blockId := by
  obtain ⟨event, member, about⟩ := reported
  exact ⟨event, List.mem_append_right _ member, about⟩

/-! ### The buffer -/

section Buffer
variable {pending : Table Nat QueuedBlock} {height : Nat} {queued : QueuedBlock} {blockId : Bytes}

def overwritten (pending : Table Nat QueuedBlock) (height : Nat) (queued : QueuedBlock) : List Bytes :=
  (pending.lookup height).toList.map QueuedBlock.blockId |>.filter (· ≠ queued.blockId)

theorem buffered_insert_self : Buffered (pending.insert height queued) queued.blockId :=
  ⟨⟨height, queued⟩, AList.mem_lookup_iff.mp (AList.lookup_insert pending), rfl⟩

theorem Buffered.insert (buffered : Buffered pending blockId)
    (kept : blockId ∉ overwritten pending height queued) :
    Buffered (pending.insert height queued) blockId := by
  obtain ⟨⟨at_, old⟩, member, rfl⟩ := buffered
  have found := AList.mem_lookup_iff.mpr member
  by_cases same : at_ = height
  · subst same
    by_cases equal : old.blockId = queued.blockId
    · rw [equal]
      exact buffered_insert_self
    · have found : pending.lookup at_ = some old := found
      simp [overwritten, found, equal] at kept
  · refine ⟨⟨at_, old⟩, AList.mem_lookup_iff.mp ?_, rfl⟩
    rwa [AList.lookup_insert_ne same]

theorem Buffered.erase (buffered : Buffered pending blockId) (found : pending.lookup height = some queued) :
    Buffered (pending.erase height) blockId ∨ blockId = queued.blockId := by
  obtain ⟨⟨at_, old⟩, member, rfl⟩ := buffered
  have held := AList.mem_lookup_iff.mpr member
  by_cases same : at_ = height
  · subst same
    have held : pending.lookup at_ = some old := held
    rw [found, Option.some.injEq] at held
    exact .inr (congrArg QueuedBlock.blockId held.symm)
  · refine .inl ⟨⟨at_, old⟩, AList.mem_lookup_iff.mp ?_, rfl⟩
    rwa [AList.lookup_erase_ne same]

theorem Buffered.takeRun {fuel : Nat} (buffered : Buffered pending blockId) :
    Buffered (Node.takeRun fuel height pending).2 blockId ∨
      blockId ∈ (Node.takeRun fuel height pending).1.map QueuedBlock.blockId := by
  induction fuel generalizing height pending with
  | zero => exact .inl buffered
  | succ fuel ih =>
      rw [Node.takeRun]
      split
      · exact .inl buffered
      · next queued found =>
          rw [List.map_cons, List.mem_cons]
          rcases buffered.erase found with still | taken
          · exact (ih still).imp_right .inr
          · exact .inr (.inl taken)

end Buffer

/-! ### The loop -/

variable (sr : SigmaRust) (interpreter : Interpreter) (parameters : Nat → ChainParameters)

/-- A block that goes back to the buffer may push out another one; a failure drops the validated blocks
that are not written yet, and the block itself where nothing is reported. -/
def droppedBy (acc : ApplyLoop) (queued : QueuedBlock) : List Bytes :=
  if acc.validationFailed then
    match getHeader sr acc.state.db queued.blockId with
    | some header => overwritten acc.pendingBlocks header.height queued
    | none => [queued.blockId]
  else
    match validateQueued sr interpreter parameters acc.state.db acc.batchCreatedBoxes queued with
    | .error none => queued.blockId :: acc.validatedBlocks.map ValidatedBlock.blockId
    | .error (some _) => acc.validatedBlocks.map ValidatedBlock.blockId
    | .ok _ => []

def droppedInRun : ApplyLoop → List QueuedBlock → List Bytes
  | _, [] => []
  | acc, queued :: rest =>
      droppedBy sr interpreter parameters acc queued ++
        droppedInRun (processQueued sr interpreter parameters acc queued) rest

/-- The loop still has the block: buffered, reported, or validated and waiting for its write. -/
def Held (acc : ApplyLoop) (blockId : Bytes) : Prop :=
  Buffered acc.pendingBlocks blockId ∨ Reported acc.events blockId ∨
    acc.validationFailed = false ∧ blockId ∈ acc.validatedBlocks.map ValidatedBlock.blockId

variable {sr interpreter parameters} {acc : ApplyLoop} {queued : QueuedBlock} {blockId : Bytes}

theorem reported_applyValidated (validated : blockId ∈ acc.validatedBlocks.map ValidatedBlock.blockId) :
    Reported (applyValidated sr acc).events blockId := by
  dsimp only [applyValidated]
  split
  · apply Reported.append_left
    rw [← List.zipIdx_map_fst 0 (acc.validatedBlocks.map ValidatedBlock.blockId)] at validated
    obtain ⟨⟨_, i⟩, member, rfl⟩ := List.mem_map.mp validated
    exact ⟨_, List.mem_map_of_mem member, rfl⟩
  · exact Reported.append_left ⟨_, List.mem_map_of_mem validated, rfl⟩ _

theorem applyValidated_pendingBlocks : (applyValidated sr acc).pendingBlocks = acc.pendingBlocks := by
  dsimp only [applyValidated]
  split <;> rfl

theorem Reported.applyValidated (reported : Reported acc.events blockId) :
    Reported (applyValidated sr acc).events blockId := by
  dsimp only [Node.applyValidated]
  split <;> exact reported.append_right _

theorem Held.applyValidated (held : Held acc blockId) : Held (applyValidated sr acc) blockId := by
  rcases held with buffered | reported | ⟨-, validated⟩
  · exact .inl (by rwa [applyValidated_pendingBlocks])
  · exact .inr (.inl reported.applyValidated)
  · exact .inr (.inl (reported_applyValidated validated))

theorem Held.processQueued (held : blockId = queued.blockId ∨ Held acc blockId)
    (kept : blockId ∉ droppedBy sr interpreter parameters acc queued) :
    Held (processQueued sr interpreter parameters acc queued) blockId := by
  unfold droppedBy at kept
  unfold Node.processQueued
  split
  · -- after a failure: nothing that waits for a write counts as held any more
    next failed =>
      rw [if_pos failed] at kept
      cases found : getHeader sr acc.state.db queued.blockId with
      | none =>
          simp only [found, List.mem_singleton] at kept
          exact held.resolve_left kept
      | some header =>
          simp only [found] at kept
          rcases held with rfl | buffered | reported | ⟨working, -⟩
          · exact .inl buffered_insert_self
          · exact .inl (buffered.insert kept)
          · exact .inr (.inl reported)
          · rw [failed] at working
            cases working
  · next working =>
      rw [if_neg working] at kept
      cases checked : validateQueued sr interpreter parameters acc.state.db acc.batchCreatedBoxes queued with
      | error text =>
          cases text with
          | none =>
              simp only [checked, List.mem_cons, not_or] at kept
              rcases held.resolve_left kept.1 with buffered | reported | ⟨-, validated⟩
              · exact .inl buffered
              · exact .inr (.inl reported)
              · exact absurd validated kept.2
          | some text =>
              simp only [checked] at kept
              rcases held with rfl | buffered | reported | ⟨-, validated⟩
              · exact .inr (.inl ⟨.blockFailed queued.blockId, by simp, rfl⟩)
              · exact .inl buffered
              · exact .inr (.inl (reported.append_right _))
              · exact absurd validated kept
      | ok result =>
          obtain ⟨block, stateChange, batchCreatedBoxes⟩ := result
          have joined : Held { acc with
              batchCreatedBoxes
              validatedBlocks := acc.validatedBlocks ++ [⟨block, stateChange, queued.blockId⟩] }
              blockId := by
            rcases held with rfl | buffered | reported | ⟨sound, validated⟩
            · exact .inr (.inr ⟨Bool.not_eq_true _ ▸ working, by simp⟩)
            · exact .inl buffered
            · exact .inr (.inl reported)
            · refine .inr (.inr ⟨sound, ?_⟩)
              rw [List.map_append]
              exact List.mem_append_left _ validated
          dsimp only
          split
          · exact joined.applyValidated
          · exact joined

theorem Held.run {run : List QueuedBlock} (held : blockId ∈ run.map QueuedBlock.blockId ∨ Held acc blockId)
    (kept : blockId ∉ droppedInRun sr interpreter parameters acc run) :
    Held (run.foldl (Node.processQueued sr interpreter parameters) acc) blockId := by
  induction run generalizing acc with
  | nil => exact held.resolve_left List.not_mem_nil
  | cons queued rest ih =>
      rw [droppedInRun, List.mem_append, not_or] at kept
      rw [List.foldl_cons]
      refine ih ?_ kept.2
      rw [List.map_cons, List.mem_cons, or_assoc] at held
      rcases held with now | later | held
      · exact .inr (Held.processQueued (.inl now) kept.1)
      · exact .inl later
      · exact .inr (Held.processQueued (.inr held) kept.1)

theorem Held.applyRemaining (held : Held acc blockId) :
    Buffered (applyRemaining sr acc).pendingBlocks blockId ∨
      Reported (Node.applyRemaining sr acc).events blockId := by
  unfold Node.applyRemaining
  split
  · rw [applyValidated_pendingBlocks]
    rcases held with buffered | reported | ⟨-, validated⟩
    · exact .inl buffered
    · exact .inr reported.applyValidated
    · exact .inr (reported_applyValidated validated)
  · next idle =>
      rcases held with buffered | reported | ⟨working, validated⟩
      · exact .inl buffered
      · exact .inr reported
      · exact absurd ⟨List.ne_nil_of_mem validated ∘ by simp, working⟩ idle

/-! ### Writes of the loop -/

section Writes
variable {stored : BlockId}

theorem applied_applyValidated (applied : Applied acc.state.db stored) :
    Applied (applyValidated sr acc).state.db stored := by
  have kept : Applied ((StateManager.applyBlocksBatched sr (acc.validatedBlocks.map fun validated =>
      (validated.block, validated.stateChange))).exec acc.state).2.db stored :=
    applied_applyBlocksBatched _ applied
  dsimp only [applyValidated]
  split <;> next ran => simpa [ran] using kept

theorem applied_processQueued (applied : Applied acc.state.db stored) :
    Applied (processQueued sr interpreter parameters acc queued).state.db stored := by
  unfold processQueued
  split
  · split <;> exact applied
  · split
    · exact applied
    · exact applied
    · dsimp only
      split
      · exact applied_applyValidated applied
      · exact applied

theorem applied_processRun {node : ErgoNode.Node} (applied : Applied node.state.db stored) :
    Applied (node.processRun sr interpreter parameters queued).state.db stored := by
  have looped (run : List QueuedBlock) : ∀ acc : ApplyLoop, Applied acc.state.db stored →
      Applied (run.foldl (processQueued sr interpreter parameters) acc).state.db stored := by
    induction run with
    | nil => exact fun _ applied => applied
    | cons queued rest ih => exact fun acc applied => ih _ (applied_processQueued applied)
  have done := looped (node.collectRun queued).1
    (ApplyLoop.start node.state (node.collectRun queued).2) applied
  unfold processRun applyRemaining
  dsimp only
  split
  · exact applied_applyValidated done
  · exact done

end Writes

/-! ### The whole handler -/

def dropped (sr : SigmaRust) (interpreter : Interpreter) (parameters : Nat → ChainParameters)
    (node : ErgoNode.Node) (queued : QueuedBlock) : List Bytes :=
  match getHeader sr node.state.db queued.blockId with
  | none => [queued.blockId]
  | some header =>
      if header.height = node.state.utxo.height + 1 then
        droppedInRun sr interpreter parameters
          (ApplyLoop.start node.state (node.collectRun queued).2) (node.collectRun queued).1
      else if header.height > node.state.utxo.height + 1 then
        if node.pendingBlocks.entries.length ≥ maxPendingBlocks then [queued.blockId]
        else overwritten node.pendingBlocks header.height queued
      else [queued.blockId]

variable {node : ErgoNode.Node}

theorem processRun_keeps (held : blockId = queued.blockId ∨ Buffered node.pendingBlocks blockId)
    (kept : blockId ∉ droppedInRun sr interpreter parameters
      (ApplyLoop.start node.state (node.collectRun queued).2) (node.collectRun queued).1) :
    Buffered (node.processRun sr interpreter parameters queued).pendingBlocks blockId ∨
      Reported (node.processRun sr interpreter parameters queued).events blockId := by
  refine Held.applyRemaining (Held.run ?_ kept)
  rcases held with rfl | buffered
  · exact .inl List.mem_cons_self
  · rcases buffered.takeRun with still | taken
    · exact .inr (.inl still)
    · exact .inl (List.mem_cons_of_mem _ taken)

/-- The block of the command and the buffered ones are buffered or reported when it has been handled,
up to those that were dropped. -/
theorem applyBlock_keeps (held : blockId = queued.blockId ∨ Buffered node.pendingBlocks blockId)
    (kept : blockId ∉ dropped sr interpreter parameters node queued) :
    Buffered (node.applyBlock sr interpreter parameters queued).1.pendingBlocks blockId ∨
      Reported (node.applyBlock sr interpreter parameters queued).2 blockId := by
  unfold dropped at kept
  unfold Node.applyBlock
  split
  · next missing =>
      simp only [missing, List.mem_singleton] at kept
      exact .inl (held.resolve_left kept)
  · next header found =>
      simp only [found] at kept
      dsimp only
      split
      · next next =>
          rw [if_pos next] at kept
          exact (processRun_keeps held kept).imp_right fun reported => reported.append_right _
      · next later =>
          rw [if_neg later] at kept
          split
          · next above =>
              rw [if_pos above] at kept
              split
              · next full =>
                  rw [if_pos full, List.mem_singleton] at kept
                  exact .inl (held.resolve_left kept)
              · next space =>
                  rw [if_neg space] at kept
                  rcases held with rfl | buffered
                  · exact .inl buffered_insert_self
                  · exact .inl (buffered.insert kept)
          · next below =>
              rw [if_neg below, List.mem_singleton] at kept
              exact .inl (held.resolve_left kept)

theorem applied_applyBlock {stored : BlockId} (applied : Applied node.state.db stored) :
    Applied (node.applyBlock sr interpreter parameters queued).1.state.db stored := by
  unfold applyBlock
  split
  · exact applied
  · dsimp only
    split
    · have done : Applied (node.processRun sr interpreter parameters queued).state.db stored :=
        applied_processRun applied
      unfold endSyncMode
      split <;> exact done
    · split
      · split <;> exact applied
      · exact applied

end ErgoNode.Proof.Sync
