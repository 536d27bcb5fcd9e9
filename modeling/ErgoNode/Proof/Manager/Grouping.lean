import ErgoNode.Node.Epochs
import ErgoNode.Proof.Manager.Deliveries
import ErgoNode.Proof.Validation.Together

/-!
# How the blocks are grouped

Whatever the order in which blocks arrive, and whatever runs and batches they are validated in, every block
is validated with the parameters that were in force at first. These are its own parameters where no boundary
below it has votes that the start did not know.
-/

namespace ErgoNode.Proof.Manager
open Lib StateManager VotedState VotedParameters
open ErgoNode.Proof.Sync (storeHeadersBatch_db)
open ErgoNode.Proof.Validation (sampleInterpreter)

variable {sr : SigmaRust} {interpreter : Interpreter} {applied : BlockId → Prop} {db before after : Database}

/-! ### Headers that keep their bytes -/

/-- Bytes that hash to the id, and that the header is written as again. -/
structure KeepsBytes (sr : SigmaRust) (id : BlockId) (rawBytes : Bytes) : Prop where
  hash : sr.blake2b256 rawBytes = id
  written : ∀ parsed, sr.parseHeader rawBytes = .ok parsed → ∀ bytes,
    sr.headerBytes { parsed with id } = .ok bytes → bytes = rawBytes

/-- The stored headers of the blocks that are applied keep their bytes. -/
def Keyed (sr : SigmaRust) (applied : BlockId → Prop) (db : Database) : Prop :=
  ∀ id rawBytes, applied id → db.get .headers id = some rawBytes → KeepsBytes sr id rawBytes

theorem Keyed.of_column (keyed : Keyed sr applied before)
    (same : after.columns.column .headers = before.columns.column .headers) : Keyed sr applied after := by
  intro id rawBytes own stored
  exact keyed id rawBytes own ((congrFun same id).symm.trans stored)

theorem Keyed.getHeader {blockId : Bytes} {header : Header} (keyed : Keyed sr applied db)
    (own : applied (blockIdOf blockId)) (found : Node.getHeader sr db blockId = some header) : header.id = blockIdOf blockId ∧
      ∃ rawBytes parsed, db.get .headers header.id = some rawBytes ∧ sr.parseHeader rawBytes = .ok parsed ∧
        ∀ bytes, sr.headerBytes header = .ok bytes → bytes = rawBytes := by
  unfold Node.getHeader HeaderStore.get at found
  cases stored : db.get .headers (blockIdOf blockId) with
  | none => simp [stored, Except.toOption, pure, Except.pure] at found
  | some rawBytes =>
      obtain ⟨hash, written⟩ := keyed _ _ own stored
      cases parses : sr.parseHeader rawBytes with
      | error error => simp [stored, parses, Except.mapError, Except.toOption] at found
      | ok parsed =>
          simp only [stored, parses, Except.mapError, bind, Except.bind, pure, Except.pure, Except.toOption,
            Option.join_some, Option.some.injEq] at found
          subst found
          rw [hash]
          exact ⟨rfl, rawBytes, parsed, stored, parses, written parsed parses⟩

theorem Keyed.readsBack (keyed : Keyed sr applied db) (block : DownloadedBlock)
    (own : applied (blockIdOf block.blockId)) : ReadsBack sr db block := by
  intro header found
  obtain ⟨same, rawBytes, parsed, stored, parses, written⟩ := keyed.getHeader own found
  refine ⟨same, fun bytes encoded => ?_⟩
  rw [written bytes encoded]
  exact ⟨(keyed _ _ (same ▸ own) stored).hash, parsed, parses⟩

theorem Keyed.putBlocks {blocks : List FullBlock} (keyed : Keyed sr applied before)
    (put : PutBlocks sr blocks before after)
    (found : ∀ block ∈ blocks, ∃ blockId, applied (blockIdOf blockId) ∧
      Node.getHeader sr before blockId = some block.header) : Keyed sr applied after := by
  intro id rawBytes own stored
  rcases put.header id with ⟨block, member, rfl, bytes, encoded, now⟩ | ⟨-, kept⟩
  · obtain ⟨blockId, asked, found⟩ := found block member
    obtain ⟨-, earlier, -, held, -, written⟩ := keyed.getHeader asked found
    cases stored.symm.trans now
    rw [written rawBytes encoded]
    exact keyed _ _ own held
  · exact keyed id rawBytes own (kept.symm.trans stored)

theorem Keyed.storeHeadersBatch {st : StateManager} {headers : List (Header × Bytes)} (keyed : Keyed sr applied st.db)
    (keeps : ∀ item ∈ headers, applied item.1.id → KeepsBytes sr item.1.id item.2) :
    Keyed sr applied (Node.storeHeadersBatch sr headers st).db := by
  rw [storeHeadersBatch_db]
  rcases @ErgoNode.Proof.History.appendHeadersBatched_appended sr st.historyView headers with
    ⟨⟨columns, -⟩, -⟩ | ⟨first, rest, added, -, batched, appended⟩
  · exact keyed.of_column (congrArg (Store.column · _) columns)
  · intro id rawBytes own stored
    have column := congrFun appended.writes.headers id
    by_cases member : id ∈ added.map (·.header.id)
    · obtain ⟨a, inAdded, rfl, now⟩ := Store.exists_of_write_puts (st.db.columns.column .headers)
        (fun a : ErgoNode.Proof.History.Added => a.rawBytes) member
      have fresh : (a.header, a.rawBytes) ∈ headers.filter fun item => !HeaderStore.contains st.db item.1.id :=
        batched.fresh ▸ List.mem_map_of_mem inAdded
      cases (stored.symm.trans column).trans now
      exact keeps _ (List.mem_filter.mp fresh).1 own
    · exact keyed id rawBytes own (((column.trans (Store.write_puts_of_not_mem _ _ member)).symm).trans stored)

/-! ### Blocks that wait -/

def Waiting (applied : BlockId → Prop) (pending : Table Nat QueuedBlock) : Prop :=
  ∀ height queued, pending.lookup height = some queued → applied (blockIdOf queued.blockId)

section Waiting
variable {pending : Table Nat QueuedBlock} {queued : QueuedBlock}

theorem Waiting.insert (waiting : Waiting applied pending) (own : applied (blockIdOf queued.blockId)) (height : Nat) :
    Waiting applied (pending.insert height queued) :=
  Entries.forall_lookup_insert own waiting

theorem Waiting.takeRun {fuel height : Nat} (waiting : Waiting applied pending) :
    (∀ queued ∈ (Node.takeRun fuel height pending).1, applied (blockIdOf queued.blockId)) ∧
      Waiting applied (Node.takeRun fuel height pending).2 := by
  induction fuel generalizing height pending with
  | zero => exact ⟨List.forall_mem_nil _, waiting⟩
  | succ fuel ih =>
      rw [Node.takeRun]
      cases here : pending.lookup height with
      | none => exact ⟨List.forall_mem_nil _, waiting⟩
      | some queued =>
          obtain ⟨taken, left⟩ := @ih (pending.erase height) (height + 1) fun other held found =>
            waiting other held (Entries.lookup_erase_iff.mp found).2
          exact ⟨List.forall_mem_cons.mpr ⟨waiting height queued here, taken⟩, left⟩

end Waiting

/-! ### The loop -/

/-- What the loop keeps: every block is validated with the same parameters, and those that wait for the next
batch are as the database has their headers. -/
structure InForce (sr : SigmaRust) (applied : BlockId → Prop) (params : VotedParameters) (acc : VotedLoop) : Prop where
  keyed : Keyed sr applied acc.loop.state.db
  waiting : Waiting applied acc.loop.pendingBlocks
  parameters : acc.currentParameters = params
  validations : ∀ given ∈ acc.validations, given.2 = params
  applies : ∀ validated ∈ acc.loop.validatedBlocks, applied (blockIdOf validated.blockId)
  assembled : ∀ validated ∈ acc.loop.validatedBlocks,
    assemble sr acc.loop.state.db ⟨validated.blockId, validated.block.transactions, validated.stateChange⟩ =
      some (validated.block, validated.stateChange)

section Loop
variable {params : VotedParameters} {acc : VotedLoop} {queued : QueuedBlock}

abbrev changesOf (validatedBlocks : List ValidatedBlock) : List (FullBlock × StateChange) :=
  validatedBlocks.map fun validated => (validated.block, validated.stateChange)

theorem applyValidated_state (loop : Node.ApplyLoop) : (Node.applyValidated sr loop).validatedBlocks = [] ∧
    (Node.applyValidated sr loop).pendingBlocks = loop.pendingBlocks ∧
    (Node.applyValidated sr loop).state =
      ((applyBlocksBatched sr (changesOf loop.validatedBlocks)).exec loop.state).2 := by
  unfold Node.applyValidated
  rcases ran : (applyBlocksBatched sr (changesOf loop.validatedBlocks)).exec loop.state with ⟨error | selection, state⟩
  · simp only [changesOf] at ran
    simp [ran]
  · simp only [changesOf] at ran
    simp [ran]

theorem InForce.downloaded (inForce : InForce sr applied params acc) :
    (acc.loop.validatedBlocks.map fun validated => (⟨validated.blockId, validated.block.transactions,
      validated.stateChange⟩ : DownloadedBlock)).mapM (assemble sr acc.loop.state.db) =
      some (changesOf acc.loop.validatedBlocks) := by
  rw [mapM_eq_some, List.forall₂_map_left_iff, List.forall₂_map_right_iff, List.forall₂_same]
  exact inForce.assembled

theorem Keyed.applyBlocksBatched {st : StateManager} {downloaded : List DownloadedBlock}
    {blocks : List (FullBlock × StateChange)} (keyed : Keyed sr applied st.db)
    (own : ∀ d ∈ downloaded, applied (blockIdOf d.blockId))
    (assembled : downloaded.mapM (assemble sr st.db) = some blocks) :
    Keyed sr applied ((StateManager.applyBlocksBatched sr blocks).exec st).2.db := by
  rcases ran : (StateManager.applyBlocksBatched sr blocks).exec st with ⟨error | selection, manager⟩
  · exact keyed.of_column (congrArg (Store.column · _) (applyBlocksBatched_eq_error ran).1)
  · refine keyed.putBlocks (putBlocks_applyBlocksBatched ran) fun block member => ?_
    obtain ⟨entry, inBlocks, rfl⟩ := List.mem_map.mp member
    obtain ⟨d, inside, put⟩ := assembled_mem assembled inBlocks
    exact ⟨d.blockId, own d inside, (assemble_eq_some put).2⟩

theorem InForce.applyValidated (inForce : InForce sr applied params acc) : InForce sr applied params (acc.applyValidated sr) := by
  obtain ⟨none, pending, state⟩ := @applyValidated_state sr acc.loop
  have own : ∀ d ∈ acc.loop.validatedBlocks.map fun validated => (⟨validated.blockId, validated.block.transactions,
      validated.stateChange⟩ : DownloadedBlock), applied (blockIdOf d.blockId) :=
    List.forall_mem_map.mpr inForce.applies
  refine ⟨?_, ?_, ?_, inForce.validations, ?_, ?_⟩
  · change Keyed sr applied (Node.applyValidated sr acc.loop).state.db
    rw [state]
    exact inForce.keyed.applyBlocksBatched own inForce.downloaded
  · rw [VotedLoop.applyValidated, pending]
    exact inForce.waiting
  · refine Eq.trans ?_ inForce.parameters
    exact parameters_applyBatch (s := ⟨acc.loop.state, acc.currentParameters⟩) inForce.downloaded
      (fun block member => inForce.keyed.readsBack block (own block member)) rfl
  · intro validated member
    rw [VotedLoop.applyValidated, none] at member
    cases member
  · intro validated member
    rw [VotedLoop.applyValidated, none] at member
    cases member

theorem InForce.processQueued (inForce : InForce sr applied params acc) (own : applied (blockIdOf queued.blockId)) :
    InForce sr applied params (acc.processQueued sr interpreter queued) := by
  have given : ∀ given ∈ acc.validations ++ ((VotedLoop.toValidate sr interpreter acc.loop.state.db queued).map
      fun block => (block, acc.currentParameters)).toList, given.2 = params := by
    intro given member
    rcases List.mem_append.mp member with old | now
    · exact inForce.validations given old
    · obtain ⟨block, -, rfl⟩ := Option.map_eq_some_iff.mp (Option.mem_toList.mp now)
      exact inForce.parameters
  unfold VotedLoop.processQueued
  split
  · split
    · next header found =>
        exact { inForce with waiting := inForce.waiting.insert own header.height }
    · exact inForce
  · dsimp only
    split
    · exact { inForce with validations := given }
    · exact { inForce with validations := given }
    · next block change overlay valid =>
        have more : InForce sr applied params { acc with
            validations := acc.validations ++ ((VotedLoop.toValidate sr interpreter acc.loop.state.db queued).map
              fun block => (block, acc.currentParameters)).toList
            loop := { acc.loop with
              batchCreatedBoxes := overlay
              validatedBlocks := acc.loop.validatedBlocks ++ [⟨block, change, queued.blockId⟩] } } := by
          refine ⟨inForce.keyed, inForce.waiting, inForce.parameters, given, fun validated member => ?_,
            fun validated member => ?_⟩
          · rcases List.mem_append.mp member with old | now
            · exact inForce.applies validated old
            · obtain rfl := List.mem_singleton.mp now
              exact own
          · rcases List.mem_append.mp member with old | now
            · exact inForce.assembled validated old
            · obtain rfl := List.mem_singleton.mp now
              exact validateQueued_assembled valid
        split
        · exact more.applyValidated
        · exact more

theorem InForce.run {queue : List QueuedBlock} (inForce : InForce sr applied params acc)
    (own : ∀ queued ∈ queue, applied (blockIdOf queued.blockId)) :
    InForce sr applied params (queue.foldl (VotedLoop.processQueued sr interpreter) acc) := by
  induction queue generalizing acc with
  | nil => exact inForce
  | cons queued rest ih =>
      obtain ⟨first, later⟩ := List.forall_mem_cons.mp own
      exact ih (inForce.processQueued first) later

theorem InForce.applyRemaining (inForce : InForce sr applied params acc) : InForce sr applied params (acc.applyRemaining sr) := by
  unfold VotedLoop.applyRemaining
  split
  · exact inForce.applyValidated
  · exact inForce

/-! ### The handler without the parameters -/

theorem loop_processQueued (acc : VotedLoop) (queued : QueuedBlock) : (acc.processQueued sr interpreter queued).loop =
    Node.processQueued sr interpreter (fun _ => acc.currentParameters.toChainParameters) acc.loop queued := by
  unfold VotedLoop.processQueued Node.processQueued
  split
  · cases Node.getHeader sr acc.loop.state.db queued.blockId with
    | none => rfl
    | some header => rfl
  · dsimp only
    rcases Node.validateQueued sr interpreter (fun _ => acc.currentParameters.toChainParameters) acc.loop.state.db
      acc.loop.batchCreatedBoxes queued with (_ | error) | ⟨block, change, overlay⟩
    · rfl
    · rfl
    · dsimp only
      split <;> rfl

theorem loop_applyRemaining (acc : VotedLoop) : (acc.applyRemaining sr).loop = Node.applyRemaining sr acc.loop := by
  unfold VotedLoop.applyRemaining Node.applyRemaining
  split <;> rfl

theorem loop_run {queue : List QueuedBlock} (inForce : InForce sr applied params acc)
    (own : ∀ queued ∈ queue, applied (blockIdOf queued.blockId)) :
    (queue.foldl (VotedLoop.processQueued sr interpreter) acc).loop =
      queue.foldl (Node.processQueued sr interpreter fun _ => params.toChainParameters) acc.loop := by
  induction queue generalizing acc with
  | nil => rfl
  | cons queued rest ih =>
      obtain ⟨first, later⟩ := List.forall_mem_cons.mp own
      rw [List.foldl_cons, List.foldl_cons, ih (inForce.processQueued first) later, loop_processQueued,
        inForce.parameters]

end Loop

section Node
variable {s t : VotedNode} {params : VotedParameters} {queued : QueuedBlock} {c : VotedNode.Command}

structure NodeInForce (sr : SigmaRust) (applied : BlockId → Prop) (params : VotedParameters) (s : VotedNode) : Prop where
  keyed : Keyed sr applied s.node.state.db
  waiting : Waiting applied s.node.pendingBlocks
  parameters : s.currentParameters = params
  validations : ∀ given ∈ s.validations, given.2 = params

theorem NodeInForce.start {pending : Table Nat QueuedBlock} (inForce : NodeInForce sr applied params s)
    (waiting : Waiting applied pending) :
    InForce sr applied params ⟨.start s.node.state pending, s.currentParameters, s.validations⟩ :=
  ⟨inForce.keyed, waiting, inForce.parameters, inForce.validations, List.forall_mem_nil _, List.forall_mem_nil _⟩

theorem NodeInForce.processRun (inForce : NodeInForce sr applied params s) (own : applied (blockIdOf queued.blockId)) :
    InForce sr applied params (s.processRun sr interpreter queued) ∧ (s.processRun sr interpreter queued).loop =
      Node.processRun sr interpreter (fun _ => params.toChainParameters) s.node queued := by
  obtain ⟨taken, left⟩ := @Waiting.takeRun applied s.node.pendingBlocks s.node.pendingBlocks.entries.length
    (s.node.state.utxo.height + 2) inForce.waiting
  have start := inForce.start left
  have owned : ∀ other ∈ (s.node.collectRun queued).1, applied (blockIdOf other.blockId) :=
    List.forall_mem_cons.mpr ⟨own, taken⟩
  refine ⟨(start.run owned).applyRemaining, ?_⟩
  rw [VotedNode.processRun, loop_applyRemaining]
  exact congrArg (Node.applyRemaining sr) (loop_run start owned)

theorem NodeInForce.applyBlock (inForce : NodeInForce sr applied params s) (own : applied (blockIdOf queued.blockId)) :
    NodeInForce sr applied params (s.applyBlock sr interpreter queued).1 ∧
      ((s.applyBlock sr interpreter queued).1.node, (s.applyBlock sr interpreter queued).2) =
        s.node.applyBlock sr interpreter (fun _ => params.toChainParameters) queued := by
  obtain ⟨kept, loop⟩ := @NodeInForce.processRun sr interpreter applied s params queued inForce own
  unfold VotedNode.applyBlock Node.applyBlock
  cases Node.getHeader sr s.node.state.db queued.blockId with
  | none => exact ⟨inForce, rfl⟩
  | some header =>
      dsimp only
      split
      · rw [← loop]
        refine ⟨⟨?_, kept.waiting, kept.parameters, kept.validations⟩, rfl⟩
        have same : (Node.endSyncMode (s.processRun sr interpreter queued).loop.state).db =
            (s.processRun sr interpreter queued).loop.state.db := by
          unfold Node.endSyncMode
          split <;> rfl
        exact kept.keyed.of_column (congrArg (fun db => db.columns.column .headers) same)
      · split
        · split
          · exact ⟨inForce, rfl⟩
          · exact ⟨{ inForce with waiting := inForce.waiting.insert own header.height }, rfl⟩
        · exact ⟨inForce, rfl⟩

/-! ### Two orders of arrival -/

/-- The command applies one of these blocks, or stores their headers with bytes that are kept. -/
def CarriesBytes (sr : SigmaRust) (applied : BlockId → Prop) : VotedNode.Command → Prop
  | .applyBlock queued => applied (blockIdOf queued.blockId)
  | .storeHeadersBatch headers => ∀ item ∈ headers, applied item.1.id → KeepsBytes sr item.1.id item.2
  | .storeExtension _ => True

theorem NodeInForce.step (inForce : NodeInForce sr applied params s) (carries : CarriesBytes sr applied c)
    (taken : VotedNode.step sr interpreter s c = some t) : NodeInForce sr applied params t := by
  cases c with
  | applyBlock queued =>
      cases taken
      exact (inForce.applyBlock carries).1
  | storeHeadersBatch headers =>
      cases taken
      exact { inForce with keyed := inForce.keyed.storeHeadersBatch carries }
  | storeExtension extensionData =>
      cases taken
      have same := @column_storeExtension ⟨s.node.state, s.currentParameters⟩ .headers (by decide) extensionData
      exact { inForce with keyed := inForce.keyed.of_column same }

theorem NodeInForce.commands {commands : List VotedNode.Command} (inForce : NodeInForce sr applied params s)
    (carries : ∀ c ∈ commands, CarriesBytes sr applied c) (ran : run (VotedNode.step sr interpreter) s commands = some t) :
    NodeInForce sr applied params t :=
  ((along_actions ran).mpr carries).invariant (NodeInForce sr applied params) (fun kept => kept.step) inForce t
    ⟨commands, List.prefix_rfl, ran⟩

def votesGiven (extensions : Nat → Option Extension) : Votes := fun epoch => (extensions epoch).bind votesIn

def AppliedIn (s : VotedNode) (commands : List VotedNode.Command) (id : BlockId) : Prop :=
  (∃ queued, .applyBlock queued ∈ commands ∧ blockIdOf queued.blockId = id) ∨
    ∃ height queued, s.node.pendingBlocks.lookup height = some queued ∧ blockIdOf queued.blockId = id

/-- Validated under two groupings, the blocks get the same parameters. These are the ones that the extensions
below a block give it exactly when none of the boundaries between the first height and the block has votes. -/
theorem groupings_iff {t' : VotedNode} {commands commands' : List VotedNode.Command}
    {extensions : Nat → Option Extension} (keyed : Keyed sr (AppliedIn s (commands ++ commands')) s.node.state.db)
    (fresh : s.validations = [])
    (start : s.currentParameters = replay (votesGiven extensions) s.node.state.utxo.height)
    (carries : ∀ headers, .storeHeadersBatch headers ∈ commands ++ commands' → ∀ item ∈ headers,
      AppliedIn s (commands ++ commands') item.1.id → KeepsBytes sr item.1.id item.2)
    (ran : run (VotedNode.step sr interpreter) s commands = some t)
    (ran' : run (VotedNode.step sr interpreter) s commands' = some t') :
    (∀ given ∈ t.validations, ∀ other ∈ t'.validations, given.2 = other.2) ∧
    ∀ given ∈ t.validations ++ t'.validations,
      given.2 = replay (votesGiven extensions) (given.1.height - 1) ↔
        Unvoted (votesGiven extensions) (min s.node.state.utxo.height (given.1.height - 1))
          (max s.node.state.utxo.height (given.1.height - 1)) := by
  have inForce : NodeInForce sr (AppliedIn s (commands ++ commands'))
      (replay (votesGiven extensions) s.node.state.utxo.height) s :=
    ⟨keyed, fun height queued held => .inr ⟨height, queued, held, rfl⟩, start, fresh ▸ List.forall_mem_nil _⟩
  have each : ∀ c ∈ commands ++ commands', CarriesBytes sr (AppliedIn s (commands ++ commands')) c := by
    intro c member
    cases c with
    | applyBlock queued => exact .inl ⟨queued, member, rfl⟩
    | storeHeadersBatch headers => exact carries headers member
    | storeExtension extensionData => trivial
  obtain ⟨first, second⟩ := List.forall_mem_append.mp each
  have kept := (inForce.commands first ran).validations
  have kept' := (inForce.commands second ran').validations
  refine ⟨fun given member other inOther => (kept given member).trans (kept' other inOther).symm, ?_⟩
  intro given member
  have same : given.2 = replay (votesGiven extensions) s.node.state.utxo.height :=
    (List.mem_append.mp member).elim (kept given) (kept' given)
  rw [same, replay_eq_replay_iff]

end Node

/-! ### The block after a boundary -/

section Samples
open Sample

def header1025 : Header := sampleHeader 15 14 1025 easyBits

def groupCodec : SigmaRust :=
  codec (List.map sampleBox [1, 2, 3]) [header1023, header1024, header1025] [epochTx 1, epochTx 2, epochTx 3]

def groupColumns : Columns :=
  epochStored.columns.write ((WriteBatch.put [] .headers header1024.id [0]).put .headers header1025.id [0, 0])

def groupStart : VotedNode := .new (loaded ⟨groupColumns, []⟩) .default

def queued1024 : QueuedBlock := ⟨List.replicate 32 14, List.replicate 32 14 ++ [1, 0]⟩
def queued1025 : QueuedBlock := ⟨List.replicate 32 15, List.replicate 32 15 ++ [1, 0, 0]⟩

def oneByOne : List VotedNode.Command := [.storeExtension votesData, .applyBlock queued1024, .applyBlock queued1025]

def buffered : List VotedNode.Command := [.storeExtension votesData, .applyBlock queued1025, .applyBlock queued1024]

def groupExtensions (height : Nat) : Option Extension := if height = 1024 then some votesExtension else none

abbrev groupRun (commands : List VotedNode.Command) : Option VotedNode :=
  run (VotedNode.step groupCodec sampleInterpreter) groupStart commands

theorem keyed_groupStart (applied : BlockId → Prop) : Keyed groupCodec applied groupStart.node.state.db := by
  have column : groupColumns.column .headers = Function.update (Function.update
      (Function.update (fun _ => none) header1023.id (some [])) header1024.id (some [0])) header1025.id (some [0, 0]) := by
    rw [groupColumns, Store.column_write, epochStored_headers.2]
    simp [Store.write, Store.apply]
  intro id rawBytes _ stored
  have stored : groupColumns.column .headers id = some rawBytes := stored
  rw [column] at stored
  by_cases last : id = header1025.id
  · subst last
    rw [Function.update_self] at stored
    cases stored
    exact ⟨by decide, by rintro parsed ⟨⟩ bytes ⟨⟩; rfl⟩
  · rw [Function.update_of_ne last] at stored
    by_cases middle : id = header1024.id
    · subst middle
      rw [Function.update_self] at stored
      cases stored
      exact ⟨by decide, by rintro parsed ⟨⟩ bytes ⟨⟩; rfl⟩
    · rw [Function.update_of_ne middle] at stored
      by_cases first : id = header1023.id
      · subst first
        rw [Function.update_self] at stored
        cases stored
        exact ⟨by decide, by rintro parsed ⟨⟩ bytes ⟨⟩; rfl⟩
      · rw [Function.update_of_ne first] at stored
        cases stored

theorem boundary_grouped : ∃ t t', groupRun oneByOne = some t ∧ groupRun buffered = some t' ∧
    (∀ given ∈ t.validations, ∀ other ∈ t'.validations, given.2 = other.2) ∧
    ∀ given ∈ t.validations ++ t'.validations, given.1.height = 1024 →
      given.2 = replay (votesGiven groupExtensions) 1023 := by
  refine ⟨_, _, rfl, rfl, ?_⟩
  have noHeaders : ∀ headers, VotedNode.Command.storeHeadersBatch headers ∉ oneByOne ++ buffered := by
    simp [oneByOne, buffered]
  obtain ⟨same, own⟩ := @groupings_iff groupCodec sampleInterpreter groupStart _ _ oneByOne buffered groupExtensions
    (keyed_groupStart _) rfl (by decide) (fun headers member => absurd member (noHeaders headers)) rfl rfl
  refine ⟨same, fun given member high => ?_⟩
  have parameters := own given member
  rw [high] at parameters
  exact parameters.mpr unvoted_self

/-- The block after the boundary is validated without the limit that was voted, in a run of its own or not. -/
theorem afterBoundary_stale : ∃ t t', groupRun oneByOne = some t ∧ groupRun buffered = some t' ∧
    (¬ ∀ given ∈ t.validations, given.2 = replay (votesGiven groupExtensions) (given.1.height - 1)) ∧
    ¬ ∀ given ∈ t'.validations, given.2 = replay (votesGiven groupExtensions) (given.1.height - 1) := by
  have stale (given : FullBlock × VotedParameters) (high : given.1.height = 1025) (initial : given.2 = .default) :
      given.2 ≠ replay (votesGiven groupExtensions) (given.1.height - 1) := by
    intro same
    rw [high, initial] at same
    exact absurd (congrArg (·.maxBlockCost) same) (by decide)
  refine ⟨_, _, rfl, rfl, fun all => ?_, fun all => ?_⟩
  · exact stale _ rfl rfl (all _ (.tail _ (.head _)))
  · exact stale _ rfl rfl (all _ (.tail _ (.head _)))

end Samples

end ErgoNode.Proof.Manager
