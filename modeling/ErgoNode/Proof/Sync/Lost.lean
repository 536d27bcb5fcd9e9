import ErgoNode.Lib.Run
import ErgoNode.Proof.Sample
import ErgoNode.Proof.Sync.Handler
import ErgoNode.Proof.Validation.Together

/-!
# Downloaded blocks

A transactions id in the completed set is not requested again. So the block of each header tracked
under such an id has to be somewhere: applied, buffered, on its way to the node, or in a report that
is on its way back.
-/

namespace ErgoNode.Proof.Sync
open Lib

/-! ### The tracked headers -/

section Chain
variable {chain : HeaderChain} {headerId other : Bytes} {txId : ModifierId}

theorem getTxId_trackHeader (header : Header) :
    (chain.trackHeader header txId headerId).getTxId other =
      if other = headerId then some txId else chain.getTxId other := by
  unfold HeaderChain.getTxId HeaderChain.trackHeader
  by_cases same : other = headerId
  · subst same
    rw [if_pos rfl]
    exact AList.lookup_insert _
  · rw [if_neg same]
    exact AList.lookup_insert_ne same

theorem getTxId_erase {table : Table Bytes ModifierId}
    (tracked : (table.erase headerId).lookup other = some txId) :
    other ≠ headerId ∧ table.lookup other = some txId := by
  by_cases same : other = headerId
  · subst same
    simp at tracked
  · rw [AList.lookup_erase_ne same] at tracked
    exact ⟨same, tracked⟩

theorem getTxId_removeHeader (tracked : (chain.removeHeader headerId).getTxId other = some txId) :
    other ≠ headerId ∧ chain.getTxId other = some txId := by
  dsimp only [HeaderChain.removeHeader, HeaderChain.getTxId] at tracked ⊢
  split at tracked
  · exact getTxId_erase tracked
  · next missing =>
      refine ⟨?_, tracked⟩
      rintro rfl
      have missing : chain.headerIdToTxId.lookup other = none := missing
      have tracked : chain.headerIdToTxId.lookup other = some txId := tracked
      rw [missing] at tracked
      cases tracked

theorem getTxId_dropBlock {oldTxId : ModifierId}
    (tracked : (chain.dropBlock oldTxId).getTxId other = some txId) :
    chain.getTxId other = some txId := by
  dsimp only [HeaderChain.dropBlock, HeaderChain.getTxId] at tracked ⊢
  split at tracked
  · exact (getTxId_erase tracked).2
  · exact tracked

theorem getTxId_foldl_drop {E : Type} {drop : HeaderChain → E → HeaderChain}
    (drops : ∀ {chain e}, (drop chain e).getTxId other = some txId → chain.getTxId other = some txId)
    (list : List E) (tracked : (list.foldl drop chain).getTxId other = some txId) :
    chain.getTxId other = some txId := by
  induction list generalizing chain with
  | nil => exact tracked
  | cons e rest ih => exact drops (ih tracked)

theorem getTxId_dropHeader {oldHeader : Header}
    (tracked : (chain.dropHeader oldHeader).getTxId other = some txId) :
    chain.getTxId other = some txId := by
  unfold HeaderChain.dropHeader at tracked
  exact (getTxId_removeHeader tracked).2

theorem getTxId_enforceLimits (tracked : chain.enforceLimits.getTxId other = some txId) :
    chain.getTxId other = some txId := by
  unfold HeaderChain.enforceLimits at tracked
  exact getTxId_foldl_drop getTxId_dropHeader _ (getTxId_foldl_drop getTxId_dropBlock _ tracked)

theorem getTxId_foldl_trackRequested {sr : SigmaRust} {headers : List Header}
    (tracked : (headers.foldl (SyncProtocol.trackRequested sr) chain).getTxId other = some txId) :
    chain.getTxId other = some txId ∨
      ∃ header ∈ headers, header.id.bytes = other ∧ transactionsId sr header = txId := by
  induction headers generalizing chain with
  | nil => exact .inl tracked
  | cons header rest ih =>
      rcases ih tracked with earlier | ⟨later, member, same⟩
      · unfold SyncProtocol.trackRequested at earlier
        split at earlier
        · exact .inl earlier
        · rw [getTxId_trackHeader] at earlier
          split at earlier
          · next same =>
              exact .inr ⟨header, List.mem_cons_self, same.symm, Option.some.inj earlier⟩
          · exact .inl earlier
      · exact .inr ⟨later, List.mem_cons_of_mem _ member, same⟩

end Chain

/-! ### Awaited blocks -/

/-- The header is tracked under a transactions id that counts as completed. -/
def Awaited (sync : SyncProtocol) (headerId : Bytes) : Prop :=
  ∃ txId ∈ sync.headerChain.getTxId headerId, txId ∈ sync.downloader.completed

instance (sync : SyncProtocol) (headerId : Bytes) : Decidable (Awaited sync headerId) :=
  match tracked : sync.headerChain.getTxId headerId with
  | none => .isFalse fun ⟨_, same, _⟩ => by simp [tracked] at same
  | some txId =>
      decidable_of_iff (txId ∈ sync.downloader.completed) (by simp [Awaited, tracked])

def Commanded (commands : List SyncCommand) (headerId : Bytes) : Prop :=
  ∃ data, .applyBlock headerId data ∈ commands

instance (commands : List SyncCommand) (headerId : Bytes) : Decidable (Commanded commands headerId) :=
  decidable_of_iff (∃ command ∈ commands, match command with | .applyBlock id _ => id = headerId) (by
    constructor
    · rintro ⟨⟨id, data⟩, member, rfl⟩
      exact ⟨data, member⟩
    · rintro ⟨data, member⟩
      exact ⟨_, member, rfl⟩)

/-- The block is stored, or a command or report about it is in a queue. -/
def Elsewhere (db : Database) (commands : List SyncCommand) (events : List SyncEvent)
    (headerId : Bytes) : Prop :=
  Applied db (blockIdOf headerId) ∨ Commanded commands headerId ∨ Reported events headerId

instance (db : Database) (commands : List SyncCommand) (events : List SyncEvent) (headerId : Bytes) :
    Decidable (Elsewhere db commands events headerId) :=
  inferInstanceAs (Decidable (_ ∨ _ ∨ _))

def Accounted (s : System) (headerId : Bytes) : Prop :=
  Elsewhere s.node.state.db s.commands s.events headerId ∨ Buffered s.node.pendingBlocks headerId

instance (s : System) (headerId : Bytes) : Decidable (Accounted s headerId) :=
  inferInstanceAs (Decidable (_ ∨ _))

def NoBlockLost (s : System) : Prop := ∀ headerId, Awaited s.sync headerId → Accounted s headerId

theorem noBlockLost_new (state : StateManager) : NoBlockLost (System.new state) := by
  rintro headerId ⟨txId, tracked, -⟩
  cases tracked

/-! ### The condition on a step -/

section Condition
variable (sr : SigmaRust) (interpreter : Interpreter)

def mappedTo (chain : HeaderChain) (txId : ModifierId) : List Bytes :=
  (chain.headerIdToTxId.entries.filter (·.2 = txId)).map Sigma.fst

/-- The tracked headers whose id an incoming section marks as completed without bringing their block. -/
def misdelivered (sync : SyncProtocol) (typeId : UInt8) (id : ModifierId) (data : Bytes) : List Bytes :=
  match ModifierType.fromByte typeId with
  | some .blockTransactions =>
      match BlockTransactions.parse sr interpreter data with
      | .error _ => []
      | .ok blockTxs =>
          if sync.contradictsHeader sr interpreter blockTxs then []
          else (mappedTo sync.headerChain id).filter (· ≠ blockTxs.headerId.bytes)
  | some .extension => mappedTo sync.headerChain id
  | _ => []

/-- The headers that become tracked although their id counts as completed already. -/
def lateTracked (sync : SyncProtocol) (headers : List Header) : List Bytes :=
  (headers.filter fun header => transactionsId sr header ∈ sync.downloader.completed ∧
    sync.headerChain.getTxId header.id.bytes ≠ some (transactionsId sr header)).map (·.id.bytes)

/-- The header ids that an event puts into the completed set without their blocks. -/
def misfiled (sync : SyncProtocol) : SyncEvent → List Bytes
  | .modifierReceived typeId id data => misdelivered sr interpreter sync typeId id data
  | .requestBlocks headers => lateTracked sr sync headers
  | _ => []

/-- The blocks that depend on what the node does with its next command. -/
def AtStake (s : System) (rest : List SyncCommand) (headerId : Bytes) : Prop :=
  Awaited s.sync headerId ∧ ¬ Elsewhere s.node.state.db rest s.events headerId

instance (s : System) (rest : List SyncCommand) (headerId : Bytes) : Decidable (AtStake s rest headerId) :=
  inferInstanceAs (Decidable (_ ∧ _))

/-- Handling the command drops no block that is at stake. -/
def DropsNone (s : System) (parameters : Nat → ChainParameters) : SyncCommand → Prop
  | .applyBlock blockId blockData =>
      ∀ headerId ∈ dropped sr interpreter parameters s.node ⟨blockId, blockData⟩,
        ¬ AtStake s s.commands.tail headerId

instance (s : System) (parameters : Nat → ChainParameters) :
    (command : SyncCommand) → Decidable (DropsNone sr interpreter s parameters command)
  | .applyBlock _ _ => inferInstanceAs (Decidable (∀ _ ∈ _, _))

/-- No section or request puts a header's id into the completed set while its block is nowhere, and no
command makes the node drop a block that is nowhere else. -/
def KeepsTrack (s : System) : System.Action → Prop
  | .storeHeader header => ∀ headerId ∈ lateTracked sr s.sync [header], Accounted s headerId
  | .handleEvent =>
      ∀ event ∈ s.events.head?, ∀ headerId ∈ misfiled sr interpreter s.sync event, Accounted s headerId
  | .handleCommand parameters =>
      ∀ command ∈ s.commands.head?, DropsNone sr interpreter s parameters command
  | _ => True

instance (s : System) : (action : System.Action) → Decidable (KeepsTrack sr interpreter s action)
  | .storeHeader _ => inferInstanceAs (Decidable (∀ _ ∈ _, _))
  | .handleEvent => inferInstanceAs (Decidable (∀ _ ∈ _, ∀ _ ∈ _, _))
  | .handleCommand _ => inferInstanceAs (Decidable (∀ _ ∈ _, _))
  | .receive .. | .dispatch .. | .fail .. | .storeHeadersBatch _ | .requestBlocks _ => .isTrue trivial

end Condition

/-! ### One step -/

section Step
variable {sr : SigmaRust} {interpreter : Interpreter} {s t : System} {headerId : Bytes}

theorem mem_mappedTo {chain : HeaderChain} {txId : ModifierId}
    (tracked : chain.getTxId headerId = some txId) : headerId ∈ mappedTo chain txId := by
  have entry := AList.mem_lookup_iff.mp tracked
  exact List.mem_map.mpr ⟨_, List.mem_filter.mpr ⟨entry, by simp⟩, rfl⟩

theorem mem_lateTracked {sync : SyncProtocol} {headers : List Header} {header : Header}
    (member : header ∈ headers) (completed : transactionsId sr header ∈ sync.downloader.completed)
    (untracked : sync.headerChain.getTxId header.id.bytes ≠ some (transactionsId sr header)) :
    header.id.bytes ∈ lateTracked sr sync headers :=
  List.mem_map.mpr ⟨header, List.mem_filter.mpr ⟨member, by simp [completed, untracked]⟩, rfl⟩

theorem awaited_storeHeader {sync : SyncProtocol} {header : Header}
    (awaited : Awaited (sync.storeHeader sr header) headerId) :
    Awaited sync headerId ∨ headerId ∈ lateTracked sr sync [header] := by
  unfold SyncProtocol.storeHeader at awaited
  obtain ⟨txId, tracked, completed⟩ := awaited
  rw [Option.mem_def] at tracked
  unfold HeaderChain.addHeader at tracked
  dsimp only at tracked
  have tracked := getTxId_enforceLimits tracked
  rw [getTxId_trackHeader] at tracked
  by_cases before : sync.headerChain.getTxId headerId = some txId
  · exact .inl ⟨txId, before, completed⟩
  · split at tracked
    · next same =>
        cases tracked
        subst same
        exact .inr (mem_lateTracked (List.mem_singleton_self _) completed before)
    · exact absurd tracked before

theorem awaited_onRequestBlocks {sync : SyncProtocol} {headers : List Header}
    (awaited : Awaited (sync.onRequestBlocks sr headers) headerId) :
    Awaited sync headerId ∨ headerId ∈ lateTracked sr sync headers := by
  obtain ⟨txId, tracked, completed⟩ := awaited
  rw [SyncProtocol.onRequestBlocks, BlockDownloader.completed_queue] at completed
  by_cases before : sync.headerChain.getTxId headerId = some txId
  · exact .inl ⟨txId, before, completed⟩
  · rcases getTxId_foldl_trackRequested tracked with old | ⟨header, member, rfl, rfl⟩
    · exact absurd old before
    · exact .inr (mem_lateTracked member completed before)

/-- An incoming section makes only headers awaited that it brings the block of, or that it is
misdelivered under. -/
theorem awaited_onModifier {sync : SyncProtocol} {typeId : UInt8} {id : ModifierId} {data : Bytes}
    (awaited : Awaited (sync.onModifier sr interpreter typeId id data).1 headerId) :
    Awaited sync headerId ∨ headerId ∈ misdelivered sr interpreter sync typeId id data ∨
      Commanded (sync.onModifier sr interpreter typeId id data).2 headerId := by
  unfold SyncProtocol.onModifier at awaited ⊢
  unfold misdelivered
  obtain ⟨txId, tracked, completed⟩ := awaited
  split at tracked
  · next type =>
      simp only [type] at completed ⊢
      unfold SyncProtocol.onBlockReceived at tracked completed ⊢
      cases parsed : BlockTransactions.parse sr interpreter data with
      | error e =>
          simp only [parsed, BlockDownloader.completed_fail] at tracked completed
          exact .inl ⟨txId, tracked, completed⟩
      | ok blockTxs =>
          simp only [parsed] at tracked completed ⊢
          split at tracked
          · next contradicts =>
              rw [if_pos contradicts, BlockDownloader.completed_fail] at completed
              exact .inl ⟨txId, tracked, completed⟩
          · next agrees =>
              rw [if_neg agrees] at completed
              rw [if_neg agrees, if_neg agrees]
              rcases BlockDownloader.mem_completed_complete completed with rfl | old
              · by_cases own : headerId = blockTxs.headerId.bytes
                · exact .inr (.inr ⟨data, by rw [own]; exact List.mem_singleton_self _⟩)
                · exact .inr (.inl (List.mem_filter.mpr ⟨mem_mappedTo tracked, by simp [own]⟩))
              · exact .inl ⟨txId, tracked, old⟩
  · next type =>
      simp only [type] at completed ⊢
      rcases BlockDownloader.mem_completed_complete completed with rfl | old
      · exact .inr (.inl (mem_mappedTo tracked))
      · exact .inl ⟨txId, tracked, old⟩
  · next other section_ =>
      split at completed
      · next type => exact absurd type other
      · next type => exact absurd type section_
      · exact .inl ⟨txId, tracked, completed⟩

theorem awaited_onBlockApplied {sync : SyncProtocol} {blockId : Bytes}
    (awaited : Awaited (sync.onBlockApplied blockId) headerId) :
    Awaited sync headerId ∧ headerId ≠ blockId := by
  obtain ⟨txId, tracked, completed⟩ := awaited
  have kept := getTxId_removeHeader tracked
  refine ⟨⟨txId, kept.2, ?_⟩, kept.1⟩
  have completed := (BlockDownloader.mem_completed_uncomplete.mp completed).2
  split at completed
  · exact (BlockDownloader.mem_completed_uncomplete.mp completed).2
  · exact completed

theorem awaited_onBlockFailed {sync : SyncProtocol} {blockId : Bytes}
    (awaited : Awaited (sync.onBlockFailed blockId) headerId) :
    Awaited sync headerId ∧ headerId ≠ blockId := by
  obtain ⟨txId, tracked, completed⟩ := awaited
  change sync.headerChain.getTxId headerId = some txId at tracked
  dsimp only [SyncProtocol.onBlockFailed] at completed
  split at completed
  · next known =>
      obtain ⟨different, completed⟩ := BlockDownloader.mem_completed_uncomplete.mp completed
      refine ⟨⟨txId, tracked, (BlockDownloader.mem_completed_uncomplete.mp completed).2⟩, ?_⟩
      rintro rfl
      rw [tracked, Option.some.injEq] at known
      exact different known
  · next missing =>
      refine ⟨⟨txId, tracked, (BlockDownloader.mem_completed_uncomplete.mp completed).2⟩, ?_⟩
      rintro rfl
      rw [tracked] at missing
      cases missing

/-- Handling an event makes only the misfiled headers awaited, and those that get a command; what it
reports is not awaited afterwards. -/
theorem awaited_handleEvent {sync : SyncProtocol} {event : SyncEvent}
    (awaited : Awaited (sync.handleEvent sr interpreter event).1 headerId) :
    (Awaited sync headerId ∧ reportOf event ≠ some headerId) ∨
      headerId ∈ misfiled sr interpreter sync event ∨
      Commanded (sync.handleEvent sr interpreter event).2 headerId := by
  cases event with
  | modifierReceived typeId id data =>
      exact (awaited_onModifier awaited).imp_left fun old => ⟨old, by simp [reportOf]⟩
  | blockApplied blockId height =>
      obtain ⟨old, different⟩ := awaited_onBlockApplied awaited
      exact .inl ⟨old, by simpa [reportOf] using different.symm⟩
  | blockFailed blockId =>
      obtain ⟨old, different⟩ := awaited_onBlockFailed awaited
      exact .inl ⟨old, by simpa [reportOf] using different.symm⟩
  | requestBlocks headers =>
      rcases awaited_onRequestBlocks awaited with old | late
      · exact .inl ⟨old, by simp [reportOf]⟩
      · exact .inr (.inl late)

theorem Commanded.append_right {commands : List SyncCommand} (commanded : Commanded commands headerId)
    (more : List SyncCommand) : Commanded (commands ++ more) headerId :=
  commanded.imp fun _ member => List.mem_append_left _ member

theorem Commanded.append_left {commands : List SyncCommand} (commanded : Commanded commands headerId)
    (earlier : List SyncCommand) : Commanded (earlier ++ commands) headerId :=
  commanded.imp fun _ member => List.mem_append_right _ member

theorem Accounted.withSync (accounted : Accounted s headerId) (sync : SyncProtocol) :
    Accounted { s with sync } headerId := accounted

theorem Accounted.moreEvents (accounted : Accounted s headerId) (events : List SyncEvent) :
    Accounted { s with events := s.events ++ events } headerId := by
  rcases accounted with (applied | commanded | reported) | buffered
  · exact .inl (.inl applied)
  · exact .inl (.inr (.inl commanded))
  · exact .inl (.inr (.inr (reported.append_right events)))
  · exact .inr buffered

theorem Accounted.afterEvent {event : SyncEvent} {events : List SyncEvent}
    (accounted : Accounted { s with events := event :: events } headerId)
    (different : reportOf event ≠ some headerId) (sync : SyncProtocol) (commands : List SyncCommand) :
    Accounted { s with sync, events, commands := s.commands ++ commands } headerId := by
  rcases accounted with (applied | commanded | ⟨report, member, about⟩) | buffered
  · exact .inl (.inl applied)
  · exact .inl (.inr (.inl (commanded.append_right commands)))
  · rcases List.mem_cons.mp member with rfl | later
    · exact absurd about different
    · exact .inl (.inr (.inr ⟨report, later, about⟩))
  · exact .inr buffered

theorem noBlockLost_handleEvent (inv : NoBlockLost s)
    (keeps : KeepsTrack sr interpreter s .handleEvent)
    (taken : s.step sr interpreter .handleEvent = some t) : NoBlockLost t := by
  obtain ⟨sync, node, commands, events⟩ := s
  cases events with
  | nil => cases taken
  | cons event events =>
      cases taken
      intro headerId awaited
      have keeps := keeps event rfl
      rcases awaited_handleEvent awaited with ⟨old, different⟩ | misfiled | commanded
      · exact (inv headerId old).afterEvent (s := ⟨sync, node, commands, []⟩) different _ _
      · -- a misfiled header was accounted for, and is not reported by this event
        have accounted := keeps headerId misfiled
        refine accounted.afterEvent (s := ⟨sync, node, commands, []⟩) ?_ _ _
        cases event <;> simp_all [reportOf, Sync.misfiled]
      · exact .inl (.inr (.inl (commanded.append_left commands)))

theorem noBlockLost_handleCommand {parameters : Nat → ChainParameters} (inv : NoBlockLost s)
    (keeps : KeepsTrack sr interpreter s (.handleCommand parameters))
    (taken : s.step sr interpreter (.handleCommand parameters) = some t) : NoBlockLost t := by
  obtain ⟨sync, node, commands, events⟩ := s
  cases commands with
  | nil => cases taken
  | cons command commands =>
      obtain ⟨blockId, blockData⟩ := command
      cases taken
      intro headerId awaited
      have keeps := keeps _ rfl headerId
      by_cases elsewhere : Elsewhere node.state.db commands events headerId
      · rcases elsewhere with applied | commanded | reported
        · exact .inl (.inl (applied_applyBlock applied))
        · exact .inl (.inr (.inl commanded))
        · exact .inl (.inr (.inr (reported.append_right _)))
      · -- the block is in this command or in the buffer
        have kept : headerId ∉ dropped sr interpreter parameters node ⟨blockId, blockData⟩ :=
          fun member => keeps member ⟨awaited, elsewhere⟩
        have held : headerId = blockId ∨ Buffered node.pendingBlocks headerId := by
          rcases inv headerId awaited with (applied | ⟨data, member⟩ | reported) | buffered
          · exact absurd (.inl applied) elsewhere
          · rcases List.mem_cons.mp member with same | later
            · cases same
              exact .inl rfl
            · exact absurd (.inr (.inl ⟨data, later⟩)) elsewhere
          · exact absurd (.inr (.inr reported)) elsewhere
          · exact .inr buffered
        rcases applyBlock_keeps held kept with buffered | reported
        · exact .inr buffered
        · exact .inl (.inr (.inr (reported.append_left events)))

theorem noBlockLost_step {action : System.Action} (inv : NoBlockLost s)
    (keeps : KeepsTrack sr interpreter s action) (taken : s.step sr interpreter action = some t) :
    NoBlockLost t := by
  cases action with
  | receive typeId id data =>
      cases taken
      exact fun headerId awaited => (inv headerId awaited).moreEvents _
  | storeHeader header =>
      cases taken
      intro headerId awaited
      refine Accounted.withSync (s := s) ?_ _
      rcases awaited_storeHeader awaited with old | late
      · exact inv headerId old
      · exact keeps headerId late
  | dispatch id peer =>
      cases taken
      exact inv
  | fail id peer =>
      cases taken
      rintro headerId ⟨txId, tracked, completed⟩
      exact inv headerId ⟨txId, tracked, by simpa using completed⟩
  | handleEvent => exact noBlockLost_handleEvent inv keeps taken
  | storeHeadersBatch headers =>
      cases taken
      intro headerId awaited
      rcases inv headerId awaited with (applied | queued) | buffered
      · exact .inl (.inl (applied_storeHeadersBatch headers applied))
      · exact .inl (.inr queued)
      · exact .inr buffered
  | requestBlocks count =>
      cases taken
      exact fun headerId awaited => (inv headerId awaited).moreEvents _
  | handleCommand parameters => exact noBlockLost_handleCommand inv keeps taken

/-- A run from a fresh protocol that keeps track of its blocks loses none of them. -/
theorem noBlockLost_run (sr : SigmaRust) (interpreter : Interpreter) (state : StateManager)
    {actions : List System.Action}
    (keeps : Along (System.step sr interpreter) (KeepsTrack sr interpreter) (.new state) actions) :
    Always (System.step sr interpreter) NoBlockLost (.new state) actions :=
  keeps.invariant NoBlockLost noBlockLost_step (noBlockLost_new state)

end Step

/-! ### Two blocks in the wrong order -/

section Sample
open Sample Validation

def header1 : Header := sampleHeader 1 0 1 easyBits
def header2 : Header := sampleHeader 2 1 2 easyBits

def syncTxs : List Transaction :=
  [spendTx 1 2, { spendTx 1 3 with inputs := [⟨.filled 1, [], []⟩, ⟨.filled 1, [], []⟩] }]

/-- A section's id is made from its type and the header's id. -/
def syncCodec : SigmaRust :=
  let byPlace := codec (List.map sampleBox [1, 2, 3]) [header1, header2] syncTxs
  { byPlace with
    blake2b256 := fun bytes =>
      match bytes with
      | typeId :: id :: _ => if bytes.length = 65 then .filled (typeId + id) else byPlace.blake2b256 bytes
      | _ => byPlace.blake2b256 bytes }

def sectionOf (header : Header) (place : Nat) : Bytes :=
  header.id.bytes ++ 1 :: List.replicate place 0

def delivery (header : Header) (place : Nat) : System.Action :=
  .receive ModifierType.blockTransactions.toByte (transactionsId syncCodec header)
    (sectionOf header place)

/-- Both headers are stored and their blocks asked for; the second block comes first. -/
def outOfOrder (place : Nat) : List System.Action :=
  let parameters : Nat → ChainParameters := fun _ => ⟨1000000⟩
  [.storeHeadersBatch [(header1, []), (header2, [0])], .requestBlocks 2, .handleEvent,
    delivery header2 place, .handleEvent, .handleCommand parameters,
    delivery header1 0, .handleEvent, .handleCommand parameters]

def afterRun (place : Nat) : Option System :=
  run (System.step syncCodec sampleInterpreter) (.new (.new .empty)) (outOfOrder place)

theorem outOfOrder_noBlockLost :
    Always (System.step syncCodec sampleInterpreter) NoBlockLost (.new (.new .empty)) (outOfOrder 0) ∧
      (afterRun 0).map (·.node.state.utxo.height) = some 2 :=
  ⟨noBlockLost_run syncCodec sampleInterpreter (.new .empty) (by decide +kernel), by decide +kernel⟩

/-- The second block is invalid: the first one, which waits for its write, is let go without a report. -/
theorem outOfOrder_lost :
    ¬ Always (System.step syncCodec sampleInterpreter) NoBlockLost (.new (.new .empty)) (outOfOrder 1) := by
  intro kept
  have lost : (afterRun 1).map (fun s => decide
      (Awaited s.sync header1.id.bytes ∧ ¬ Accounted s header1.id.bytes)) = some true := by
    decide +kernel
  obtain ⟨s, ran, shown⟩ := Option.map_eq_some_iff.mp lost
  obtain ⟨awaited, unaccounted⟩ := of_decide_eq_true shown
  exact unaccounted (kept s ⟨outOfOrder 1, List.prefix_rfl, ran⟩ _ awaited)

end Sample

end ErgoNode.Proof.Sync
