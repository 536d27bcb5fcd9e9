import ErgoNode.Proof.Manager.Extensions
import ErgoNode.Proof.Manager.Replay

/-!
# Delivered extensions

No delivery changes the parameters of a running node. A restart reads them from what the last accepted
delivery, or the last application of the block, has left at each boundary, so that a later forged extension
replaces a genuine one.
-/

namespace ErgoNode.Proof.Manager
open Lib StateManager VotedState VotedParameters

variable {sr : SigmaRust} {s t : VotedState} {a : VotedState.Action} {actions : List VotedState.Action} {id : BlockId}

/-! ### Accepted extensions -/

/-- The extensions that a step stores: a delivered one, or the empty ones of the blocks it applies. -/
def accepts (sr : SigmaRust) (s : VotedState) : VotedState.Action → List Extension
  | .storeExtension extensionData =>
      match (s.storeExtension extensionData).1, Extension.parse extensionData with
      | .ok _, .ok extension => [extension]
      | _, _ => []
  | .applyBatch downloaded =>
      match downloaded.mapM (assemble sr s.manager.db) with
      | some blocks =>
          match (s.applyBatch sr blocks).1 with
          | .ok _ => downloaded.map fun block => Extension.empty (blockIdOf block.blockId)
          | .error _ => []
      | none => []
  | .storeHeadersBatch _ => []

def acceptedAlong (sr : SigmaRust) : VotedState → List VotedState.Action → List Extension
  | _, [] => []
  | s, a :: rest => accepts sr s a ++ (match VotedState.step sr s a with
      | some t => acceptedAlong sr t rest
      | none => [])

def lastFor (id : BlockId) (extensions : List Extension) : Option Extension :=
  (extensions.filter (·.headerId = id)).getLast?

theorem lastFor_append (id : BlockId) (earlier later : List Extension) :
    lastFor id (earlier ++ later) = (lastFor id later).or (lastFor id earlier) := by
  rw [lastFor, List.filter_append, List.getLast?_append]
  rfl

theorem lastFor_eq_none {extensions : List Extension} (other : ∀ extension ∈ extensions, extension.headerId ≠ id) :
    lastFor id extensions = none := by
  rw [lastFor, List.getLast?_eq_none_iff, List.filter_eq_nil_iff]
  simpa using other

theorem lastFor_eq_some {extensions : List Extension} {extension : Extension}
    (same : ∀ other ∈ extensions, other.headerId = id → other = extension)
    (member : extension ∈ extensions) (own : extension.headerId = id) : lastFor id extensions = some extension := by
  cases last : lastFor id extensions with
  | none =>
      rw [lastFor, List.getLast?_eq_none_iff, List.filter_eq_nil_iff] at last
      exact absurd own (by simpa using last extension member)
  | some other =>
      have inFilter := List.mem_of_getLast? last
      rw [List.mem_filter, decide_eq_true_iff] at inFilter
      rw [same other inFilter.1 inFilter.2]

def leftFor (s : VotedState) (id : BlockId) (extensions : List Extension) : Option Bytes :=
  ((lastFor id extensions).map BlockStore.serializeExtension).or (s.manager.db.get .extensions id)

theorem leftFor_of_apart {extensions : List Extension} (other : ∀ extension ∈ extensions, extension.headerId ≠ id) :
    leftFor s id extensions = s.manager.db.get .extensions id := by
  rw [leftFor, lastFor_eq_none other]
  rfl

theorem leftFor_of_last {extensions : List Extension} {extension : Extension}
    (last : lastFor id extensions = some extension) :
    leftFor s id extensions = some (BlockStore.serializeExtension extension) := by
  rw [leftFor, last]
  rfl

theorem leftFor_storeExtension (sr : SigmaRust) (s : VotedState) (id : BlockId) (extensionData : Bytes) :
    (s.storeExtension extensionData).2.manager.db.get .extensions id =
      leftFor s id (accepts sr s (.storeExtension extensionData)) := by
  cases parsed : Extension.parse extensionData with
  | error error =>
      have nothing : accepts sr s (.storeExtension extensionData) = [] := by simp [accepts, parsed]
      rw [nothing, leftFor_of_apart (List.forall_mem_nil _), storeExtension, parsed]
  | ok extension =>
      rcases wrote : (BlockStore.putExtension extension).exec s.manager.db with ⟨error | done, db⟩
      · have nothing : accepts sr s (.storeExtension extensionData) = [] := by
          simp [accepts, storeExtension, parsed, wrote]
        rw [nothing, leftFor_of_apart (List.forall_mem_nil _)]
        simp only [storeExtension, parsed, wrote]
        rw [Database.get, Database.columns_of_writeBatch_error wrote]
        rfl
      · have one : accepts sr s (.storeExtension extensionData) = [extension] := by
          simp [accepts, storeExtension, parsed, wrote]
        have column := congrFun (columns_putExtension wrote) id
        rw [one]
        simp only [storeExtension, parsed, wrote]
        by_cases own : extension.headerId = id
        · have last : lastFor id [extension] = some extension := by simp [lastFor, own]
          rw [own, Function.update_self] at column
          rw [leftFor_of_last last]
          exact column
        · rw [Function.update_of_ne (Ne.symm own)] at column
          rw [leftFor_of_apart (List.forall_mem_singleton.mpr own)]
          exact column

theorem lastFor_empties {downloaded : List DownloadedBlock} (named : Named id downloaded) :
    lastFor id (downloaded.map fun block => Extension.empty (blockIdOf block.blockId)) = some (Extension.empty id) := by
  obtain ⟨block, member, own⟩ := named
  refine lastFor_eq_some (fun other inMap same => ?_) (List.mem_map.mpr ⟨block, member, by rw [own]⟩) rfl
  obtain ⟨other, -, rfl⟩ := List.mem_map.mp inMap
  exact congrArg Extension.empty same

theorem leftFor_applyBatch {downloaded : List DownloadedBlock} {blocks : List (FullBlock × StateChange)}
    (assembled : downloaded.mapM (assemble sr s.manager.db) = some blocks) :
    (s.applyBatch sr blocks).2.manager.db.get .extensions id = leftFor s id (accepts sr s (.applyBatch downloaded)) := by
  rcases done : (applyBlocksBatched sr blocks).exec s.manager with ⟨error | selection, after⟩
  · have nothing : accepts sr s (.applyBatch downloaded) = [] := by simp [accepts, assembled, applyBatch, done]
    rw [nothing, leftFor_of_apart (List.forall_mem_nil _)]
    simp only [applyBatch, done]
    rw [Database.get, (applyBlocksBatched_eq_error done).1]
    rfl
  · have empties : accepts sr s (.applyBatch downloaded) =
        downloaded.map fun block => Extension.empty (blockIdOf block.blockId) := by
      simp [accepts, assembled, applyBatch, done]
    rw [empties]
    simp only [applyBatch, done]
    by_cases named : Named id downloaded
    · rw [leftFor_of_last (lastFor_empties named)]
      exact extensions_applied assembled done named
    · rw [leftFor_of_apart]
      · exact extensions_applied_of_not_named assembled done named
      · intro extension member own
        obtain ⟨block, inDownloaded, rfl⟩ := List.mem_map.mp member
        exact named ⟨block, inDownloaded, own⟩

theorem leftFor_step (taken : VotedState.step sr s a = some t) :
    t.manager.db.get .extensions id = leftFor s id (accepts sr s a) := by
  cases a with
  | storeExtension extensionData =>
      cases taken
      exact leftFor_storeExtension sr s id extensionData
  | applyBatch downloaded =>
      obtain ⟨blocks, assembled, rfl⟩ := Option.map_eq_some_iff.mp taken
      exact leftFor_applyBatch assembled
  | storeHeadersBatch headers =>
      have apart : ¬ Concerns id (.storeHeadersBatch headers) := not_false
      rw [accepts, leftFor_of_apart (List.forall_mem_nil _)]
      exact extensions_kept apart taken

theorem leftFor_run (ran : run (VotedState.step sr) s actions = some t) :
    t.manager.db.get .extensions id = leftFor s id (acceptedAlong sr s actions) := by
  induction actions generalizing s with
  | nil =>
      cases ran
      rfl
  | cons a rest ih =>
      rw [run_cons_eq_some] at ran
      obtain ⟨next, taken, later⟩ := ran
      rw [ih later, acceptedAlong, taken, leftFor, leftFor, lastFor_append, leftFor_step taken, leftFor]
      cases lastFor id (acceptedAlong sr next rest) <;> rfl

/-! ### The votes that a restart reads -/

def bodyStored (sr : SigmaRust) (db : Database) (id : BlockId) : Bool :=
  (HeaderStore.get sr db id).toOption.join.isSome && (BlockStore.getTransactions sr db id).toOption.join.isSome

/-- The block that the index has at a boundary, where its header and its transactions can be read. -/
def bodyAt (sr : SigmaRust) (db : Database) (epoch : Nat) : Option BlockId :=
  ((HeaderStore.getByHeight sr db epoch).toOption.join.map (·.id)).filter (bodyStored sr db)

def votesOf (id : BlockId) (bytes : Bytes) : Option Extension.ParameterTable :=
  (BlockStore.deserializeExtension id bytes).toOption.bind votesIn

theorem storedExtension_votes (sr : SigmaRust) (db : Database) (id : BlockId) : (storedExtension sr db id).bind votesIn =
    if bodyStored sr db id then (db.get .extensions id).bind (votesOf id) else none := by
  unfold storedExtension History.getFullBlock bodyStored
  rcases HeaderStore.get sr db id with error | _ | header
  · rfl
  · rfl
  · dsimp only [bind, Except.bind]
    rcases BlockStore.getTransactions sr db id with error | _ | transactions
    · rfl
    · rfl
    · unfold BlockStore.getExtension votesOf
      cases db.get .extensions id with
      | none => rfl
      | some bytes =>
          dsimp only [Option.bind]
          rcases BlockStore.deserializeExtension id bytes with error | extension
          · rfl
          · rfl

theorem votesAt_eq {db : Database} {epoch : Nat} : votesAt sr db epoch =
    (bodyAt sr db epoch).bind fun id => (db.get .extensions id).bind (votesOf id) := by
  unfold votesAt bodyAt
  rcases HeaderStore.getByHeight sr db epoch with error | _ | header
  · rfl
  · rfl
  · change (storedExtension sr db header.id).bind votesIn = ((some header.id).filter (bodyStored sr db)).bind _
    rw [storedExtension_votes, Option.filter_some]
    split <;> rfl

structure SameChain (db other : Database) : Prop where
  headers : other.columns.column .headers = db.columns.column .headers
  chain : other.columns.column .headerChain = db.columns.column .headerChain
  transactions : other.columns.column .blockTransactions = db.columns.column .blockTransactions
  boxes : other.columns.column .utxo = db.columns.column .utxo
  height : other.get .metadata .utxoHeight = db.get .metadata .utxoHeight

section Same
variable {db other : Database} (same : SameChain db other)
include same

theorem SameChain.getByHeight (height : Nat) :
    HeaderStore.getByHeight sr other height = HeaderStore.getByHeight sr db height :=
  getByHeight_congr same.headers same.chain height

theorem SameChain.getTransactions (id : BlockId) :
    BlockStore.getTransactions sr other id = BlockStore.getTransactions sr db id := by
  have stored : other.get .blockTransactions id = db.get .blockTransactions id := congrFun same.transactions id
  rw [BlockStore.getTransactions, BlockStore.getTransactions, stored]

theorem SameChain.bodyAt (epoch : Nat) : bodyAt sr other epoch = bodyAt sr db epoch := by
  have header (id : BlockId) : HeaderStore.get sr other id = HeaderStore.get sr db id := by
    have stored : other.get .headers id = db.get .headers id := congrFun same.headers id
    rw [HeaderStore.get, HeaderStore.get, stored]
  have stored : bodyStored sr other = bodyStored sr db := by
    funext id
    rw [bodyStored, header, same.getTransactions, bodyStored]
  rw [Manager.bodyAt, same.getByHeight, stored, Manager.bodyAt]

theorem SameChain.foundAny (outputs : List ErgoBox) : foundAny sr other outputs = foundAny sr db outputs := by
  have box (id : BoxId) : UtxoState.getBox sr other id = UtxoState.getBox sr db id := by
    have stored : other.get .utxo id = db.get .utxo id := congrFun same.boxes id
    rw [UtxoState.getBox, UtxoState.getBox, stored]
  induction outputs with
  | nil => rfl
  | cons output rest ih => rw [StateManager.foundAny, StateManager.foundAny, box, ih]

theorem SameChain.lastGoodHeight (heights : List Nat) : lastGoodHeight sr other heights = lastGoodHeight sr db heights := by
  have check (height : Nat) : checkHeight sr other height = checkHeight sr db height := by
    unfold checkHeight
    simp only [same.getByHeight, same.getTransactions, same.foundAny]
  induction heights with
  | nil => rfl
  | cons height rest ih => rw [StateManager.lastGoodHeight, StateManager.lastGoodHeight, check, ih]

end Same

def recoveredHeight (utxoHeight : Nat) : Option Nat → Nat
  | some good => if good < utxoHeight then good - 10 else utxoHeight
  | none => 1

theorem checkAndRecover_height {st after : StateManager}
    (done : (checkAndRecoverUtxoState sr).exec st = (.ok (), after)) :
    st.utxo.height = 0 ∧ after.utxo.height = 0 ∨ st.utxo.height ≠ 0 ∧ ∃ good,
      lastGoodHeight sr st.db (sampledHeights st.utxo.height) = .ok good ∧
      after.utxo.height = recoveredHeight st.utxo.height good := by
  unfold checkAndRecoverUtxoState at done
  rw [Op.exec_bind_of_ok (Op.exec_get st), Op.exec_ite] at done
  split at done
  · next fresh =>
      cases done
      exact .inl ⟨fresh, fresh⟩
  · next positive =>
      refine .inr ⟨positive, ?_⟩
      rw [Op.exec_bind_eq_ok] at done
      obtain ⟨good, middle, found, done⟩ := done
      rw [Op.exec_ofExcept, Prod.mk.injEq] at found
      obtain ⟨found, rfl⟩ := found
      refine ⟨good, found, ?_⟩
      cases good with
      | none => exact congrArg UtxoState.height (rollbackTo_eq_ok done).2.1
      | some good =>
          dsimp only at done
          rw [Op.exec_ite] at done
          rw [recoveredHeight]
          split at done
          · next low =>
              rw [if_pos low]
              exact congrArg UtxoState.height (rollbackTo_eq_ok done).2.1
          · next high =>
              cases done
              rw [if_neg high]

theorem SameChain.recovered {db other : Database} (same : SameChain db other) {after after' : StateManager}
    (done : (checkAndRecoverUtxoState sr).exec (loaded db) = (.ok (), after))
    (done' : (checkAndRecoverUtxoState sr).exec (loaded other) = (.ok (), after')) :
    after'.utxo.height = after.utxo.height := by
  have height : (loaded other).utxo.height = (loaded db).utxo.height := by
    simp only [loaded, UtxoState.initFromStorage, same.height]
  rcases checkAndRecover_height done with ⟨fresh, low⟩ | ⟨positive, good, found, high⟩
  · rcases checkAndRecover_height done' with ⟨-, low'⟩ | ⟨positive', -⟩
    · exact low'.trans low.symm
    · exact absurd (height.trans fresh) positive'
  · rcases checkAndRecover_height done' with ⟨fresh', -⟩ | ⟨-, good', found', high'⟩
    · exact absurd (height.symm.trans fresh') positive
    · rw [height] at found'
      cases found.symm.trans ((same.lastGoodHeight _).symm.trans found')
      rw [high, high', height]

/-! ### Two runs -/

inductive PeerEvent where
  | extension (id : ModifierId) (data : Bytes)
  | applyBatch (downloaded : List DownloadedBlock)
  | storeHeadersBatch (headers : List (Header × Bytes))

def PeerEvent.commands : PeerEvent → List VotedState.Action
  | .extension id data => onExtensionReceived id data
  | .applyBatch downloaded => [.applyBatch downloaded]
  | .storeHeadersBatch headers => [.storeHeadersBatch headers]

abbrev commandsOf (events : List PeerEvent) : List VotedState.Action := events.flatMap PeerEvent.commands

/-- The votes at the boundaries of a chain, by the extension that was accepted last for each. -/
def votesLeft (sr : SigmaRust) (db : Database) (s : VotedState) (extensions : List Extension) : Votes := fun epoch =>
  (bodyAt sr db epoch).bind fun id => (leftFor s id extensions).bind (votesOf id)

theorem votesAt_run (ran : run (VotedState.step sr) s actions = some t) :
    votesAt sr t.manager.db = votesLeft sr t.manager.db s (acceptedAlong sr s actions) := by
  funext epoch
  rw [votesAt_eq, votesLeft]
  refine congrArg _ (funext fun id => ?_)
  rw [leftFor_run ran]

theorem parameters_run (reads : Along (VotedState.step sr) (StepReadsBack sr) s actions)
    (ran : run (VotedState.step sr) s actions = some t) : t.getParameters = s.getParameters := by
  refine reads.invariant (fun u => u.getParameters = s.getParameters) ?_ rfl t ⟨actions, List.prefix_rfl, ran⟩
  intro u a v same reads taken
  exact (parameters_kept reads taken).trans same

theorem start_parameters {db : Database} {blocksToKeep : Int} {node : ParameterNode}
    (started : ParameterNode.start sr blocksToKeep db = some node) :
    node.voted.getParameters = initFromStorage sr db node.height ∧
      (checkAndRecoverUtxoState sr).exec (loaded db) = (.ok (), node.voted.manager) := by
  have sections := @sections_checkAndRecover sr (loaded db)
  unfold Op.Ends at sections
  rw [ParameterNode.start] at started
  rcases ran : (checkAndRecoverUtxoState sr).exec (loaded db) with ⟨error | _, manager⟩
  · rw [ran] at started
    cases started
  · rw [ran] at sections started
    cases started
    exact ⟨initFromStorage_of_same sections.1 _, rfl⟩

section Runs
variable {events events' : List PeerEvent} {t' : VotedState} {node node' : ParameterNode} {blocksToKeep : Int}

/-- Until a restart the deliveries change nothing. After it the parameters are the same exactly when the
extensions that were accepted last have the same votes. -/
theorem deliveries_iff
    (ran : run (VotedState.step sr) s (commandsOf events) = some t)
    (ran' : run (VotedState.step sr) s (commandsOf events') = some t')
    (reads : Along (VotedState.step sr) (StepReadsBack sr) s (commandsOf events))
    (reads' : Along (VotedState.step sr) (StepReadsBack sr) s (commandsOf events'))
    (same : SameChain t.manager.db t'.manager.db)
    (restarted : ParameterNode.start sr blocksToKeep t.manager.db = some node)
    (restarted' : ParameterNode.start sr blocksToKeep t'.manager.db = some node') :
    t.getParameters = t'.getParameters ∧ (node.voted.getParameters = node'.voted.getParameters ↔
      SameVotes (votesLeft sr t.manager.db s (acceptedAlong sr s (commandsOf events)))
        (votesLeft sr t.manager.db s (acceptedAlong sr s (commandsOf events'))) node.height) := by
  refine ⟨(parameters_run reads ran).trans (parameters_run reads' ran').symm, ?_⟩
  obtain ⟨parameters, recovered⟩ := start_parameters restarted
  obtain ⟨parameters', recovered'⟩ := start_parameters restarted'
  have height : node'.height = node.height := same.recovered recovered recovered'
  have votes' : votesAt sr t'.manager.db = votesLeft sr t.manager.db s (acceptedAlong sr s (commandsOf events')) := by
    rw [votesAt_run ran']
    funext epoch
    rw [votesLeft, same.bodyAt, votesLeft]
  rw [parameters, parameters', height, initFromStorage_eq, initFromStorage_eq, replay_eq_iff_sameVotes, votesAt_run ran, votes']

end Runs

/-! ### A forged extension after the genuine one -/

theorem SameChain.refl (db : Database) : SameChain db db := ⟨rfl, rfl, rfl, rfl, rfl⟩

theorem SameChain.symm {db other : Database} (same : SameChain db other) : SameChain other db :=
  ⟨same.headers.symm, same.chain.symm, same.transactions.symm, same.boxes.symm, same.height.symm⟩

theorem column_storeExtension {cf : ColumnFamily} (other : .extensions ≠ cf) (extensionData : Bytes) :
    (s.storeExtension extensionData).2.manager.db.columns.column cf = s.manager.db.columns.column cf := by
  unfold VotedState.storeExtension
  cases Extension.parse extensionData with
  | error error => rfl
  | ok extension =>
      rcases wrote : (BlockStore.putExtension extension).exec s.manager.db with ⟨error | done, db⟩
      · simp only [wrote]
        rw [Database.columns_of_writeBatch_error wrote]
      · simp only [wrote]
        rw [Database.columns_of_writeBatch_ok wrote, Store.column_write]
        simp [BlockStore.putExtensionBatched, other]

theorem SameChain.storeExtension {db : Database} (same : SameChain db s.manager.db) (extensionData : Bytes) :
    SameChain db (s.storeExtension extensionData).2.manager.db where
  headers := (column_storeExtension (by decide) extensionData).trans same.headers
  chain := (column_storeExtension (by decide) extensionData).trans same.chain
  transactions := (column_storeExtension (by decide) extensionData).trans same.transactions
  boxes := (column_storeExtension (by decide) extensionData).trans same.boxes
  height := by
    have metadata := @column_storeExtension s .metadata (by decide) extensionData
    exact (congrFun metadata MetadataKey.utxoHeight).trans same.height

theorem sameVotes_of_last {db : Database} {extensions others : List Extension} {height : Nat}
    (same : ∀ id, lastFor id extensions = lastFor id others) :
    SameVotes (votesLeft sr db s extensions) (votesLeft sr db s others) height := by
  have left : votesLeft sr db s extensions = votesLeft sr db s others := by
    funext epoch
    simp only [votesLeft, leftFor, same]
  rw [left]
  exact ⟨rfl, fun _ _ => rfl⟩

section Samples
open Sample

def deliveryStart : VotedState :=
  ⟨loaded ⟨epochStored.columns.write (WriteBatch.put [] .headers header1024.id [0]), []⟩, .default⟩

def deliveredBlock : List DownloadedBlock := [⟨List.replicate 32 14, ⟨header1024.id, [epochTx 2], 1⟩, votedChange⟩]

def forgedData : Bytes := List.replicate 32 14 ++ [1, 0, 4, 4, 0, 0, 0, 1]

def forgedExtension : Extension := ⟨header1024.id, [⟨(0, 4), [0, 0, 0, 1]⟩]⟩

def genuineOnly : List PeerEvent := [.applyBatch deliveredBlock, .extension [] votesData]

def forgedFirst : List PeerEvent := [.applyBatch deliveredBlock, .extension [] forgedData, .extension [] votesData]

def forgedLast : List PeerEvent := [.applyBatch deliveredBlock, .extension [] votesData, .extension [] forgedData]

theorem delivery_readsBack (commands : List VotedState.Action)
    (rest : ∀ a ∈ commands, ∃ data, a = .storeExtension data) :
    Along (VotedState.step epochCodec) (StepReadsBack epochCodec) deliveryStart (.applyBatch deliveredBlock :: commands) := by
  refine along_cons.mpr ⟨fun block member header found => ?_, fun t _ before a prefixed _ _ => ?_⟩
  · obtain rfl := List.mem_singleton.mp member
    cases found
    exact ⟨by decide, by decide⟩
  · obtain ⟨data, rfl⟩ := rest a (prefixed.subset (by simp))
    trivial

theorem forgedFirst_same : ∃ t t' node node',
    run (VotedState.step epochCodec) deliveryStart (commandsOf genuineOnly) = some t ∧
    run (VotedState.step epochCodec) deliveryStart (commandsOf forgedFirst) = some t' ∧
    ParameterNode.start epochCodec (-1) t.manager.db = some node ∧
    ParameterNode.start epochCodec (-1) t'.manager.db = some node' ∧
    t.getParameters = t'.getParameters ∧ node.voted.getParameters = node'.voted.getParameters := by
  refine ⟨_, _, _, _, rfl, rfl, rfl, rfl, ?_⟩
  have whole := @deliveries_iff epochCodec deliveryStart _ genuineOnly forgedFirst _ _ _ (-1) rfl rfl
    (delivery_readsBack [.storeExtension votesData] (by simp))
    (delivery_readsBack [.storeExtension forgedData, .storeExtension votesData] (by simp)) ?_ rfl rfl
  · refine ⟨whole.1, whole.2.mpr (sameVotes_of_last fun id => ?_)⟩
    have once : acceptedAlong epochCodec deliveryStart (commandsOf genuineOnly) =
        [Extension.empty header1024.id, votesExtension] := rfl
    have twice : acceptedAlong epochCodec deliveryStart (commandsOf forgedFirst) =
        [Extension.empty header1024.id, forgedExtension, votesExtension] := rfl
    rw [once, twice]
    by_cases own : header1024.id = id
    · subst own
      rfl
    · rw [lastFor_eq_none, lastFor_eq_none]
      · exact List.forall_mem_cons.mpr ⟨own, List.forall_mem_cons.mpr ⟨own, List.forall_mem_singleton.mpr own⟩⟩
      · exact List.forall_mem_cons.mpr ⟨own, List.forall_mem_singleton.mpr own⟩
  · have back := (SameChain.storeExtension (s := (deliveryStart.applyBatch epochCodec
      [(⟨header1024, ⟨header1024.id, [epochTx 2], 1⟩, Extension.empty header1024.id, none⟩, votedChange)]).2)
      (.refl _) votesData).symm
    exact .storeExtension (.storeExtension back forgedData) votesData

/-- Both runs have received the genuine extension of the one boundary. -/
theorem forgedLast_differs : .extension [] votesData ∈ genuineOnly ∧ .extension [] votesData ∈ forgedLast ∧
    ∃ t t' node node',
    run (VotedState.step epochCodec) deliveryStart (commandsOf genuineOnly) = some t ∧
    run (VotedState.step epochCodec) deliveryStart (commandsOf forgedLast) = some t' ∧
    SameChain t.manager.db t'.manager.db ∧
    ParameterNode.start epochCodec (-1) t.manager.db = some node ∧
    ParameterNode.start epochCodec (-1) t'.manager.db = some node' ∧
    node.voted.getParameters ≠ node'.voted.getParameters := by
  refine ⟨by simp [genuineOnly], by simp [forgedLast], _, _, _, _, rfl, rfl, ?_, rfl, rfl, fun same => ?_⟩
  · exact .storeExtension (.refl _) forgedData
  · exact absurd (congrArg (·.maxBlockCost) same) (by decide)

end Samples

end ErgoNode.Proof.Manager
