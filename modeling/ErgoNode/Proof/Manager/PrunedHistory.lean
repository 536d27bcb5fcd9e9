import ErgoNode.Proof.Manager.Pruning

/-!
# What pruning keeps

Over every run of one chain the minimal height never falls, the bodies in the window of the last blocks stay
as they are, and no block below the minimal height has a body.
-/

namespace ErgoNode.Proof.Manager
open Lib HistoryPruning
open ErgoNode.Proof.History

/-! ### Runs -/

structure PrunedHistory where
  db : Database
  history : ErgoNode.History
  pruning : HistoryPruning

inductive PruningCall where
  | history (call : HistoryCall)
  | updateBestFullBlockPruning (header : Header)

namespace PrunedHistory

def start (faults : List Bool) (blocksToKeep : Int) : PrunedHistory :=
  ⟨⟨Database.empty.columns, faults⟩, .new, .withPruning blocksToKeep⟩

def historyView (node : PrunedHistory) : State := ⟨node.db, node.history⟩

def pruningView (node : PrunedHistory) : OnDatabase HistoryPruning := ⟨node.db, node.pruning⟩

def minimal (node : PrunedHistory) : Nat := node.pruning.minimalFullBlockHeight

def best (node : PrunedHistory) : Nat := node.history.bestFullBlockHeight

def step (sr : SigmaRust) (node : PrunedHistory) : PruningCall → Option PrunedHistory
  | .history call =>
      let view := ((call.exec sr).exec node.historyView).2
      some { node with db := view.db, history := view.mem }
  | .updateBestFullBlockPruning header =>
      let view := ((HistoryPruning.updateBestFullBlockPruning sr header).exec node.pruningView).2
      some { node with db := view.db, pruning := view.mem }

end PrunedHistory

namespace PruningCall

def Climbs (node : PrunedHistory) : HistoryCall → Prop
  | .header _ => True
  | .appendFullBlock block => node.best < block.height ∧ NamesItself block

def OnChain (table : HeaderTable) (chain : Nat → BlockId) (sr : SigmaRust) (node : PrunedHistory) : PruningCall → Prop
  | .history call => (∀ header ∈ call.headers, header.id = chain header.height) ∧
      StoresReadable table sr node.historyView call ∧ Climbs node call
  | .updateBestFullBlockPruning header => header.height = node.best

def Exact (node : PrunedHistory) : PruningCall → Prop
  | .history _ => True
  | .updateBestFullBlockPruning header => (node.pruning.checkedMinimalHeight header).overflowed = false

def Updates : PruningCall → Prop
  | .history _ => False
  | .updateBestFullBlockPruning _ => True

end PruningCall

/-- The bodies of the last blocks, up to the best one, are as they were. -/
def Retains (table : HeaderTable) (earlier later : PrunedHistory) : Prop :=
  ∀ id, bodyOf earlier.db id ≠ .absent → later.best < height table id + later.pruning.blocksToKeep.toNat →
    bodyOf later.db id = bodyOf earlier.db id

/-- No block of the chain below the minimal height has a body. -/
def RemovedBelow (table : HeaderTable) (node : PrunedHistory) : Prop :=
  ∀ id, bodyOf node.db id ≠ .absent → node.minimal ≤ height table id

structure PrunesRight (table : HeaderTable) (sr : SigmaRust) (node : PrunedHistory) (calls : List PruningCall) :
    Prop where
  exact : Along (PrunedHistory.step sr) PruningCall.Exact node calls
  rises : Onward (PrunedHistory.step sr) (fun earlier later => earlier.minimal ≤ later.minimal) node calls
  retains : Onward (PrunedHistory.step sr) (Retains table) node calls
  removes : node.db.faults = [] → Always (PrunedHistory.step sr) (RemovedBelow table) node calls

/-! ### What the calls preserve -/

/-- A block with a body is a stored block of the chain, up to the best one. -/
structure Bodied (table : HeaderTable) (db : Database) (best : Nat) (id : BlockId) : Prop where
  transactions : (bodyOf db id).transactions ≠ none
  header : stored db.columns id
  slot : slot db.columns (height table id) = some id
  positive : 0 < height table id
  low : height table id ≤ best

structure Pruned (table : HeaderTable) (chain : Nat → BlockId) (sr : SigmaRust) (blocksToKeep : Int)
    (node : PrunedHistory) : Prop where
  index : HeightIndex table sr node.db
  config : node.pruning.blocksToKeep = blocksToKeep
  slots : ∀ {h id}, slot node.db.columns h = some id → id = chain h
  bodies : ∀ {id}, bodyOf node.db id ≠ .absent → Bodied table node.db node.best id
  positive : 0 < node.minimal
  aligned : Aligned node.minimal
  window : node.minimal = 1 ∨ node.minimal + blocksToKeep.toNat ≤ node.best + 1

structure Advances (table : HeaderTable) (earlier later : PrunedHistory) : Prop where
  config : later.pruning.blocksToKeep = earlier.pruning.blocksToKeep
  best : earlier.best ≤ later.best
  minimal : earlier.minimal ≤ later.minimal
  retains : Retains table earlier later

section Calls
variable {table : HeaderTable} {chain : Nat → BlockId} {sr : SigmaRust} {blocksToKeep : Int}
variable {node next : PrunedHistory} {call : HistoryCall} {header : Header}

theorem Advances.refl (node : PrunedHistory) : Advances table node node :=
  ⟨rfl, Nat.le_refl _, Nat.le_refl _, fun _ _ _ => rfl⟩

theorem Advances.trans {first second third : PrunedHistory} (earlier : Advances table first second)
    (later : Advances table second third) : Advances table first third where
  config := later.config.trans earlier.config
  best := earlier.best.trans later.best
  minimal := earlier.minimal.trans later.minimal
  retains := by
    intro id here inWindow
    have before : second.best < height table id + second.pruning.blocksToKeep.toNat := by
      rw [← later.config]
      exact Nat.lt_of_le_of_lt later.best inWindow
    have kept := earlier.retains id here before
    exact (later.retains id (kept ▸ here) inWindow).trans kept

structure Gains (table : HeaderTable) (node : PrunedHistory) (after : State) (id : BlockId) : Prop where
  absent : bodyOf node.db id = .absent
  bodied : Bodied table after.db after.mem.bestFullBlockHeight id
  above : node.best < height table id

theorem bodyOf_call (pruned : Pruned table chain sr blocksToKeep node)
    (onChain : PruningCall.OnChain table chain sr node (.history call)) :
    let after := ((call.exec sr).exec node.historyView).2
    node.best ≤ after.mem.bestFullBlockHeight ∧
      ∀ id, bodyOf after.db id = bodyOf node.db id ∨ Gains table node after id := by
  obtain ⟨-, readable, climbs⟩ := onChain
  cases call with
  | header call =>
      have best := congrArg Prod.snd (@headerCall_fullBlock sr node.historyView call)
      exact ⟨Nat.le_of_eq best.symm, fun id => .inl (headerCall_bodies node.historyView call id)⟩
  | appendFullBlock block =>
      rcases @appendFullBlock_body sr block node.historyView climbs.2 climbs.1 with ⟨columns, mem⟩ | puts
      · refine ⟨Nat.le_of_eq (congrArg ErgoNode.History.bestFullBlockHeight mem).symm, fun id => .inl ?_⟩
        exact bodyOf_congr (fun cf _ => congrArg (Store.column · cf) columns) id
      · refine ⟨puts.best ▸ Nat.le_of_lt climbs.1, fun id => ?_⟩
        by_cases own : id = block.id
        · subst own
          obtain ⟨bytes, encoded⟩ := puts.encoded
          have level : height table block.id = block.height := by
            rw [height, FullBlock.id, (readable block.header bytes ⟨rfl, encoded⟩).1]
            rfl
          have above : node.best < height table block.id := level ▸ climbs.1
          refine .inr ⟨?_, ⟨puts.own, puts.header, level ▸ puts.slot, Nat.zero_lt_of_lt above, ?_⟩, above⟩
          · by_contra here
            exact Nat.not_lt.mpr (pruned.bodies here).low above
          · exact Nat.le_of_eq (level.trans puts.best.symm)
        · exact .inl (puts.others id own)

theorem pruned_history (pruned : Pruned table chain sr blocksToKeep node)
    (onChain : PruningCall.OnChain table chain sr node (.history call))
    (taken : node.step sr (.history call) = some next) :
    Pruned table chain sr blocksToKeep next ∧ Advances table node next ∧
      (RemovedBelow table node → RemovedBelow table next) := by
  obtain ⟨best, bodies⟩ := bodyOf_call pruned onChain
  obtain ⟨ids, readable, -⟩ := onChain
  obtain ⟨items, places, each⟩ := historyCall_places sr node.historyView call
  cases taken
  generalize ((call.exec sr).exec node.historyView).2 = after at best bodies places ⊢
  have named {h : Nat} {id : BlockId} (there : slot after.db.columns h = some id) : id = chain h := by
    rcases places.slot h with ⟨item, member, rfl, now⟩ | kept
    · rw [now, Option.some.injEq] at there
      rw [← there]
      exact ids item.1 (each item member).mem_headers
    · exact pruned.slots (kept.symm.trans there)
  have bodied {id : BlockId} (here : bodyOf after.db id ≠ .absent) :
      Bodied table after.db after.mem.bestFullBlockHeight id := by
    rcases bodies id with same | gains
    · rw [same] at here
      have before := pruned.bodies here
      refine ⟨same ▸ before.transactions, (places.stored id).mpr (.inl before.header), ?_, before.positive,
        before.low.trans best⟩
      rcases places.slot (height table id) with ⟨item, member, level, now⟩ | kept
      · rw [now, ids item.1 (each item member).mem_headers, level, ← pruned.slots before.slot]
      · exact kept.trans before.slot
    · exact gains.bodied
  have window : node.minimal = 1 ∨ node.minimal + blocksToKeep.toNat ≤ after.mem.bestFullBlockHeight + 1 :=
    pruned.window.imp_right fun low => low.trans (Nat.succ_le_succ best)
  refine ⟨⟨?_, pruned.config, named, bodied, pruned.positive, pruned.aligned, window⟩,
    ⟨rfl, best, Nat.le_refl _, fun id here _ => ?_⟩, fun removed id here => ?_⟩
  · exact pruned.index.places places fun item member => readable item.1 item.2 (each item member)
  · exact (bodies id).resolve_right fun gains => here gains.absent
  · rcases bodies id with same | gains
    · exact removed id (same ▸ here)
    · have above := gains.above
      have positive := gains.bodied.positive
      have low := pruned.window
      change node.minimal ≤ _
      omega

theorem newMinimalHeight_bounds (pruned : Pruned table chain sr blocksToKeep node) (keeps : 0 < blocksToKeep)
    (fits : blocksToKeep < 2 ^ 31) (best : header.height = node.best) :
    let new := node.pruning.newMinimalHeight header
    node.minimal ≤ new ∧ Aligned new ∧ (new = 1 ∨ new + blocksToKeep.toNat ≤ node.best + 1) := by
  obtain ⟨-, rfl, -, -, positive, aligned, window⟩ := pruned
  rw [newMinimalHeight_eq keeps fits, best]
  have le := epochStart_le (max node.minimal (node.best - (node.pruning.blocksToKeep.toNat - 1)))
  have ge := le_epochStart aligned (Nat.le_max_left node.minimal (node.best - (node.pruning.blocksToKeep.toNat - 1)))
  refine ⟨ge, aligned_epochStart _, ?_⟩
  change epochStart (max node.minimal _) = 1 ∨ epochStart (max node.minimal _) + _ ≤ _
  omega

theorem headers_update {result : StateResult Nat} {view now : OnDatabase HistoryPruning} {cf : ColumnFamily}
    (ran : (updateBestFullBlockPruning sr header).exec view = (result, now))
    (headers : cf = .headers ∨ cf = .headerChain) :
    now.db.columns.column cf = view.db.columns.column cf := by
  have apart : .metadata ≠ cf := by
    rintro rfl
    simp at headers
  rcases updateBestFullBlockPruning_columns ran with ⟨-, -, ids, -, column⟩ | ⟨-, same⟩
  · rw [column cf apart, batchColumn_pruneOps ids headers, Store.write_nil]
  · exact same cf apart

theorem bodyOf_update {result : StateResult Nat} {now : OnDatabase HistoryPruning} (index : HeightIndex table sr node.db)
    (ran : (updateBestFullBlockPruning sr header).exec node.pruningView = (result, now)) (id : BlockId) :
    bodyOf now.db id = bodyOf node.db id ∨
      bodyOf now.db id = .absent ∧ height table id < node.pruning.newMinimalHeight header := by
  rcases updateBestFullBlockPruning_columns ran with ⟨-, -, ids, below, column⟩ | ⟨-, same⟩
  · have after := @bodyOf_prune node.db now.db ids column id
    by_cases member : id ∈ ids
    · rw [if_pos member] at after
      obtain ⟨h, found, low, read, rfl⟩ := below.named id member
      obtain ⟨_, here, level⟩ := index.getByHeight h
      cases read.symm.trans here
      exact .inr ⟨after, level found rfl ▸ low⟩
    · rw [if_neg member] at after
      exact .inl after
  · exact .inl (bodyOf_congr (fun cf body => same cf body.2.2.2) id)

theorem removedBelow_update {now : OnDatabase HistoryPruning} {result : StateResult Nat}
    (pruned : Pruned table chain sr blocksToKeep node) (enabled : 0 ≤ blocksToKeep) (sound : node.db.faults = [])
    (removed : RemovedBelow table node)
    (ran : (updateBestFullBlockPruning sr header).exec node.pruningView = (result, now)) {id : BlockId}
    (here : bodyOf now.db id ≠ .absent) : node.pruning.newMinimalHeight header ≤ height table id := by
  have serviceable : Serviceable sr node.pruningView.db :=
    ⟨sound, fun h => (pruned.index.getByHeight h).imp fun _ found => found.1⟩
  obtain ⟨minimal, _, finished, -⟩ := finishes_updateBestFullBlockPruning serviceable header
  cases ran.symm.trans finished
  rcases updateBestFullBlockPruning_columns ran with ⟨-, -, ids, below, column⟩ | ⟨stays, same⟩
  · rw [@bodyOf_prune node.db now.db ids column id] at here
    split at here
    · exact absurd rfl here
    · next other =>
        have bodied := pruned.bodies here
        by_contra low
        refine other ?_
        have stored : node.db.contains .blockTransactions id = true :=
          Option.isSome_iff_ne_none.mpr bodied.transactions
        have read := pruned.index.getByHeight_of_stored bodied.slot bodied.header
        have member := below.all _ _ bodied.positive (Nat.not_le.mp low) read
        rw [table.id_header] at member
        exact member stored
  · have on : node.pruning.isEnabled = true := decide_eq_true (pruned.config ▸ enabled)
    have still : node.pruning.newMinimalHeight header ≤ node.minimal :=
      Nat.not_lt.mp fun rises => stays ⟨⟨_, rfl⟩, rises, on⟩
    have kept : bodyOf now.db id = bodyOf node.db id := bodyOf_congr (fun cf body => same cf body.2.2.2) id
    exact still.trans (removed id (kept ▸ here))

theorem pruned_update (pruned : Pruned table chain sr blocksToKeep node) (keeps : 0 < blocksToKeep)
    (fits : blocksToKeep < 2 ^ 31) (best : header.height = node.best)
    (taken : node.step sr (.updateBestFullBlockPruning header) = some next) :
    Pruned table chain sr blocksToKeep next ∧ Advances table node next ∧
      (node.db.faults = [] → RemovedBelow table node → RemovedBelow table next) := by
  obtain ⟨rises, aligned, window⟩ := newMinimalHeight_bounds pruned keeps fits best
  have heights := updateBestFullBlockPruning_mem sr node.pruningView header
  cases taken
  rcases ran : (updateBestFullBlockPruning sr header).exec node.pruningView with ⟨result, now⟩
  rw [ran] at heights
  have minimal : now.mem.minimalFullBlockHeight = node.pruning.newMinimalHeight header := heights.1
  have config : now.mem.blocksToKeep = blocksToKeep := heights.2.trans pruned.config
  rw [← minimal] at rises aligned window
  have headers := headers_update ran (.inl rfl)
  have slots := headers_update ran (.inr rfl)
  have bodies := bodyOf_update pruned.index ran
  have kept {id : BlockId} (here : bodyOf now.db id ≠ .absent) : bodyOf now.db id = bodyOf node.db id :=
    (bodies id).resolve_right fun gone => here gone.1
  have slot (h : Nat) : slot now.db.columns h = slot node.db.columns h := congrFun slots h
  have bodied {id : BlockId} (here : bodyOf now.db id ≠ .absent) : Bodied table now.db node.best id := by
    have before := pruned.bodies (kept here ▸ here)
    refine ⟨kept here ▸ before.transactions, ?_, (slot _).trans before.slot, before.positive, before.low⟩
    rw [stored, headers]
    exact before.header
  have still : Places node.db.columns now.db.columns [] := ⟨headers, slots⟩
  have index : HeightIndex table sr now.db := pruned.index.places still fun _ none => absurd none List.not_mem_nil
  refine ⟨⟨index, config, fun there => pruned.slots ((slot _).symm.trans there), bodied, pruned.positive.trans_le rises,
    aligned, window⟩, ⟨config.trans pruned.config.symm, Nat.le_refl _, rises, ?_⟩, fun sound removed id here => ?_⟩
  · intro id here inWindow
    refine (bodies id).resolve_right fun gone => ?_
    have positive := (pruned.bodies here).positive
    have low := gone.2
    change node.best < height table id + now.mem.blocksToKeep.toNat at inWindow
    rw [config] at inWindow
    omega
  · exact minimal.trans_le (removedBelow_update pruned keeps.le sound removed ran here)

end Calls

/-! ### Writes that do not fail -/

section Sound
variable {sr : SigmaRust} {st : State}

def NoFaults {M : Type} (view : OnDatabase M) : Prop := view.db.faults = []

theorem ends_writeBatch_noFaults {M : Type} {view : OnDatabase M} (sound : NoFaults view) (batch : WriteBatch) :
    Op.Ends NoFaults (OnDatabase.writeBatch batch : Op (OnDatabase M) StateError Unit) view := by
  obtain ⟨⟨columns, faults⟩, mem⟩ := view
  obtain rfl : faults = [] := sound
  exact rfl

theorem ends_selectChain_noFaults (sound : NoFaults st) (batch : WriteBatch) (id : BlockId) (height cumulative : Nat) :
    Op.Ends NoFaults (History.selectChain sr batch id height cumulative) st := by
  refine Op.Ends.get_bind (.ite (fun _ => ?_) fun _ => ?_)
  · refine (ends_writeBatch_noFaults sound _).bind fun _ now _ sound =>
      Op.Ends.modify_bind (.ite (fun _ => ?_) fun _ => sound)
    exact Op.Ends.get_bind (Op.Ends.ofExcept_bind sound fun _ _ => sound)
  · exact (ends_writeBatch_noFaults sound _).bind fun _ now _ sound => sound

theorem ends_appendHeaderInternal_noFaults (sound : NoFaults st) (header : Header) (rawBytes : Option Bytes) :
    Op.Ends NoFaults (History.appendHeaderInternal sr header rawBytes) st := by
  refine Op.Ends.get_bind (.ite (fun _ => sound) fun _ => .ite (fun _ => sound) fun _ => ?_)
  refine Op.Ends.ofExcept_bind sound fun batch _ => ?_
  exact (ends_writeBatch_noFaults sound _).bind fun _ now _ sound => ends_selectChain_noFaults sound _ _ _ _

theorem ends_historyCall_noFaults (sound : NoFaults st) (call : HistoryCall) : Op.Ends NoFaults (call.exec sr) st := by
  cases call with
  | header call =>
      cases call with
      | appendHeader header => exact ends_appendHeaderInternal_noFaults sound header none
      | appendHeaderWithBytes header rawBytes => exact ends_appendHeaderInternal_noFaults sound header (some rawBytes)
      | appendHeadersBatched headers =>
          cases headers with
          | nil => exact sound
          | cons first rest =>
              exact Op.Ends.get_bind (Op.Ends.ofExcept_bind sound fun acc _ => ends_selectChain_noFaults sound _ _ _ _)
  | appendFullBlock block =>
      refine Op.Ends.get_bind (Op.Ends.ofExcept_bind sound fun built _ => ?_)
      exact (ends_writeBatch_noFaults sound _).bind fun _ now _ sound => sound

end Sound

/-! ### The runs -/

section Runs
variable {table : HeaderTable} {chain : Nat → BlockId} {sr : SigmaRust} {blocksToKeep : Int}
variable {node next : PrunedHistory} {call : PruningCall}

theorem pruned_start (faults : List Bool) (blocksToKeep : Int) :
    Pruned table chain sr blocksToKeep (.start faults blocksToKeep) where
  index := heightIndex_empty table sr faults
  config := rfl
  slots none := nomatch none
  bodies here := absurd rfl here
  positive := Nat.one_pos
  aligned := .inl (by decide : genesisHeight ≤ votingEpochLength)
  window := .inl rfl

theorem pruned_step (fits : blocksToKeep < 2 ^ 31) (pruned : Pruned table chain sr blocksToKeep node)
    (onChain : call.OnChain table chain sr node) (keeps : call.Updates → 0 < blocksToKeep)
    (taken : node.step sr call = some next) :
    Pruned table chain sr blocksToKeep next ∧ Advances table node next ∧
      (node.db.faults = [] → RemovedBelow table node → RemovedBelow table next) := by
  cases call with
  | history call =>
      obtain ⟨after, advances, removes⟩ := pruned_history pruned onChain taken
      exact ⟨after, advances, fun _ => removes⟩
  | updateBestFullBlockPruning header => exact pruned_update pruned (keeps trivial) fits onChain taken

theorem noFaults_step (serviceable : Serviceable sr node.db) (taken : node.step sr call = some next) :
    next.db.faults = [] := by
  cases call with
  | history call =>
      cases taken
      exact @ends_historyCall_noFaults sr node.historyView serviceable.1 call
  | updateBestFullBlockPruning header =>
      cases taken
      obtain ⟨_, now, finished, sound, -⟩ := @finishes_updateBestFullBlockPruning sr node.pruningView serviceable header
      rw [finished]
      exact sound

theorem config_step (taken : node.step sr call = some next) :
    next.pruning.blocksToKeep = node.pruning.blocksToKeep := by
  cases call with
  | history call =>
      cases taken
      rfl
  | updateBestFullBlockPruning header =>
      cases taken
      exact (updateBestFullBlockPruning_mem sr node.pruningView header).2

theorem exact_iff (enabled : 0 ≤ node.pruning.blocksToKeep) :
    call.Exact node ↔ (call.Updates → 0 < node.pruning.blocksToKeep) := by
  cases call with
  | history call => exact iff_of_true trivial nofun
  | updateBestFullBlockPruning header =>
      exact (checkedMinimalHeight_exact_iff enabled).trans ⟨fun keeps _ => keeps, fun keeps => keeps trivial⟩

theorem exact_along_iff {faults : List Bool} {calls : List PruningCall} (enabled : 0 ≤ blocksToKeep) :
    Along (PrunedHistory.step sr) (fun node call => call.Exact node) (.start faults blocksToKeep) calls ↔
      ∀ call ∈ calls, call.Updates → 0 < blocksToKeep := by
  have total (node : PrunedHistory) (call : PruningCall) : (node.step sr call).isSome := by
    cases call <;> rfl
  obtain ⟨last, ran⟩ := exists_run total (.start faults blocksToKeep) calls
  rw [← along_actions ran]
  have same {node : PrunedHistory} {call : PruningCall} (config : node.pruning.blocksToKeep = blocksToKeep) (_ : True) :
      call.Exact node ↔ (call.Updates → 0 < blocksToKeep) := by
    subst config
    exact exact_iff enabled
  have config {node next : PrunedHistory} {call : PruningCall} (config : node.pruning.blocksToKeep = blocksToKeep)
      (_ : True) (_ : call.Updates → 0 < blocksToKeep) (taken : node.step sr call = some next) :
      next.pruning.blocksToKeep = blocksToKeep := (config_step taken).trans config
  exact along_iff_along same config rfl along_true

theorem prunesRight_of_keeps {faults : List Bool} {calls : List PruningCall} (enabled : 0 ≤ blocksToKeep)
    (fits : blocksToKeep < 2 ^ 31)
    (onChain : Along (PrunedHistory.step sr) (fun node call => call.OnChain table chain sr node)
      (.start faults blocksToKeep) calls) (keeps : ∀ call ∈ calls, call.Updates → 0 < blocksToKeep) :
    PrunesRight table sr (.start faults blocksToKeep) calls := by
  have sized : Along (PrunedHistory.step sr) (fun node call => call.OnChain table chain sr node ∧
      (call.Updates → 0 < blocksToKeep)) (.start faults blocksToKeep) calls := fun before call prefixed node ran =>
    ⟨onChain before call prefixed node ran, keeps call (prefixed.subset (by simp))⟩
  have start := @pruned_start table chain sr faults blocksToKeep
  have moved : Onward (PrunedHistory.step sr) (Advances table) (.start faults blocksToKeep) calls := by
    refine sized.onward (Pruned table chain sr blocksToKeep) Advances.refl Advances.trans ?_ start
    intro node call next pruned condition taken
    obtain ⟨after, advances, -⟩ := pruned_step fits pruned condition.1 condition.2 taken
    exact ⟨after, advances⟩
  refine ⟨(exact_along_iff enabled).mpr keeps, fun before rest prefixed earlier later reached ran =>
    (moved before rest prefixed earlier later reached ran).minimal, fun before rest prefixed earlier later reached ran =>
    (moved before rest prefixed earlier later reached ran).retains, fun sound node visited => ?_⟩
  refine (sized.invariant (fun node => Pruned table chain sr blocksToKeep node ∧ node.db.faults = [] ∧
    RemovedBelow table node) ?_ ⟨start, sound, fun id here => absurd rfl here⟩ node visited).2.2
  rintro node call next ⟨pruned, sound, removed⟩ condition taken
  obtain ⟨after, -, removes⟩ := pruned_step fits pruned condition.1 condition.2 taken
  have serviceable : Serviceable sr node.db := ⟨sound, fun h => (pruned.index.getByHeight h).imp fun _ found => found.1⟩
  exact ⟨after, noFaults_step serviceable taken, removes sound removed⟩

/-- With a window of one block or more pruning is right in every run of one chain, and without one it is
wrong as soon as it is told of a best full block. -/
theorem prunesRight_iff (table : HeaderTable) (chain : Nat → BlockId) (sr : SigmaRust) (faults : List Bool)
    {blocksToKeep : Int} (enabled : 0 ≤ blocksToKeep) (fits : blocksToKeep < 2 ^ 31) {calls : List PruningCall}
    (onChain : Along (PrunedHistory.step sr) (fun node call => call.OnChain table chain sr node)
      (.start faults blocksToKeep) calls) :
    PrunesRight table sr (.start faults blocksToKeep) calls ↔ 0 < blocksToKeep ∨ ∀ call ∈ calls, ¬ call.Updates := by
  have keeps :
      (∀ call ∈ calls, call.Updates → 0 < blocksToKeep) ↔ 0 < blocksToKeep ∨ ∀ call ∈ calls, ¬ call.Updates := by
    by_cases positive : 0 < blocksToKeep <;> simp [positive]
  rw [← keeps]
  exact ⟨fun right => (exact_along_iff enabled).mp right.exact, prunesRight_of_keeps enabled fits onChain⟩

end Runs

theorem storesReadable_appendFullBlock {table : HeaderTable} {sr : SigmaRust} {block : FullBlock} (bytes : Bytes)
    (encoded : sr.headerBytes block.header = .ok bytes) (known : table.header block.header.id = block.header)
    (reads : ReadsAs sr bytes block.header) (st : State) : StoresReadable table sr st (.appendFullBlock block) := by
  rintro header other ⟨rfl, again⟩
  cases encoded.symm.trans again
  exact ⟨known, reads⟩

def sampleChain (h : Nat) : BlockId := .filled (10 + UInt8.ofNat h)

def secondBlockCalls : List PruningCall :=
  [.history (.appendFullBlock (Sample.sampleBlock Sample.header11)),
    .history (.appendFullBlock (Sample.sampleBlock Sample.header12)), .updateBestFullBlockPruning Sample.header12]

theorem secondBlockCalls_onChain : Along (PrunedHistory.step Sample.chainCodec) (fun node call =>
      call.OnChain sampleTree.toHeaderTable sampleChain Sample.chainCodec node) (.start [] 1) secondBlockCalls := by
  refine along_cons.mpr ⟨⟨by decide, ?_, by decide, by decide⟩, ?_⟩
  · exact storesReadable_appendFullBlock [] (by decide) (by decide) (by decide) _
  rintro _ ⟨⟩
  refine along_cons.mpr ⟨⟨by decide, ?_, by decide, by decide⟩, ?_⟩
  · exact storesReadable_appendFullBlock [0] (by decide) (by decide) (by decide) _
  rintro _ ⟨⟩
  exact along_cons.mpr ⟨rfl, fun _ _ => along_nil⟩

theorem secondBlockCalls_prunesRight :
    PrunesRight sampleTree.toHeaderTable Sample.chainCodec (.start [] 1) secondBlockCalls ↔
      0 < (1 : Int) ∨ ∀ call ∈ secondBlockCalls, ¬ call.Updates :=
  prunesRight_iff _ sampleChain _ [] (by decide) (by decide) secondBlockCalls_onChain

theorem secondBlockCalls_underflow :
    ¬ PrunesRight sampleTree.toHeaderTable Sample.chainCodec (.start [] 0) secondBlockCalls := by
  intro right
  have exact := right.exact (secondBlockCalls.take 2) (.updateBestFullBlockPruning Sample.header12) ⟨[], rfl⟩ _ rfl
  cases exact

end ErgoNode.Proof.Manager
