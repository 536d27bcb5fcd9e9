import ErgoNode.Lib.Run
import ErgoNode.Proof.Manager.Calls
import ErgoNode.State.Reading

/-!
# Failing block applications

`applyBlock` commits the block to the history before it touches the UTXO set. A call that fails up
to the first write leaves everything as it was; here are the calls that cannot fail after it, on a
database whose reads and writes may fail.
-/

namespace ErgoNode.Proof.Manager
open Lib StateManager Utxo
open UtxoState (getBox requireBox spendEntry createEntry)
open ErgoNode.Proof.History
  (addBlockToBatch_eq_ok appendFullBlock_parts appendFullBlock_eq_error serializeTransactions_eq_ok)

variable {sr : SigmaRust} {st after : StateManager} {block : FullBlock} {change : StateChange}

/-! ### Reads that all work -/

section Quiet
variable (sr) (db : Database) (skipIndexes : Bool)

theorem quiet_readIndexes (ergoBox : ErgoBox) : Op.Quiet (Reading.readIndexes skipIndexes ergoBox) (.ok ()) := by
  cases skipIndexes with
  | true => rfl
  | false => exact Op.quiet_accesses _ _

theorem quiet_changeToBatch (change : StateChange) (newHeight : Nat) :
    Op.Quiet (Reading.changeToBatch sr db skipIndexes change newHeight)
      (UtxoState.changeToBatch sr db skipIndexes (getBox sr db) [] change newHeight) := by
  refine (Op.quiet_foldlM (fun acc boxId => ?_) _ _).bind fun spent => ?_
  · refine (Op.quiet_access _).after ((Op.quiet_ofExcept _).bind fun entry => ?_)
    exact (quiet_readIndexes skipIndexes entry.ergoBox).after (Op.quiet_pure _)
  · refine (Op.quiet_foldlM (fun acc entry => ?_) _ _).bind fun created => ?_
    · refine (Op.quiet_ofExcept _).bind fun serialized => ?_
      exact (quiet_readIndexes skipIndexes entry.ergoBox).after (Op.quiet_pure _)
    · exact (Op.quiet_ofExcept _).bind fun undoBytes => Op.quiet_pure _

theorem quiet_undoToBatch (undo : UndoData) (height : Nat) :
    Op.Quiet (Reading.undoToBatch sr db undo height) (UtxoState.undoToBatch sr db undo height) := by
  refine (Op.quiet_foldlM (fun batch boxId => ?_) _ _).bind fun removed => ?_
  · refine (Op.quiet_access _).after ((Op.quiet_ofExcept _).bind fun entry => ?_)
    cases entry with
    | none => exact Op.quiet_pure _
    | some entry => exact (quiet_readIndexes false entry.ergoBox).after (Op.quiet_pure _)
  · refine (Op.quiet_foldlM (fun batch entry => ?_) _ _).bind fun restored => Op.quiet_pure _
    refine (Op.quiet_ofExcept _).bind fun serialized => ?_
    exact (quiet_readIndexes false entry.ergoBox).after (Op.quiet_pure _)

end Quiet

theorem follows_applyChange (change : StateChange) (newHeight : Nat) :
    Op.Follows (Reading.applyChange sr change newHeight) (UtxoState.applyChange sr change newHeight) :=
  Op.Follows.get_bind fun s =>
    (Op.follows_scripted (quiet_changeToBatch sr s.db s.mem.syncMode change newHeight)).bind fun _ =>
      Op.follows_unscripted.bind fun _ => Op.follows_unscripted

theorem follows_rollback (toHeight : Nat) :
    Op.Follows (Reading.rollback sr toHeight) (UtxoState.rollback sr toHeight) := by
  have oneBlock (height : Nat) :
      Op.Follows (Reading.rollbackOneBlock sr height) (UtxoState.rollbackOneBlock sr height) :=
    Op.Follows.get_bind fun s => Op.Follows.after (Op.quiet_access _)
      ((Op.follows_ofExcept _).bind fun _ => (Op.follows_ofExcept _).bind fun undo =>
        (Op.follows_scripted (quiet_undoToBatch sr s.db undo height)).bind fun _ => Op.follows_unscripted)
  refine Op.Follows.get_bind fun s => Op.Follows.ite (Op.follows_throw _) ?_
  exact (Op.Follows.forEach oneBlock _).bind fun _ => Op.follows_unscripted.bind fun _ => Op.follows_unscripted

theorem follows_appendFullBlock (block : FullBlock) :
    Op.Follows (Reading.appendFullBlock sr block) (History.appendFullBlock sr block) := by
  intro s
  rw [Reading.appendFullBlock, Op.exec_bind, Op.exec_ofExcept]
  cases header : HeaderStore.putBatched sr [] block.header with
  | error e =>
      simp only [History.appendFullBlock, History.addBlockToBatch, header, Op.exec_bind, Op.exec_get]
      rfl
  | ok batch => exact Op.Follows.after (Op.quiet_accesses _ _) Op.follows_unscripted s

/-- Where no read fails, the model with reads is the model without. -/
theorem follows_applyBlock (block : FullBlock) (change : StateChange) :
    Op.Follows (Reading.applyBlock sr block change) (applyBlock sr block change) := by
  have verified (header : Header) (utxoHeight : Nat) :
      Op.Follows (Reading.verifyStateRoot sr header utxoHeight) (verifyStateRoot sr header utxoHeight) :=
    Op.Follows.get_bind fun s => Op.Follows.ite
      (((follows_rollback utxoHeight).zoom utxoView _).attempt.bind fun _ => Op.follows_throw _) (Op.follows_pure _)
  refine Op.Follows.get_bind fun s => Op.Follows.ite (Op.follows_throw _) ?_
  refine ((follows_appendFullBlock block).zoom historyView _).bind fun selection => ?_
  refine ((follows_applyChange change block.height).zoom utxoView _).bind fun _ => ?_
  exact (verified block.header s.utxo.height).bind fun _ => Op.follows_pure selection

/-! ### The history half -/

def BlockEncodes (sr : SigmaRust) (block : FullBlock) : Prop :=
  (∃ bytes, sr.headerBytes block.header = .ok bytes) ∧
    ∀ tx ∈ block.transactions.txs, ∃ bytes, sr.txBytes tx = .ok bytes

section History
variable {view viewAfter : OnDatabase ErgoNode.History} {selection : ChainSelection}

theorem appendFullBlock_committed
    (done : (History.appendFullBlock sr block).exec view = (.ok selection, viewAfter)) :
    BlockEncodes sr block ∧ Database.writeFails view.db.faults = false ∧
      viewAfter.db.faults = view.db.faults.tail ∧
      boxes viewAfter.db.columns = boxes view.db.columns := by
  obtain ⟨batch, cumulative, built, wrote, -⟩ := appendFullBlock_parts done
  obtain ⟨headerBytes, txs, encoded, serialized, -⟩ := addBlockToBatch_eq_ok.mp built
  obtain ⟨working, written⟩ := Database.writeBatch_eq_ok_iff.mp wrote
  refine ⟨⟨⟨headerBytes, encoded⟩, ?_⟩, working, congrArg Database.faults written, ?_⟩
  · intro tx member
    obtain ⟨encoded, each, -⟩ := serializeTransactions_eq_ok.mp serialized
    exact exists_forall₂.mp ⟨encoded, each⟩ tx member
  · rw [congrArg Database.columns written]
    exact boxes_write_block built _ _

end History

/-! ### The reads of a call -/

def indexReads (skipIndexes : Bool) (ergoBox : ErgoBox) : Nat :=
  if skipIndexes then 0 else Reading.indexLists ergoBox

def spendReads (sr : SigmaRust) (db : Database) (skipIndexes : Bool) (boxId : BoxId) : Nat :=
  1 + match getBox sr db boxId with
    | .ok (some entry) => indexReads skipIndexes entry.ergoBox
    | _ => 0

def changeReads (sr : SigmaRust) (db : Database) (skipIndexes : Bool) (change : StateChange) : Nat :=
  (change.spent.map (spendReads sr db skipIndexes)).sum +
    (change.created.map fun entry => indexReads skipIndexes entry.ergoBox).sum

section Reads
variable {db other : Database} {skipIndexes : Bool} {newHeight : Nat} {batch : WriteBatch}

theorem getBox_congr (same : boxes db.columns = boxes other.columns) : getBox sr db = getBox sr other := by
  funext boxId
  have here : db.get .utxo boxId = other.get .utxo boxId := congrFun same boxId
  simp only [getBox, here]

theorem changeReads_congr (same : boxes db.columns = boxes other.columns) :
    changeReads sr db skipIndexes change = changeReads sr other skipIndexes change := by
  have spends : spendReads sr db skipIndexes = spendReads sr other skipIndexes := by
    funext boxId
    rw [spendReads, spendReads, getBox_congr same]
  rw [changeReads, changeReads, spends]

theorem makes_readIndexes (skipIndexes : Bool) (ergoBox : ErgoBox) :
    Op.Makes (Reading.readIndexes skipIndexes ergoBox) (indexReads skipIndexes ergoBox) () := by
  cases skipIndexes with
  | true => exact Op.makes_pure ()
  | false => exact Op.makes_accesses _ _

theorem makes_spend {acc spent : WriteBatch × UndoData} {boxId : BoxId}
    (done : (do return spendEntry sr db skipIndexes acc boxId (← requireBox (getBox sr db) boxId)) = .ok spent) :
    Op.Makes (Reading.spend sr db skipIndexes acc boxId) (spendReads sr db skipIndexes boxId) spent := by
  simp only [Except.bind_ok_eq_ok, Except.pure_eq_ok] at done
  obtain ⟨entry, found, rfl⟩ := done
  have reads : spendReads sr db skipIndexes boxId = 1 + (0 + (indexReads skipIndexes entry.ergoBox + 0)) := by
    rw [spendReads, requireBox_eq_ok.mp found, Nat.add_zero, Nat.zero_add]
  rw [reads]
  refine (Op.makes_access _).bind ((Op.makes_ofExcept found).bind ?_)
  exact (makes_readIndexes skipIndexes entry.ergoBox).bind (Op.makes_pure _)

theorem makes_create {acc created : WriteBatch × UndoData} {entry : BoxEntry}
    (done : (do return createEntry sr db skipIndexes acc entry (← entry.serialize sr)) = .ok created) :
    Op.Makes (Reading.create sr db skipIndexes acc entry) (indexReads skipIndexes entry.ergoBox) created := by
  simp only [Except.bind_ok_eq_ok, Except.pure_eq_ok] at done
  obtain ⟨serialized, encoded, rfl⟩ := done
  rw [← Nat.zero_add (indexReads skipIndexes entry.ergoBox), ← Nat.add_zero (indexReads skipIndexes entry.ergoBox)]
  exact (Op.makes_ofExcept encoded).bind ((makes_readIndexes skipIndexes entry.ergoBox).bind (Op.makes_pure _))

theorem makes_spends {ids : List BoxId} {acc spent : WriteBatch × UndoData}
    (done : ids.foldlM
      (fun acc boxId => do return spendEntry sr db skipIndexes acc boxId (← requireBox (getBox sr db) boxId)) acc =
        .ok spent) :
    Op.Makes (ids.foldlM (Reading.spend sr db skipIndexes) acc) (ids.map (spendReads sr db skipIndexes)).sum spent := by
  refine Op.Makes.foldlM ?_ done
  intro boxId _ _ _ step
  exact makes_spend step

theorem makes_creates {entries : List BoxEntry} {acc created : WriteBatch × UndoData}
    (done : entries.foldlM (fun acc entry => do return createEntry sr db skipIndexes acc entry (← entry.serialize sr))
      acc = .ok created) :
    Op.Makes (entries.foldlM (Reading.create sr db skipIndexes) acc)
      (entries.map fun entry => indexReads skipIndexes entry.ergoBox).sum created := by
  refine Op.Makes.foldlM ?_ done
  intro entry _ _ _ step
  exact makes_create step

theorem makes_changeToBatch
    (pushed : UtxoState.changeToBatch sr db skipIndexes (getBox sr db) [] change newHeight = .ok batch) :
    Op.Makes (Reading.changeToBatch sr db skipIndexes change newHeight) (changeReads sr db skipIndexes change)
      batch := by
  simp only [UtxoState.changeToBatch, Except.bind_ok_eq_ok, Except.pure_eq_ok] at pushed
  obtain ⟨spent, removed, created, added, undoBytes, serialized, rfl⟩ := pushed
  change Op.Makes _ ((change.spent.map (spendReads sr db skipIndexes)).sum +
    ((change.created.map fun entry => indexReads skipIndexes entry.ergoBox).sum + (0 + 0))) _
  exact (makes_spends removed).bind ((makes_creates added).bind ((Op.makes_ofExcept serialized).bind (Op.makes_pure _)))

end Reads

/-! ### Calls that fail early or not at all -/

abbrev ReadState := StateManager × List Bool

def ChangeFits (sr : SigmaRust) (store : BoxStore) (change : StateChange) : Prop :=
  (∀ boxId ∈ change.spent, store boxId ≠ none) ∧ ∀ entry ∈ change.created, Encodable sr entry

/-- Once the block is committed to the history, nothing that follows can fail: its change fits, the
reads and the second write work, and no computed state root is enforced against the header's. -/
def Safe (sr : SigmaRust) (s : ReadState) (call : FullBlock × StateChange) : Prop :=
  call.1.height = s.1.utxo.height + 1 → BlockEncodes sr call.1 → Op.Works (Reading.parentReads call.1) s.2 →
    Database.writeFails s.1.db.faults = false →
    ChangeFits sr (boxes s.1.db.columns) call.2 ∧
      Op.Works (changeReads sr s.1.db s.1.utxo.syncMode call.2) (s.2.drop (Reading.parentReads call.1)) ∧
      Database.writeFails s.1.db.faults.tail = false ∧ rootRejected s.1 call.1.header = false

/-- A call that returns an error leaves the history and the UTXO state as they were. -/
def Atomic (sr : SigmaRust) (s : ReadState) (call : FullBlock × StateChange) : Prop :=
  ∀ error after, (Reading.applyBlock sr call.1 call.2).exec s = (.error error, after) →
    after.1.db.columns = s.1.db.columns ∧ after.1.history = s.1.history ∧ after.1.utxo = s.1.utxo

section Stages
variable {middle : StateManager} {selection : ChainSelection} {s : ReadState}

theorem history_stage
    (done : (onHistory (History.appendFullBlock sr block)).exec st = (.ok selection, middle)) :
    BlockEncodes sr block ∧ Database.writeFails st.db.faults = false ∧
      middle.db.faults = st.db.faults.tail ∧ boxes middle.db.columns = boxes st.db.columns ∧
      middle.utxo = st.utxo ∧ middle.stateRootVerification = st.stateRootVerification := by
  simp only [onHistory, Op.exec_zoom, Prod.mk.injEq] at done
  obtain ⟨done, rfl⟩ := done
  obtain ⟨encodes, works, faults, same⟩ := appendFullBlock_committed (Prod.ext done rfl)
  exact ⟨encodes, works, faults, same, rfl, rfl⟩

theorem reading_history_stage {last : ReadState}
    (done : (Reading.onHistory (Reading.appendFullBlock sr block)).exec s = (.ok selection, last)) :
    Op.Works (Reading.parentReads block) s.2 ∧ last.2 = s.2.drop (Reading.parentReads block) ∧
      (onHistory (History.appendFullBlock sr block)).exec s.1 = (.ok selection, last.1) := by
  simp only [Reading.onHistory, Op.zoomScripted, Op.exec_zoom, Prod.mk.injEq] at done
  obtain ⟨done, rfl⟩ := done
  rcases ran : (Reading.appendFullBlock sr block).exec (s.1.historyView, s.2) with ⟨_, after⟩
  obtain rfl := (congrArg Prod.fst ran).symm.trans done
  simp only [Reading.appendFullBlock, Op.exec_bind_eq_ok, Op.exec_ofExcept, Op.scripted, Op.unscripted,
    Op.exec_zoom, Prod.mk.injEq] at ran
  obtain ⟨_, _, ⟨-, rfl⟩, _, _, ⟨reads, rfl⟩, appended, rfl⟩ := ran
  obtain ⟨works, rest⟩ := Op.accesses_eq_ok (Prod.ext reads rfl)
  refine ⟨works, rest, ?_⟩
  rw [onHistory, Op.exec_zoom, appended]

theorem reading_history_error {error : StateError} {last : ReadState}
    (failed : (Reading.onHistory (Reading.appendFullBlock sr block)).exec s = (.error error, last)) :
    last.1.db.columns = s.1.db.columns ∧ last.1.history = s.1.history ∧ last.1.utxo = s.1.utxo := by
  simp only [Reading.onHistory, Op.zoomScripted, Op.exec_zoom, Prod.mk.injEq] at failed
  obtain ⟨failed, rfl⟩ := failed
  rcases ran : (Reading.appendFullBlock sr block).exec (s.1.historyView, s.2) with ⟨_, after⟩
  obtain rfl := (congrArg Prod.fst ran).symm.trans failed
  simp only [Reading.appendFullBlock, Op.exec_bind_eq_error, Op.exec_ofExcept, Op.scripted, Op.unscripted,
    Op.exec_zoom, Prod.mk.injEq] at ran
  obtain ⟨-, rfl⟩ | ⟨_, _, ⟨-, rfl⟩, ⟨-, rfl⟩ | ⟨_, _, ⟨-, rfl⟩, appended, rfl⟩⟩ := ran
  · exact ⟨rfl, rfl, rfl⟩
  · exact ⟨rfl, rfl, rfl⟩
  · obtain ⟨columns, history⟩ := appendFullBlock_eq_error (Prod.ext appended rfl)
    exact ⟨columns, history, rfl⟩

theorem changeToBatch_fits (newHeight : Nat) (sound : Sound sr (boxes middle.db.columns))
    (fits : ChangeFits sr (boxes middle.db.columns) change) : ∃ batch,
      UtxoState.changeToBatch sr middle.db middle.utxo.syncMode (getBox sr middle.db) [] change newHeight =
        .ok batch := by
  have found : ∀ boxId ∈ change.spent, ∃ entry,
      getBox sr middle.db boxId = .ok (some entry) ∧ Encodable sr entry := by
    intro boxId spent
    obtain ⟨box, present⟩ := Option.ne_none_iff_exists'.mp (fits.1 boxId spent)
    obtain ⟨entry, -, encodable, rfl⟩ := sound present
    exact ⟨entry, getBox_of_stored encodable present, encodable⟩
  exact changeToBatch_total middle.db middle.utxo.syncMode [] newHeight found fits.2

theorem utxo_stage {script : List Bool} (newHeight : Nat) (sound : Sound sr (boxes middle.db.columns))
    (fits : ChangeFits sr (boxes middle.db.columns) change)
    (reads : Op.Works (changeReads sr middle.db middle.utxo.syncMode change) script)
    (works : Database.writeFails middle.db.faults = false) :
    ∃ changed rest, (Reading.onUtxo (Reading.applyChange sr change newHeight)).exec (middle, script) =
        (.ok (), (changed, rest)) ∧
      (onUtxo (UtxoState.applyChange sr change newHeight)).exec middle = (.ok (), changed) ∧
      changed.utxo.stateRoot = middle.utxo.stateRoot ∧
      changed.stateRootVerification = middle.stateRootVerification := by
  obtain ⟨batch, pushed⟩ := changeToBatch_fits newHeight sound fits
  have wrote : (Database.writeBatch batch).exec middle.db = (.ok (), _) :=
    Database.writeBatch_eq_ok_iff.mpr ⟨works, rfl⟩
  have made := makes_changeToBatch pushed script reads
  have plain : (onUtxo (UtxoState.applyChange sr change newHeight)).exec middle = (.ok (), { middle with
      db := ⟨middle.db.columns.write batch, middle.db.faults.tail⟩, utxo.height := newHeight }) := by
    simp only [UtxoState.applyChange, onUtxo, utxoView, Op.exec_zoom, Op.exec_bind, Op.exec_get,
      Op.exec_ofExcept, pushed, OnDatabase.writeBatch, wrote, Op.exec_modify]
  refine ⟨_, script.drop (changeReads sr middle.db middle.utxo.syncMode change), ?_, plain, rfl, rfl⟩
  simp only [Reading.applyChange, Reading.onUtxo, Op.zoomScripted, Op.scripted, Op.unscripted, utxoView,
    Op.exec_zoom, Op.exec_bind, Op.exec_get, made, OnDatabase.writeBatch, wrote, Op.exec_modify]

theorem root_stage {header : Header} {utxoHeight : Nat} (script : List Bool)
    (accepted : rootRejected middle header = false) :
    (Reading.verifyStateRoot sr header utxoHeight).exec (middle, script) = (.ok (), (middle, script)) ∧
      (verifyStateRoot sr header utxoHeight).exec middle = (.ok (), middle) := by
  constructor
  · simp only [Reading.verifyStateRoot, Op.exec_bind, Op.exec_get, accepted]
    rfl
  · simp only [verifyStateRoot, Op.exec_bind, Op.exec_get, accepted]
    rfl

end Stages

/-- A safe call fails before its first write, or does what it does where no read fails. -/
theorem safe_cases {s : ReadState} (sound : Sound sr (boxes s.1.db.columns)) {call : FullBlock × StateChange}
    (safe : Safe sr s call) :
    (∃ error after, (Reading.applyBlock sr call.1 call.2).exec s = (.error error, after) ∧
      after.1.db.columns = s.1.db.columns ∧ after.1.history = s.1.history ∧ after.1.utxo = s.1.utxo) ∨
    ∃ selection after, (Reading.applyBlock sr call.1 call.2).exec s = (.ok selection, after) ∧
      (applyBlock sr call.1 call.2).exec s.1 = (.ok selection, after.1) := by
  rw [Reading.applyBlock, applyBlock, Op.exec_bind_of_ok (Op.exec_get s), Op.exec_bind_of_ok (Op.exec_get s.1),
    Op.exec_ite, Op.exec_ite]
  split
  · exact .inl ⟨_, _, rfl, rfl, rfl, rfl⟩
  · next matched =>
      rcases appended : (Reading.onHistory (Reading.appendFullBlock sr call.1)).exec s with
        ⟨error | selection, middle, script⟩
      · rw [Op.exec_bind, appended]
        exact .inl ⟨_, _, rfl, reading_history_error appended⟩
      · -- the block is committed: no later step fails
        obtain ⟨parentWorks, rfl, plain⟩ := reading_history_stage appended
        obtain ⟨encodes, works, faults, same, utxo, mode⟩ := history_stage plain
        obtain ⟨fits, reads, worksAgain, accepted⟩ := safe (not_not.mp matched) encodes parentWorks works
        rw [← same] at sound fits
        rw [← faults] at worksAgain
        rw [changeReads_congr same.symm, ← utxo] at reads
        obtain ⟨changed, rest, applied, plainly, root, modeAfter⟩ :=
          utxo_stage call.1.height sound fits reads worksAgain
        have acceptedAfter : rootRejected changed call.1.header = false := by
          rw [rootRejected, rootComputed, root, modeAfter, utxo, mode]
          exact accepted
        obtain ⟨verified, verifiedPlainly⟩ := root_stage rest acceptedAfter
        refine .inr ⟨selection, (changed, rest), ?_, ?_⟩
        · rw [Op.exec_bind_of_ok appended, Op.exec_bind_of_ok applied, Op.exec_bind_of_ok verified]
          rfl
        · rw [Op.exec_bind_of_ok plain, Op.exec_bind_of_ok plainly, Op.exec_bind_of_ok verifiedPlainly]
          rfl

theorem atomic_of_safe {s : ReadState} (sound : Sound sr (boxes s.1.db.columns)) {call : FullBlock × StateChange}
    (safe : Safe sr s call) : Atomic sr s call := by
  intro error after failed
  rcases safe_cases sound safe with ⟨_, _, ran, kept⟩ | ⟨_, _, ran, -⟩
  · cases ran.symm.trans failed
    exact kept
  · cases ran.symm.trans failed

theorem sound_after_call {s : ReadState} (sound : Sound sr (boxes s.1.db.columns)) {call : FullBlock × StateChange}
    (safe : Safe sr s call) :
    Sound sr (boxes ((Reading.applyBlock sr call.1 call.2).exec s).2.1.db.columns) := by
  rcases safe_cases sound safe with ⟨_, after, ran, kept, -⟩ | ⟨_, after, ran, plain⟩
  · rw [ran, kept]
    exact sound
  · rw [ran]
    obtain ⟨db, same, changed⟩ := (applyBlock_eq_ok plain).change
    rw [← same] at sound
    exact sound_applyChange sound changed

def callStep (sr : SigmaRust) (s : ReadState) (call : FullBlock × StateChange) : Option ReadState :=
  some ((Reading.applyBlock sr call.1 call.2).exec s).2

/-- In a run of safe calls, every call that fails leaves everything as it was. Where no read fails a call is that
of the manager without reads. -/
theorem atomic_along (sr : SigmaRust) {s : ReadState} {calls : List (FullBlock × StateChange)}
    (sound : Sound sr (boxes s.1.db.columns)) (safe : Along (callStep sr) (Safe sr) s calls) :
    Along (callStep sr) (Atomic sr) s calls ∧
      ∀ call ∈ calls, Op.Follows (Reading.applyBlock sr call.1 call.2) (applyBlock sr call.1 call.2) := by
  refine ⟨?_, fun call _ => follows_applyBlock call.1 call.2⟩
  intro before call prefixed reached ran
  have visited : Visits (callStep sr) s calls reached :=
    ⟨before, (List.prefix_append before [call]).trans prefixed, ran⟩
  have soundReached := safe.invariant (fun now => Sound sr (boxes now.1.db.columns))
    (fun {s a t} sound safe taken => by
      cases taken
      exact sound_after_call sound safe) sound reached visited
  exact atomic_of_safe soundReached (safe before call prefixed reached ran)

section Samples
open Sample

instance (sr : SigmaRust) (s : ReadState) (call : FullBlock × StateChange) : Decidable (Safe sr s call) :=
  inferInstanceAs (Decidable (call.1.height = s.1.utxo.height + 1 →
    ((∃ bytes, sr.headerBytes call.1.header = .ok bytes) ∧
      ∀ tx ∈ call.1.transactions.txs, ∃ bytes, sr.txBytes tx = .ok bytes) →
    Op.Works (Reading.parentReads call.1) s.2 → Database.writeFails s.1.db.faults = false →
    ((∀ boxId ∈ call.2.spent, boxes s.1.db.columns boxId ≠ none) ∧
      ∀ entry ∈ call.2.created, Encodable sr entry) ∧
    Op.Works (changeReads sr s.1.db s.1.utxo.syncMode call.2) (s.2.drop (Reading.parentReads call.1)) ∧
    Database.writeFails s.1.db.faults.tail = false ∧ rootRejected s.1 call.1.header = false))

/-- The first write fails, and the read after the first four. -/
def faultyNode : ReadState :=
  (⟨⟨Database.empty.columns, [true]⟩, .new, .new, .enforce⟩, [false, false, false, false, true])

/-- The first call loses its write, the second creates two boxes and the third spends one of them; the total of
the last block's parent cannot be read. -/
def safeCalls : List (FullBlock × StateChange) :=
  [(sampleBlock header11, firstChange), (sampleBlock header11, firstChange),
    (sampleBlock header12, ⟨[], [.filled 1]⟩), (sampleBlock header13, emptyChange)]

theorem safeCalls_atomic :
    Along (callStep chainCodec) (Atomic chainCodec) faultyNode safeCalls :=
  (atomic_along chainCodec sound_empty (by decide)).1

def missingBoxCalls : List (FullBlock × StateChange) :=
  [(sampleBlock header11, ⟨[], [.filled 9]⟩)]

theorem missingBoxCalls_not_atomic :
    ¬ Along (callStep chainCodec) (Atomic chainCodec) (new .empty, []) missingBoxCalls := by
  intro atomic
  have kept := (atomic.head _ _ rfl).2.1
  have moved : ((Reading.applyBlock chainCodec (sampleBlock header11) ⟨[], [.filled 9]⟩).exec
      (new .empty, [])).2.1.history ≠ (new .empty).history := by decide
  exact moved kept

end Samples

end ErgoNode.Proof.Manager
