import ErgoNode.Lib.Run
import ErgoNode.Proof.Utxo.Rollback

/-!
# Crashes of the UTXO state

A change is one batch, so a crash leaves the blocks before it or those with it. A rollback writes one
batch for each block and the height last: cut off after the first of them, it leaves a height whose
block is gone.
-/

namespace ErgoNode.Proof.Utxo
open Lib UtxoState

variable {sr : SigmaRust}

/-! ### Calls -/

inductive StoreCall where
  | applyChange (change : StateChange) (newHeight : Nat)
  | rollback (toHeight : Nat)

namespace StoreCall

def exec (sr : SigmaRust) : StoreCall → Op (OnDatabase UtxoState) StateError Unit
  | applyChange change newHeight => UtxoState.applyChange sr change newHeight
  | rollback toHeight => UtxoState.rollback sr toHeight

def blocksAfter : StoreCall → List StateChange → List StateChange
  | applyChange change newHeight, blocks => blocks.take (newHeight - 1) ++ [change]
  | rollback toHeight, blocks => blocks.take toHeight

end StoreCall

structure Chain where
  view : OnDatabase UtxoState
  blocks : List StateChange

namespace Chain

def step (sr : SigmaRust) (s : Chain) (call : StoreCall) : Option Chain :=
  match (call.exec sr).exec s.view with
  | (.ok _, view) => some ⟨view, call.blocksAfter s.blocks⟩
  | (.error _, view) => some ⟨view, s.blocks⟩

/-- A change is for the height above, as the state manager checks before it calls. -/
def AppliesNext (s : Chain) : StoreCall → Prop
  | .applyChange _ newHeight => newHeight = s.view.mem.height + 1
  | .rollback _ => True

def KeepsBlocks (s : Chain) : StoreCall → Prop
  | .applyChange .. => True
  | .rollback toHeight => s.view.mem.height ≤ toHeight

instance (s : Chain) : (call : StoreCall) → Decidable (s.AppliesNext call)
  | .applyChange _ newHeight => inferInstanceAs (Decidable (newHeight = s.view.mem.height + 1))
  | .rollback _ => .isTrue trivial

instance (s : Chain) : (call : StoreCall) → Decidable (s.KeepsBlocks call)
  | .applyChange .. => .isTrue trivial
  | .rollback toHeight => inferInstanceAs (Decidable (s.view.mem.height ≤ toHeight))

end Chain

/-! ### What is stored -/

def settleAll (sr : SigmaRust) (store : BoxStore) (blocks : List StateChange) : BoxStore :=
  blocks.foldl (fun store change => store.settle BoxEntry.boxId (stored sr) change.created change.spent) store

def persistedHeight (columns : Columns) : Nat := (columns.column .metadata .utxoHeight).getD 0

/-- The persisted height is `h`, undo data exists for each height up to it, and the boxes are those of
the blocks up to it. -/
structure ConsistentAt (sr : SigmaRust) (start : BoxStore) (blocks : List StateChange) (columns : Columns)
    (h : Nat) : Prop where
  height : persistedHeight columns = h
  undo : ∀ i, 0 < i → i ≤ h → (core columns).undo i ≠ none
  known : h ≤ blocks.length
  boxes : boxes columns = settleAll sr start (blocks.take h)

/-- However many batches of the call are written, what is stored is consistent at some height: with the
blocks before the call, or with those after it. -/
def CrashConsistent (sr : SigmaRust) (start : BoxStore) (s : Chain) (call : StoreCall) : Prop :=
  ∀ writes, ∃ h, ConsistentAt sr start s.blocks (OnDatabase.crash (call.exec sr) writes s.view) h ∨
    ConsistentAt sr start (call.blocksAfter s.blocks) (OnDatabase.crash (call.exec sr) writes s.view) h

section Applied
variable {Step : BoxStore → StateChange → List BoxEntry → Prop} {before after : Core} {height : Nat}
variable {changes : List StateChange}

theorem Applied.boxes_eq (applied : Applied sr Step before height changes after) :
    after.boxes = settleAll sr before.boxes changes := by
  induction applied with
  | nil => rfl
  | cons removed step later ih => exact ih

theorem Applied.undo_of_le (applied : Applied sr Step before height changes after) {i : Nat} (low : i ≤ height) :
    after.undo i = before.undo i := by
  induction applied with
  | nil => rfl
  | cons removed step later ih =>
      rw [ih (Nat.le_succ_of_le low), Core.undo_apply_of_ne _ _ _ (Nat.ne_of_lt (Nat.lt_succ_of_le low))]

theorem Applied.undo_ne_none (applied : Applied sr Step before height changes after) {i : Nat} (low : height < i)
    (high : i ≤ height + changes.length) : after.undo i ≠ none := by
  induction applied with
  | nil => exact absurd high (Nat.not_le.mpr low)
  | @cons before height change rest after removed step later ih =>
      rcases Nat.eq_or_lt_of_le low with rfl | above
      · rw [later.undo_of_le (Nat.le_refl _), Core.undo_apply_self]
        exact Option.some_ne_none _
      · rw [List.length_cons] at high
        exact ih above (by omega)

theorem Applied.last (applied : Applied sr Step before height changes after) (nonempty : changes ≠ []) :
    ∃ store change removed, Step store change removed ∧
      after.undo (height + changes.length) = some (undoOf sr change (height + changes.length) removed) := by
  induction applied with
  | nil => exact absurd rfl nonempty
  | @cons before height change rest after removed step later ih =>
      rw [List.length_cons, Nat.add_comm rest.length, ← Nat.add_assoc]
      cases rest with
      | nil =>
          refine ⟨_, change, removed, step, ?_⟩
          exact (later.undo_of_le (Nat.le_refl _)).trans (Core.undo_apply_self ..)
      | cons next rest => exact ih (List.cons_ne_nil _ _)

end Applied

/-! ### States that hold their blocks -/

structure Grown (sr : SigmaRust) (start : Core) (s : Chain) : Prop where
  applied : Applied sr (fun _ => Recorded sr) start 0 s.blocks (core s.view.db.columns)
  persisted : persistedHeight s.view.db.columns = s.blocks.length
  height : s.view.mem.height = s.blocks.length

section Grown
variable {start : Core} {s t : Chain} {call : StoreCall} {change : StateChange} {newHeight toHeight : Nat}

theorem Grown.sound (grown : Grown sr start s) (sound : Sound sr start.boxes) : Sound sr (boxes s.view.db.columns) :=
  grown.applied.sound Recorded.created_encodable sound

theorem Grown.consistent (grown : Grown sr start s) :
    ConsistentAt sr start.boxes s.blocks s.view.db.columns s.blocks.length where
  height := grown.persisted
  undo i positive low := grown.applied.undo_ne_none positive (by omega)
  known := Nat.le_refl _
  boxes := by rw [List.take_length]; exact grown.applied.boxes_eq

theorem persistedHeight_write_change {lookup : BoxId → StateResult (Option BoxEntry)} {batch : WriteBatch}
    {removed : List BoxEntry} (spec : ChangeBatch sr lookup [] change newHeight removed batch) (columns : Columns) :
    persistedHeight (columns.write batch) = newHeight := by
  rw [persistedHeight, Store.column_write, spec.column (by simp [Unindexed])]
  simp [changeOps, batchColumn_cons_of_ne, Store.apply]

theorem Grown.apply (grown : Grown sr start s) (sound : Sound sr start.boxes) {db : Database} {batch : WriteBatch}
    (same : db.columns = s.view.db.columns) {skipIndexes : Bool}
    (built : changeToBatch sr db skipIndexes (getBox sr db) [] change (s.view.mem.height + 1) = .ok batch)
    (faults : List Bool) :
    Grown sr start ⟨⟨⟨s.view.db.columns.write batch, faults⟩, { s.view.mem with height := s.view.mem.height + 1 }⟩,
      s.blocks ++ [change]⟩ := by
  obtain ⟨removed, spec⟩ := changeToBatch_spec built
  have recorded := Recorded.of_spec spec (soundLookup_getBox (by rw [same]; exact grown.sound sound))
  have moved := core_write_change spec s.view.db.columns
  rw [Store.write_nil, grown.height] at moved
  refine ⟨?_, ?_, ?_⟩
  · refine grown.applied.append ?_
    rw [Nat.zero_add]
    refine .cons removed recorded ?_
    rw [← moved]
    exact .nil
  · exact (persistedHeight_write_change spec _).trans (by simp [grown.height])
  · simp [grown.height]

/-! ### Changes -/

theorem Grown.step_applyChange (grown : Grown sr start s) (sound : Sound sr start.boxes)
    (next : newHeight = s.view.mem.height + 1) (taken : s.step sr (.applyChange change newHeight) = some t) :
    Grown sr start t := by
  subst next
  rcases done : (applyChange sr change (s.view.mem.height + 1)).exec s.view with ⟨error | _, view⟩
  · obtain ⟨columns, mem⟩ := applyChange_eq_error done
    simp only [Chain.step, StoreCall.exec, done, Option.some.injEq] at taken
    subst taken
    exact ⟨columns ▸ grown.applied, columns ▸ grown.persisted, mem ▸ grown.height⟩
  · obtain ⟨batch, built, columns, mem⟩ := applyChange_built done
    simp only [Chain.step, StoreCall.exec, done, Option.some.injEq] at taken
    subst taken
    have after := grown.apply sound rfl built view.db.faults
    rw [← columns, ← mem] at after
    simpa [StoreCall.blocksAfter, grown.height] using after

theorem Grown.crash_applyChange (grown : Grown sr start s) (sound : Sound sr start.boxes)
    (next : newHeight = s.view.mem.height + 1) : CrashConsistent sr start.boxes s (.applyChange change newHeight) := by
  subst next
  intro writes
  let Found (view : OnDatabase UtxoState) : Prop := ∃ h, ConsistentAt sr start.boxes s.blocks view.db.columns h ∨
    ConsistentAt sr start.boxes (s.blocks ++ [change]) view.db.columns h
  have here : Found ⟨s.view.db.interrupted writes, s.view.mem⟩ := ⟨_, .inl grown.consistent⟩
  have ends : Op.Ends Found (applyChange sr change (s.view.mem.height + 1)) ⟨s.view.db.interrupted writes, s.view.mem⟩ := by
    refine Op.Ends.get_bind (Op.Ends.ofExcept_bind here fun batch built => ?_)
    refine OnDatabase.ends_writeBatch_bind (fun faults => here) fun faults => ?_
    exact ⟨_, .inr (grown.apply sound rfl built faults).consistent⟩
  obtain ⟨h, found⟩ := ends
  have blocks : (StoreCall.applyChange change (s.view.mem.height + 1)).blocksAfter s.blocks = s.blocks ++ [change] := by
    simp [StoreCall.blocksAfter, grown.height]
  exact ⟨h, blocks ▸ found⟩

/-! ### Rollbacks -/

theorem rollback_refused (low : s.view.mem.height ≤ toHeight) (db : Database) :
    ∃ error, (rollback sr toHeight).exec ⟨db, s.view.mem⟩ = (.error error, ⟨db, s.view.mem⟩) := by
  simp only [rollback, Op.exec_bind, Op.exec_get, ge_iff_le, low, if_true, Op.exec_throw]
  exact ⟨_, rfl⟩

theorem rollbackOneBlock_interrupted (height : Nat) (db : Database) (mem : UtxoState) :
    ∃ error faults, (rollbackOneBlock sr height).exec ⟨db.interrupted 0, mem⟩ =
      (.error error, ⟨⟨db.columns, faults⟩, mem⟩) := by
  simp only [rollbackOneBlock, Op.exec_bind, Op.exec_get, Op.exec_ofExcept]
  cases record : (db.interrupted 0).get .undoData height with
  | none => exact ⟨_, [true], rfl⟩
  | some bytes =>
      cases parsed : UndoData.deserialize sr bytes with
      | error error => exact ⟨error, [true], by simp only [parsed]; rfl⟩
      | ok undo =>
          cases built : undoToBatch sr (db.interrupted 0) undo height with
          | error error => exact ⟨error, [true], by simp only [parsed, built]; rfl⟩
          | ok batch =>
              refine ⟨.storage .database, [], ?_⟩
              simp only [parsed, built, OnDatabase.exec_writeBatch_interrupted_zero]

theorem heightsAbove_top (low : toHeight < newHeight) :
    heightsAbove toHeight newHeight = newHeight :: heightsAbove toHeight (newHeight - 1) := by
  obtain ⟨gap, rfl⟩ := Nat.exists_eq_add_of_lt low
  simp only [heightsAbove, Nat.add_assoc, Nat.add_sub_cancel_left]
  rw [List.range'_concat, List.reverse_append]
  simp [Nat.add_comm, Nat.add_left_comm]

/-- Cut off after the first block, a rollback leaves that block's batch and nothing else. -/
theorem crash_rollback_first (low : toHeight < s.view.mem.height) {batch : WriteBatch}
    (first : (rollbackOneBlock sr s.view.mem.height).exec ⟨s.view.db.interrupted 1, s.view.mem⟩ =
      (.ok (), ⟨Database.interrupted ⟨s.view.db.columns.write batch, []⟩ 0, s.view.mem⟩)) :
    OnDatabase.crash (rollback sr toHeight) 1 s.view = s.view.db.columns.write batch := by
  simp only [OnDatabase.crash, rollback, Op.exec_bind, Op.exec_get, ge_iff_le, Nat.not_le.mpr low, if_false]
  rw [heightsAbove_top low, Op.exec_forEach_cons_of_ok first]
  cases heightsAbove toHeight (s.view.mem.height - 1) with
  | nil =>
      rw [Op.exec_forEach_nil]
      simp only [OnDatabase.exec_writeBatch_interrupted_zero]
  | cons height rest =>
      obtain ⟨error, faults, refused⟩ := @rollbackOneBlock_interrupted sr height
        ⟨s.view.db.columns.write batch, []⟩ s.view.mem
      rw [Op.exec_forEach_cons, refused]

theorem Grown.crash_rollback (grown : Grown sr start s) (sound : Sound sr start.boxes) :
    CrashConsistent sr start.boxes s (.rollback toHeight) ↔ s.view.mem.height ≤ toHeight := by
  constructor
  · intro consistent
    by_contra above
    have low := Nat.not_le.mp above
    have nonempty : s.blocks ≠ [] := by
      apply List.ne_nil_of_length_pos
      rw [← grown.height]
      exact Nat.zero_lt_of_lt low
    obtain ⟨-, change, removed, recorded, record⟩ := grown.applied.last nonempty
    rw [Nat.zero_add, ← grown.height] at record
    obtain ⟨batch, built⟩ := @undoToBatch_total sr (s.view.db.interrupted 1)
      ⟨s.view.mem.height, removed, change.created.map BoxEntry.boxId⟩ s.view.mem.height (grown.sound sound)
      recorded.removed_encodable
    obtain ⟨-, spec⟩ := undoToBatch_spec built
    have first : (rollbackOneBlock sr s.view.mem.height).exec ⟨s.view.db.interrupted 1, s.view.mem⟩ =
        (.ok (), ⟨Database.interrupted ⟨s.view.db.columns.write batch, []⟩ 0, s.view.mem⟩) := by
      rw [@exec_rollbackOneBlock _ ⟨s.view.db.interrupted 1, s.view.mem⟩ _ _ _ record recorded.removed_encodable, built]
      exact OnDatabase.exec_writeBatch_interrupted_succ _ _ _
    have persisted : persistedHeight (s.view.db.columns.write batch) = s.view.mem.height := by
      rw [persistedHeight, Store.column_write, spec (by simp [Unindexed])]
      simp only [undoOps, batchColumn_append, batchColumn_map_of_ne, ne_eq, reduceCtorEq, not_false_eq_true,
        batchColumn_cons_of_ne, batchColumn_nil, List.append_nil, Store.write_nil]
      exact grown.persisted.trans grown.height.symm
    have gone : (core (s.view.db.columns.write batch)).undo s.view.mem.height = none :=
      (congrFun (undo_write_undo _ spec) _).trans (Function.update_self ..)
    obtain ⟨h, found⟩ := consistent 1
    rw [StoreCall.exec, crash_rollback_first low first] at found
    rcases found with ⟨height, undo, -, -⟩ | ⟨height, undo, -, -⟩
    · exact undo _ (Nat.zero_lt_of_lt low) (persisted.symm.trans height).le gone
    · exact undo _ (Nat.zero_lt_of_lt low) (persisted.symm.trans height).le gone
  · intro low writes
    obtain ⟨error, refused⟩ := @rollback_refused sr s toHeight low (s.view.db.interrupted writes)
    have kept : OnDatabase.crash (rollback sr toHeight) writes s.view = s.view.db.columns := by
      simp only [OnDatabase.crash, refused]
      rfl
    refine ⟨s.blocks.length, .inl ?_⟩
    rw [StoreCall.exec, kept]
    exact grown.consistent

end Grown

/-! ### Runs -/

section Runs
variable {start : Core} {s t : Chain} {call : StoreCall}

theorem Grown.crash_iff (grown : Grown sr start s) (sound : Sound sr start.boxes) (next : s.AppliesNext call) :
    CrashConsistent sr start.boxes s call ↔ s.KeepsBlocks call := by
  cases call with
  | applyChange change newHeight => exact iff_of_true (grown.crash_applyChange sound next) trivial
  | rollback toHeight => exact grown.crash_rollback sound

theorem Grown.step (grown : Grown sr start s) (sound : Sound sr start.boxes) (next : s.AppliesNext call)
    (keeps : s.KeepsBlocks call) (taken : s.step sr call = some t) : Grown sr start t := by
  cases call with
  | applyChange change newHeight => exact grown.step_applyChange sound next taken
  | rollback toHeight =>
      obtain ⟨error, refused⟩ := @rollback_refused sr s toHeight keeps s.view.db
      have same : (rollback sr toHeight).exec s.view = (.error error, s.view) := refused
      simp only [Chain.step, StoreCall.exec, same, Option.some.injEq] at taken
      subst taken
      exact grown

theorem Grown.crashes_iff {calls : List StoreCall} (grown : Grown sr start s) (sound : Sound sr start.boxes)
    (next : Along (Chain.step sr) Chain.AppliesNext s calls) :
    Along (Chain.step sr) (CrashConsistent sr start.boxes) s calls ↔
      Along (Chain.step sr) Chain.KeepsBlocks s calls :=
  along_iff_along (fun grown next => grown.crash_iff sound next)
    (fun grown next keeps taken => grown.step sound next keeps taken) grown next

structure Unapplied (sr : SigmaRust) (s : Chain) : Prop where
  blocks : s.blocks = []
  height : s.view.mem.height = 0
  persisted : persistedHeight s.view.db.columns = 0
  sound : Sound sr (boxes s.view.db.columns)

theorem Unapplied.grown (start : Unapplied sr s) : Grown sr (core s.view.db.columns) s := by
  obtain ⟨blocks, height, persisted, -⟩ := start
  refine ⟨?_, ?_, ?_⟩
  · rw [blocks]
    exact .nil
  · rw [blocks]
    exact persisted
  · rw [blocks]
    exact height

/-- Wherever a run from a state without blocks is cut off, what is stored is consistent exactly when no
call of the run takes a block back. -/
theorem crashConsistent_iff {calls : List StoreCall} (start : Unapplied sr s)
    (next : Along (Chain.step sr) Chain.AppliesNext s calls) :
    Along (Chain.step sr) (CrashConsistent sr (boxes s.view.db.columns)) s calls ↔
      Along (Chain.step sr) Chain.KeepsBlocks s calls :=
  start.grown.crashes_iff start.sound next

end Runs

section Samples
open Sample

def freshChain : Chain := ⟨fresh, []⟩

def secondChange : StateChange := ⟨[sampleEntry 3 2], [.filled 1]⟩

def twoBlocks : List StoreCall := [.applyChange firstChange 1, .applyChange secondChange 2]

theorem unapplied_fresh : Unapplied boxCodec freshChain := ⟨rfl, rfl, rfl, sound_empty⟩

theorem twoBlocks_crashConsistent : Along (Chain.step boxCodec)
    (CrashConsistent boxCodec (boxes freshChain.view.db.columns)) freshChain (twoBlocks ++ [.rollback 2]) :=
  (crashConsistent_iff unapplied_fresh (by decide)).mpr (by decide)

/-- A crash after the first write of the rollback leaves height 2 without the undo data of block 2. -/
theorem rolledBack_not_crashConsistent : Unapplied boxCodec freshChain ∧
    Along (Chain.step boxCodec) Chain.AppliesNext freshChain (twoBlocks ++ [.rollback 0]) ∧
    ¬ Along (Chain.step boxCodec) (CrashConsistent boxCodec (boxes freshChain.view.db.columns)) freshChain
      (twoBlocks ++ [.rollback 0]) := by
  have next : Along (Chain.step boxCodec) Chain.AppliesNext freshChain (twoBlocks ++ [.rollback 0]) := by decide
  refine ⟨unapplied_fresh, next, ?_⟩
  rw [show boxes freshChain.view.db.columns = (core freshChain.view.db.columns).boxes from rfl,
    unapplied_fresh.grown.crashes_iff sound_empty next]
  decide

end Samples

end ErgoNode.Proof.Utxo
