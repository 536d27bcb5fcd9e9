import ErgoNode.Proof.Utxo.Run

/-!
# Rollback

Taking back the blocks of a run restores the boxes and the undo records it started from, unless a
block spent a box of its own: that box is put back although it was never there before.
-/

namespace ErgoNode.Proof.Utxo
open Lib UtxoState

variable {sr : SigmaRust}

/-! ### One block -/

section OneBlock
variable {st after : OnDatabase UtxoState} {change : StateChange} {removed : List BoxEntry}
variable {height : Nat}

theorem deserialize_undoOf (encodable : ∀ entry ∈ removed, Encodable sr entry) :
    UndoData.deserialize sr (undoOf sr change height removed) =
      .ok ⟨height, removed, change.created.map BoxEntry.boxId⟩ := by
  simp only [UndoData.deserialize, undoOf, mapM_deserialize_stored encodable]
  rfl

theorem exec_rollbackOneBlock
    (record : (core st.db.columns).undo height = some (undoOf sr change height removed))
    (encodable : ∀ entry ∈ removed, Encodable sr entry) :
    (rollbackOneBlock sr height).exec st =
      match undoToBatch sr st.db ⟨height, removed, change.created.map BoxEntry.boxId⟩ height with
      | .ok batch => (OnDatabase.writeBatch batch).exec st
      | .error e => (.error e, st) := by
  have get : st.db.get .undoData height = some (undoOf sr change height removed) := record
  simp only [rollbackOneBlock, Op.exec_bind, Op.exec_get, Op.exec_ofExcept, get,
    deserialize_undoOf encodable]
  rcases undoToBatch sr st.db ⟨height, removed, change.created.map BoxEntry.boxId⟩ height with e | batch
  · rfl
  · rfl

theorem rollbackOneBlock_eq_ok
    (record : (core st.db.columns).undo height = some (undoOf sr change height removed))
    (encodable : ∀ entry ∈ removed, Encodable sr entry)
    (done : (rollbackOneBlock sr height).exec st = (.ok (), after)) :
    core after.db.columns = (core st.db.columns).takeBack sr height removed
      (change.created.map BoxEntry.boxId) ∧ after.mem = st.mem := by
  rw [exec_rollbackOneBlock record encodable] at done
  split at done
  · next batch built =>
      obtain ⟨-, spec⟩ := undoToBatch_spec built
      simp only [OnDatabase.writeBatch, Op.exec_zoom, Prod.mk.injEq] at done
      obtain ⟨ok, rfl⟩ := done
      have written := Database.columns_of_writeBatch_ok (Prod.ext ok rfl)
      refine ⟨?_, rfl⟩
      rw [written, core, boxes_write_undo _ spec, undo_write_undo _ spec]
      rfl
  · cases done

theorem rollbackOneBlock_total
    (record : (core st.db.columns).undo height = some (undoOf sr change height removed))
    (encodable : ∀ entry ∈ removed, Encodable sr entry) (sound : Sound sr (boxes st.db.columns))
    (writes : st.db.faults = []) :
    ∃ after, (rollbackOneBlock sr height).exec st = (.ok (), after) ∧ after.db.faults = [] := by
  obtain ⟨batch, built⟩ := undoToBatch_total
    ⟨height, removed, change.created.map BoxEntry.boxId⟩ height sound encodable
  rw [exec_rollbackOneBlock record encodable, built]
  simp only [OnDatabase.writeBatch, Op.exec_zoom, Database.exec_writeBatch_of_faults_nil writes]
  exact ⟨_, rfl, rfl⟩

end OneBlock

/-! ### Down a run -/

theorem heightsAbove_succ (height length : Nat) :
    heightsAbove height (height + (length + 1)) =
      heightsAbove (height + 1) (height + 1 + length) ++ [height + 1] := by
  simp only [heightsAbove, Nat.add_sub_cancel_left, List.range'_succ, List.reverse_cons]

theorem Applied.sound {Step : BoxStore → StateChange → List BoxEntry → Prop}
    (encodable : ∀ {store change removed}, Step store change removed →
      ∀ entry ∈ change.created, Encodable sr entry)
    {before after : Core} {height : Nat} {changes : List StateChange}
    (applied : Applied sr Step before height changes after) (sound : Sound sr before.boxes) :
    Sound sr after.boxes := by
  induction applied with
  | nil => exact sound
  | cons removed step later ih => exact ih (sound_settle sound _ (encodable step))

theorem unwind_exact {before after : Core} {height : Nat} {changes : List StateChange}
    (applied : Applied sr (Exact sr) before height changes after)
    (sound : Sound sr before.boxes) (unused : ∀ above, height < above → before.undo above = none)
    {st : OnDatabase UtxoState} (here : core st.db.columns = after) (writes : st.db.faults = []) :
    ∃ restored, (Op.forEach (rollbackOneBlock sr)
        (heightsAbove height (height + changes.length))).exec st = (.ok (), restored) ∧
      core restored.db.columns = before ∧ restored.mem = st.mem ∧ restored.db.faults = [] := by
  induction applied with
  | nil =>
      refine ⟨st, ?_, here, rfl, writes⟩
      simp [heightsAbove]
  | @cons before height change rest after removed step later ih =>
      have soundNext := sound_settle sound change.spent step.created_encodable
      obtain ⟨next, ran, nextCore, nextMem, nextWrites⟩ := ih soundNext
        (by
          intro above bound
          rw [Core.undo_apply_of_ne _ _ _ (Nat.ne_of_gt bound)]
          exact unused above (Nat.lt_of_succ_lt bound)) here
      have record : (core next.db.columns).undo (height + 1) =
          some (undoOf sr change (height + 1) removed) := by
        rw [nextCore]
        exact Function.update_self ..
      have nextSound : Sound sr (boxes next.db.columns) := by
        have same : boxes next.db.columns = _ := congrArg Core.boxes nextCore
        rw [same]
        exact soundNext
      obtain ⟨restored, undone, restoredWrites⟩ :=
        rollbackOneBlock_total record step.removed_encodable nextSound nextWrites
      obtain ⟨restoredCore, restoredMem⟩ := rollbackOneBlock_eq_ok record step.removed_encodable undone
      refine ⟨restored, ?_, ?_, restoredMem.trans nextMem, restoredWrites⟩
      · rw [List.length_cons, heightsAbove_succ, Op.exec_forEach_append, ran]
        exact (Op.exec_forEach_singleton ..).trans undone
      · rw [restoredCore, nextCore, Core.takeBack_apply step.created_fresh step.removed_stored step.ids
          step.spent_distinct (unused _ (Nat.lt_succ_self height))]

/-- After any run is taken back, a box that one of its blocks both created and spent is stored. -/
theorem unwind_recorded {before after : Core} {height : Nat} {changes : List StateChange}
    (applied : Applied sr (fun _ => Recorded sr) before height changes after)
    (distinct : (createdIds changes).Nodup) {st restored : OnDatabase UtxoState}
    (here : core st.db.columns = after)
    (done : (Op.forEach (rollbackOneBlock sr)
      (heightsAbove height (height + changes.length))).exec st = (.ok (), restored)) :
    (∀ below ≤ height, (core restored.db.columns).undo below = before.undo below) ∧
      restored.mem = st.mem ∧
      ∀ change ∈ changes, ∀ entry ∈ change.created, entry.boxId ∈ change.spent →
        boxes restored.db.columns entry.boxId ≠ none := by
  induction applied generalizing restored with
  | nil =>
      simp only [heightsAbove, List.length_nil, Nat.add_zero, Nat.sub_self, List.range'_zero,
        List.reverse_nil, Op.exec_forEach_nil, Prod.mk.injEq, true_and] at done
      subst done
      exact ⟨fun below _ => by rw [here], rfl, by simp⟩
  | @cons before height change rest after removed step later ih =>
      rw [createdIds_cons, List.nodup_append] at distinct
      rw [List.length_cons, heightsAbove_succ, Op.exec_forEach_append] at done
      split at done
      · next next ran =>
          obtain ⟨undo, nextMem, kept⟩ := ih distinct.2.1 here ran
          rw [Op.exec_forEach_singleton] at done
          have record : (core next.db.columns).undo (height + 1) =
              some (undoOf sr change (height + 1) removed) := by
            rw [undo (height + 1) (Nat.le_refl _)]
            exact Function.update_self ..
          obtain ⟨restoredCore, restoredMem⟩ :=
            rollbackOneBlock_eq_ok record step.removed_encodable done
          have boxesAfter : boxes restored.db.columns = (boxes next.db.columns).settle BoxEntry.boxId
              (stored sr) removed (change.created.map BoxEntry.boxId) :=
            congrArg Core.boxes restoredCore
          refine ⟨?_, restoredMem.trans nextMem, ?_⟩
          · intro below bound
            have other : below ≠ height + 1 := Nat.ne_of_lt (Nat.lt_succ_of_le bound)
            rw [restoredCore, Core.undo_takeBack_of_ne _ _ _ other,
              undo below (Nat.le_succ_of_le bound), Core.undo_apply_of_ne _ _ _ other]
          · intro c member entry created spent
            rw [boxesAfter]
            by_cases back : entry.boxId ∈ removed.map BoxEntry.boxId
            · obtain ⟨_, -, -, now⟩ := Store.exists_settle_of_created (boxes next.db.columns)
                (stored sr) (change.created.map BoxEntry.boxId) back
              rw [now]
              exact Option.some_ne_none _
            · rcases List.mem_cons.mp member with rfl | inRest
              · exact absurd (step.ids ▸ spent) back
              · have notCreated : entry.boxId ∉ change.created.map BoxEntry.boxId := fun twice =>
                  distinct.2.2 _ twice _ (List.mem_flatMap.mpr
                    ⟨c, inRest, List.mem_map_of_mem created⟩) rfl
                rw [Store.settle_of_not_created _ back, if_neg notCreated]
                exact kept c inRest entry created spent
      · cases done

/-! ### Runs of segments -/

inductive Segment where
  | single (change : StateChange)
  | batched (changes : List StateChange)

def Segment.changes : Segment → List StateChange
  | .single change => [change]
  | .batched changes => changes

def applySegment (sr : SigmaRust) : Segment → Op (OnDatabase UtxoState) StateError Unit
  | .single change => do
      let st ← get
      applyChange sr change (st.mem.height + 1)
  | .batched changes => do
      let st ← get
      let (batch, _) ← MonadExcept.ofExcept
        (addChangesToBatch sr st st.mem.height [] BoxMap.empty changes)
      OnDatabase.writeBatch batch
      updateHeightInMemory (st.mem.height + changes.length)

def applySegments (sr : SigmaRust) : List Segment → Op (OnDatabase UtxoState) StateError Unit :=
  Op.forEach (applySegment sr)

def changesOf (segments : List Segment) : List StateChange := segments.flatMap Segment.changes

section Segments
variable {st after : OnDatabase UtxoState} {segment : Segment} {segments : List Segment}

theorem exec_single (change : StateChange) :
    (applySegment sr (.single change)).exec st =
      (applyChange sr change (st.mem.height + 1)).exec st := by
  simp only [applySegment, Op.exec_bind, Op.exec_get]

theorem exec_batched (changes : List StateChange) :
    (applySegment sr (.batched changes)).exec st =
      match addChangesToBatch sr st st.mem.height [] BoxMap.empty changes with
      | .ok (batch, _) => (do
          OnDatabase.writeBatch batch
          updateHeightInMemory (st.mem.height + changes.length)).exec st
      | .error e => (.error e, st) := by
  simp only [applySegment, Op.exec_bind, Op.exec_get, Op.exec_ofExcept]
  rcases addChangesToBatch sr st st.mem.height [] BoxMap.empty changes with e | ⟨batch, context⟩
  · rfl
  · rfl

theorem applySegment_recorded (sound : Sound sr (boxes st.db.columns))
    (done : (applySegment sr segment).exec st = (.ok (), after)) :
    Applied sr (fun _ => Recorded sr) (core st.db.columns) st.mem.height segment.changes
      (core after.db.columns) ∧
      after.mem = { st.mem with height := st.mem.height + segment.changes.length } := by
  cases segment with
  | single change =>
      rw [exec_single] at done
      obtain ⟨removed, batch, spec, written, mem⟩ := applyChange_eq_ok done
      have moved := core_write_change spec st.db.columns
      rw [Store.write_nil] at moved
      refine ⟨?_, mem⟩
      rw [written, moved]
      exact .cons removed (.of_spec spec (soundLookup_getBox sound)) .nil
  | batched changes =>
      rw [exec_batched] at done
      split at done
      · next batch context pushed =>
          simp only [Op.exec_bind_eq_ok, OnDatabase.writeBatch, Op.exec_zoom, Prod.mk.injEq,
            updateHeightInMemory, Op.exec_modify] at done
          obtain ⟨_, _, ⟨ok, rfl⟩, -, rfl⟩ := done
          have written := Database.columns_of_writeBatch_ok (Prod.ext ok rfl)
          refine ⟨?_, rfl⟩
          rw [written]
          exact addChangesToBatch_recorded sound soundMap_empty pushed
      · cases done

theorem applySegment_exact (sound : Sound sr (boxes st.db.columns)) (writes : st.db.faults = [])
    (valid : ValidSequence sr (boxes st.db.columns) segment.changes)
    (disjoint : ∀ change ∈ segment.changes, NoIntraBlockSpend change) :
    ∃ after, (applySegment sr segment).exec st = (.ok (), after) ∧
      Applied sr (Exact sr) (core st.db.columns) st.mem.height segment.changes
        (core after.db.columns) ∧
      after.mem = { st.mem with height := st.mem.height + segment.changes.length } ∧
      after.db.faults = [] := by
  cases segment with
  | single change =>
      have head := disjoint change List.mem_cons_self
      obtain ⟨batch, removed, pushed, spec, exactly⟩ := exact_of_lookup st.db st.mem.syncMode []
        (st.mem.height + 1) valid.head
        (soundLookup_getBox sound) (by
          intro boxId spent
          obtain ⟨entry, -, encodable, present⟩ := stored_of_spent sound valid.head spent
            (not_created_of_spent head spent)
          exact ⟨entry, getBox_of_stored encodable present, encodable, present⟩)
      have moved := core_write_change spec st.db.columns
      rw [Store.write_nil] at moved
      refine ⟨_, (exec_single change).trans (applyChange_of_batch writes pushed), ?_, rfl, rfl⟩
      rw [moved]
      exact .cons removed exactly .nil
  | batched changes =>
      have sequence : ValidSequence sr (boxes st.db.columns) changes := valid
      obtain ⟨batch, context, pushed, applied⟩ := addChangesToBatch_exact st.mem.height [] sound
        (Overlay.empty _) sequence disjoint
      have ran : (applySegment sr (.batched changes)).exec st =
          (.ok (), ⟨⟨st.db.columns.write batch, []⟩,
            { st.mem with height := st.mem.height + changes.length }⟩) := by
        rw [exec_batched, pushed]
        simp only [Op.exec_bind, OnDatabase.writeBatch, Op.exec_zoom,
          Database.exec_writeBatch_of_faults_nil writes, updateHeightInMemory, Op.exec_modify]
      exact ⟨_, ran, applied, rfl, rfl⟩

theorem applySegments_recorded (sound : Sound sr (boxes st.db.columns))
    (done : (applySegments sr segments).exec st = (.ok (), after)) :
    Applied sr (fun _ => Recorded sr) (core st.db.columns) st.mem.height (changesOf segments)
      (core after.db.columns) ∧
      after.mem = { st.mem with height := st.mem.height + (changesOf segments).length } := by
  induction segments generalizing st with
  | nil =>
      cases done
      exact ⟨.nil, rfl⟩
  | cons segment rest ih =>
      rw [applySegments, Op.exec_forEach_cons] at done
      split at done
      · next middle first =>
          obtain ⟨head, headMem⟩ := applySegment_recorded sound first
          obtain ⟨tail, tailMem⟩ := ih (head.sound Recorded.created_encodable sound) done
          rw [headMem] at tail tailMem
          refine ⟨head.append tail, ?_⟩
          rw [tailMem, changesOf, changesOf, List.flatMap_cons, List.length_append, Nat.add_assoc]
      · cases done

theorem ValidSequence.later {before reached : Core} {height : Nat} {first second : List StateChange}
    (applied : Applied sr (Exact sr) before height first reached)
    (valid : ValidSequence sr before.boxes (first ++ second))
    (disjoint : ∀ change ∈ first, NoIntraBlockSpend change) :
    ValidSequence sr reached.boxes second := by
  induction applied with
  | nil => exact valid
  | @cons before height change rest after removed step later ih =>
      exact ih (valid.tail (disjoint change List.mem_cons_self))
        fun c member => disjoint c (List.mem_cons_of_mem _ member)

theorem ValidSequence.prefix {store : BoxStore} {first second : List StateChange}
    (valid : ValidSequence sr store (first ++ second)) : ValidSequence sr store first where
  encodable change member := valid.encodable change (List.mem_append_left _ member)
  distinct := by
    have distinct := valid.distinct
    rw [createdIds, List.flatMap_append] at distinct
    exact distinct.of_append_left
  fresh boxId member := by
    apply valid.fresh
    rw [createdIds, List.flatMap_append]
    exact List.mem_append_left _ member
  spends := by
    have spends := valid.spends
    generalize {boxId | store boxId ≠ none} = unspent at spends ⊢
    clear valid
    induction first generalizing unspent with
    | nil => trivial
    | cons change rest ih => exact ⟨spends.1, spends.2.1, ih _ spends.2.2⟩

theorem applySegments_exact (sound : Sound sr (boxes st.db.columns)) (writes : st.db.faults = [])
    (valid : ValidSequence sr (boxes st.db.columns) (changesOf segments))
    (disjoint : ∀ change ∈ changesOf segments, NoIntraBlockSpend change) :
    ∃ after, (applySegments sr segments).exec st = (.ok (), after) ∧
      Applied sr (Exact sr) (core st.db.columns) st.mem.height (changesOf segments)
        (core after.db.columns) ∧
      after.mem = { st.mem with height := st.mem.height + (changesOf segments).length } ∧
      after.db.faults = [] := by
  induction segments generalizing st with
  | nil => exact ⟨st, rfl, .nil, rfl, writes⟩
  | cons segment rest ih =>
      rw [changesOf, List.flatMap_cons] at valid disjoint
      have headDisjoint : ∀ change ∈ segment.changes, NoIntraBlockSpend change :=
        fun change member => disjoint change (List.mem_append_left _ member)
      obtain ⟨middle, first, head, headMem, headWrites⟩ :=
        applySegment_exact sound writes valid.prefix headDisjoint
      obtain ⟨after, ran, tail, tailMem, tailWrites⟩ := ih
        (head.sound (fun step => step.created_encodable) sound) headWrites
        (valid.later head headDisjoint)
        fun change member => disjoint change (List.mem_append_right _ member)
      rw [headMem] at tail tailMem
      refine ⟨after, ?_, head.append tail, ?_, tailWrites⟩
      · rw [applySegments, Op.exec_forEach_cons_of_ok first]
        exact ran
      · rw [tailMem, changesOf, changesOf, List.flatMap_cons, List.length_append, Nat.add_assoc]

end Segments

/-! ### Rollback after a run -/

/-- The run of `segments` goes through, and a rollback to the height it started from goes through
and restores the boxes, the undo records and the height. -/
def RollsBack (sr : SigmaRust) (st : OnDatabase UtxoState) (segments : List Segment) : Prop :=
  ∃ applied restored, (applySegments sr segments).exec st = (.ok (), applied) ∧
    (rollback sr st.mem.height).exec applied = (.ok (), restored) ∧
    core restored.db.columns = core st.db.columns ∧ restored.mem = st.mem ∧
    restored.db.get .metadata .utxoHeight = some st.mem.height

section Rollback
variable {st applied restored : OnDatabase UtxoState} {toHeight : Nat}

theorem core_write_metadata (columns : Columns) (key : MetadataKey) (value : key.Value) :
    core (columns.write (WriteBatch.put [] .metadata key value)) = core columns := by
  have apart : ∀ {cf : ColumnFamily}, .metadata ≠ cf →
      (columns.write (WriteBatch.put [] .metadata key value)).column cf = columns.column cf := by
    intro cf other
    apply Store.column_write_of_ne
    intro op member
    cases List.mem_singleton.mp member
    exact other
  rw [core, boxes, apart (by decide), apart (by decide), core]

theorem keeps_rollbackOneBlock (sr : SigmaRust) (height : Nat) : Op.Keeps (·.mem) (rollbackOneBlock sr height) :=
  Op.keeps_get.bind fun _ => (Op.keeps_ofExcept _).bind fun _ => (Op.keeps_ofExcept _).bind
    fun _ => (Op.keeps_ofExcept _).bind fun _ => OnDatabase.keeps_writeBatch _

theorem rollback_eq_ok (done : (rollback sr toHeight).exec applied = (.ok (), restored)) :
    toHeight < applied.mem.height ∧ restored.mem = { applied.mem with height := toHeight } ∧
      ∃ middle, (Op.forEach (rollbackOneBlock sr)
          (heightsAbove toHeight applied.mem.height)).exec applied = (.ok (), middle) ∧
        core restored.db.columns = core middle.db.columns := by
  simp only [rollback, Op.exec_bind_eq_ok, Op.exec_get, Prod.mk.injEq, Except.ok.injEq] at done
  obtain ⟨_, _, ⟨rfl, rfl⟩, done⟩ := done
  rw [Op.exec_ite] at done
  split at done
  · cases done
  · next low =>
      simp only [Op.exec_bind_eq_ok, OnDatabase.writeBatch, Op.exec_zoom, Prod.mk.injEq,
        Op.exec_modify] at done
      obtain ⟨_, middle, ran, _, _, ⟨ok, rfl⟩, -, rfl⟩ := done
      have mem := Op.Keeps.forEach (keeps_rollbackOneBlock sr)
        (heightsAbove toHeight applied.mem.height) applied
      rw [ran] at mem
      refine ⟨Nat.lt_of_not_le low, by rw [← mem], middle, ran, ?_⟩
      rw [Database.columns_of_writeBatch_ok (Prod.ext ok rfl), core_write_metadata]

theorem rollback_of_unwound (low : toHeight < applied.mem.height) {middle : OnDatabase UtxoState}
    (ran : (Op.forEach (rollbackOneBlock sr) (heightsAbove toHeight applied.mem.height)).exec applied =
      (.ok (), middle)) (writes : middle.db.faults = []) :
    (rollback sr toHeight).exec applied = (.ok (),
      ⟨⟨middle.db.columns.write (WriteBatch.put [] .metadata .utxoHeight toHeight), []⟩,
        { middle.mem with height := toHeight }⟩) := by
  simp only [rollback, Op.exec_bind, Op.exec_get, if_neg (Nat.not_le.mpr low), ran,
    OnDatabase.writeBatch, Op.exec_zoom, Database.exec_writeBatch_of_faults_nil writes, Op.exec_modify]

/-- A valid run rolls back to its start exactly when it has a block and no block spends a box of
its own. -/
theorem rollsBack_iff {segments : List Segment} (sound : Sound sr (boxes st.db.columns))
    (writes : st.db.faults = [])
    (unused : ∀ above, st.mem.height < above → st.db.get .undoData above = none)
    (valid : ValidSequence sr (boxes st.db.columns) (changesOf segments)) :
    RollsBack sr st segments ↔
      changesOf segments ≠ [] ∧ ∀ change ∈ changesOf segments, NoIntraBlockSpend change := by
  constructor
  · rintro ⟨applied, restored, ran, back, same, -⟩
    obtain ⟨run, mem⟩ := applySegments_recorded sound ran
    obtain ⟨low, -, middle, unwound, coreAfter⟩ := rollback_eq_ok back
    rw [mem] at low unwound
    refine ⟨List.length_pos_iff.mp (Nat.lt_add_right_iff_pos.mp low), ?_⟩
    intro change member entry created spent
    have kept := (unwind_recorded run valid.distinct rfl unwound).2.2 change member entry created spent
    have boxesAfter : boxes middle.db.columns = boxes st.db.columns :=
      congrArg Core.boxes (coreAfter.symm.trans same)
    rw [boxesAfter] at kept
    exact kept (valid.fresh _ (List.mem_flatMap.mpr ⟨change, member, List.mem_map_of_mem created⟩))
  · rintro ⟨nonempty, disjoint⟩
    obtain ⟨applied, ran, run, mem, appliedWrites⟩ := applySegments_exact sound writes valid disjoint
    obtain ⟨middle, unwound, coreMiddle, memMiddle, middleWrites⟩ :=
      unwind_exact run sound unused rfl appliedWrites
    have low : st.mem.height < applied.mem.height := by
      rw [mem]
      exact Nat.lt_add_of_pos_right (List.length_pos_iff.mpr nonempty)
    have back := rollback_of_unwound low (by rw [mem]; exact unwound) middleWrites
    refine ⟨applied, _, ran, back, (core_write_metadata ..).trans coreMiddle, ?_, ?_⟩
    · rw [memMiddle, mem]
    · simp [Database.get, WriteBatch.put, Store.apply_same]

end Rollback

section Samples
open Sample

def sampleRun : List Segment :=
  [.single firstChange,
    .batched [⟨[sampleEntry 3 2], [.filled 1]⟩, ⟨[sampleEntry 4 3], [.filled 3, .filled 2]⟩]]

theorem sampleRun_valid : ValidSequence boxCodec (boxes fresh.db.columns) (changesOf sampleRun) where
  encodable := by decide
  distinct := by decide
  fresh _ _ := rfl
  spends := by
    refine ⟨by decide, by decide, by decide, ?_, by decide, ?_, trivial⟩
    · intro boxId spent
      cases List.mem_singleton.mp spent
      exact .inl ⟨.inr (by decide), by decide⟩
    · intro boxId spent
      rcases List.mem_pair.mp spent with rfl | rfl
      · exact .inl ⟨.inr (by decide), by decide⟩
      · exact .inl ⟨.inl ⟨.inr (by decide), by decide⟩, by decide⟩

theorem sampleRun_rollsBack : RollsBack boxCodec fresh sampleRun :=
  (rollsBack_iff sound_empty rfl (fun _ _ => rfl) sampleRun_valid).mpr (by decide)

/-- The second block of the batch creates box 3 and spends it again. -/
def intraBlockRun : List Segment := [.batched [firstChange, ⟨[sampleEntry 3 2], [.filled 1, .filled 3]⟩]]

theorem intraBlockRun_not_rolled_back :
    ValidSequence boxCodec (boxes fresh.db.columns) (changesOf intraBlockRun) ∧
      ¬ RollsBack boxCodec fresh intraBlockRun := by
  refine ⟨⟨by decide, by decide, fun _ _ => rfl, ?_⟩, ?_⟩
  · refine ⟨by decide, by decide, by decide, ?_, trivial⟩
    intro boxId spent
    rcases List.mem_pair.mp spent with rfl | rfl
    · exact .inl ⟨.inr (by decide), by decide⟩
    · exact .inr (by decide)
  · rintro ⟨applied, restored, ran, back, same, -⟩
    have appliedState : applied = ((applySegments boxCodec intraBlockRun).exec fresh).2 := by rw [ran]
    have restoredState : restored = ((rollback boxCodec fresh.mem.height).exec applied).2 := by rw [back]
    have stays : boxes restored.db.columns (.filled 3) ≠ none := by
      rw [restoredState, appliedState]
      decide
    exact stays (congrFun (congrArg Core.boxes same) _)

end Samples

end ErgoNode.Proof.Utxo
