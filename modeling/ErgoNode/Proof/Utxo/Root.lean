import ErgoNode.Lib.Run
import ErgoNode.Proof.Utxo.Rollback
import ErgoNode.State.Authenticated

/-!
# The reported state root

The root follows the prover, and the prover follows the changes that are tried: those that fail as well,
and none of those that are taken back.
-/

namespace ErgoNode.Proof.Utxo
open Lib UtxoState

variable {sr : SigmaRust} {tree : AvlTree}

/-! ### Content -/

def utxoContent (columns : Columns) : AvlContent := fun boxId => (boxes columns boxId).map StoredBox.boxBytes

def contentAfter (sr : SigmaRust) (content : AvlContent) (change : StateChange) : AvlContent :=
  content.settle BoxEntry.boxId (fun entry => (stored sr entry).boxBytes) change.created change.spent

theorem toAvlOperations_eq_ok {change : StateChange} {operations : List AvlOperation}
    (built : change.toAvlOperations sr = .ok operations) (content : AvlContent) :
    content.write (operations.map AvlOperation.toBatch) = contentAfter sr content change := by
  simp only [StateChange.toAvlOperations, Except.bind_ok_eq_ok, Except.pure_eq_ok, mapM_eq_ok,
    Except.mapError_ok_iff] at built
  obtain ⟨inserts, encoded, rfl⟩ := built
  have puts : inserts.map AvlOperation.toBatch =
      puts BoxEntry.boxId (fun entry => (stored sr entry).boxBytes) change.created := by
    generalize change.created = created at encoded
    induction encoded with
    | nil => rfl
    | cons head _ ih =>
        obtain ⟨bytes, encoded, rfl⟩ := head
        rw [List.map_cons, ih]
        simp [puts, AvlOperation.toBatch, stored, encoded, Except.toOption]
  rw [List.map_append, puts, List.map_map]
  rfl

/-! ### One application -/

section Apply
variable {s t : Proving tree} {change : StateChange} {newHeight : Nat} {operations : List AvlOperation}

theorem exec_performOperation (operation : AvlOperation) (s : Proving tree) :
    (performOperation operation).exec s = ((tree.performOneOperation s.prover operation).1.mapError .avlTree,
      { s with prover := (tree.performOneOperation s.prover operation).2 }) := by
  simp only [performOperation, Op.exec_bind, Op.exec_get, Op.exec_modify, Op.exec_ofExcept]

theorem exec_generateProof (s : Proving tree) : generateProof.exec s =
    (.ok (tree.generateProof s.prover).1, { s with prover := (tree.generateProof s.prover).2 }) := by
  simp only [generateProof, Op.exec_bind, Op.exec_get, Op.exec_modify, Op.exec_pure]

theorem keeps_performOperation (operation : AvlOperation) :
    Op.Keeps (·.view) (performOperation operation : Op (Proving tree) StateError Unit) := by
  intro s
  rw [exec_performOperation]

theorem performOperation_eq_ok {operation : AvlOperation}
    (done : (performOperation operation).exec s = (.ok (), t)) :
    tree.content t.prover = (tree.content s.prover).apply operation.toBatch := by
  rw [exec_performOperation, Prod.mk.injEq, Except.mapError_ok_iff] at done
  obtain ⟨ok, rfl⟩ := done
  exact tree.content_of_ok (Prod.ext ok rfl)

theorem performOperations_eq_ok (done : (Op.forEach performOperation operations).exec s = (.ok (), t)) :
    tree.content t.prover = (tree.content s.prover).write (operations.map AvlOperation.toBatch) := by
  induction operations generalizing s with
  | nil =>
      cases done
      rfl
  | cons operation rest ih =>
      rw [Op.exec_forEach_cons] at done
      rcases first : (performOperation operation).exec s with ⟨error | _, middle⟩
      · rw [first] at done
        cases done
      · rw [first] at done
        rw [ih done, performOperation_eq_ok first, List.map_cons, Store.write_cons]

structure Proved (sr : SigmaRust) (s : Proving tree) (change : StateChange) (newHeight : Nat) (applied : OnDatabase UtxoState)
    (root : Bytes) : Prop where
  applied : (applyChange sr change newHeight).exec s.view = (.ok (), applied)
  root : root = tree.digestOf (contentAfter sr (tree.content s.prover) change)

/-- An application stops before it changes the database, or applies the change and is left with the root to
write. -/
theorem exec_applyChangeWithProof (sr : SigmaRust) (s : Proving tree) (change : StateChange) (newHeight : Nat) :
    (∃ error after, (applyChangeWithProof sr change newHeight).exec s = (.error error, after) ∧
      after.view.db.columns = s.view.db.columns ∧ after.view.mem = s.view.mem) ∨
    ∃ applied root proof prover, Proved sr s change newHeight applied root ∧
      (applyChangeWithProof sr change newHeight).exec s =
        (((putStateRoot root).exec applied).1.map fun _ => proof, ⟨((putStateRoot root).exec applied).2, prover⟩) := by
  unfold applyChangeWithProof
  cases built : change.toAvlOperations sr with
  | error error => exact .inl ⟨error, s, Op.exec_bind_of_error (Op.exec_ofExcept _ s), rfl, rfl⟩
  | ok operations =>
      rw [Op.exec_bind_of_ok (Op.exec_ofExcept _ s)]
      have kept := Op.Keeps.forEach (fun operation => keeps_performOperation operation) operations s
      rcases performed : (Op.forEach performOperation operations).exec s with ⟨error | _, middle⟩
      · rw [performed] at kept
        exact .inl ⟨error, middle, Op.exec_bind_of_error performed, by rw [kept], by rw [kept]⟩
      · rw [performed] at kept
        rw [Op.exec_bind_of_ok performed, Op.exec_bind_of_ok (exec_generateProof middle),
          Op.exec_bind_of_ok (Op.exec_get _)]
        obtain ⟨view, prover⟩ := middle
        dsimp only at kept
        subst kept
        cases digest : tree.digest (tree.generateProof prover).2 with
        | none => exact .inl ⟨_, _, Op.exec_bind_of_error (Op.exec_ofExcept _ _), rfl, rfl⟩
        | some root =>
            rw [Op.exec_bind_of_ok (Op.exec_ofExcept _ _)]
            have same : root = tree.digestOf (contentAfter sr (tree.content s.prover) change) := by
              rw [tree.digest_eq digest, tree.content_generateProof, performOperations_eq_ok performed,
                toAvlOperations_eq_ok built]
            rcases ran : (applyChange sr change newHeight).exec s.view with ⟨error | _, applied⟩
            · obtain ⟨columns, mem⟩ := applyChange_eq_error ran
              refine .inl ⟨error, ⟨applied, (tree.generateProof prover).2⟩, ?_, columns, mem⟩
              exact Op.exec_bind_of_error (by rw [onView, Op.exec_zoom, ran])
            · refine .inr ⟨applied, root, (tree.generateProof prover).1, (tree.generateProof prover).2, ⟨ran, same⟩, ?_⟩
              rw [Op.exec_bind_of_ok (show (onView (applyChange sr change newHeight)).exec
                (⟨s.view, (tree.generateProof prover).2⟩ : Proving tree) = (.ok (), ⟨applied, (tree.generateProof prover).2⟩)
                by rw [onView, Op.exec_zoom, ran])]
              rw [Op.exec_bind, onView, Op.exec_zoom]
              rcases (putStateRoot root).exec applied with ⟨error | _, after⟩
              · rfl
              · rfl

theorem utxoContent_settle {before after : Columns}
    (settled : boxes after = (boxes before).settle BoxEntry.boxId (stored sr) change.created change.spent) :
    utxoContent after = contentAfter sr (utxoContent before) change := by
  funext boxId
  rw [utxoContent, settled]
  exact Store.map_settle _ _ _ _ _

end Apply

/-! ### Runs -/

inductive ProofCall where
  | applyChangeWithProof (change : StateChange) (newHeight : Nat)
  | rollback (toHeight : Nat)

def ProofCall.exec (sr : SigmaRust) : ProofCall → Op (Proving tree) StateError Unit
  | applyChangeWithProof change newHeight => do
      let _ ← UtxoState.applyChangeWithProof sr change newHeight
  | rollback toHeight => onView (UtxoState.rollback sr toHeight)

structure Reporting (tree : AvlTree) where
  proving : Proving tree
  reported : Nat → Option Bytes

namespace Reporting
variable (s : Reporting tree)

def columns : Columns := s.proving.view.db.columns
def height : Nat := s.proving.view.mem.height
def stateRoot : Bytes := s.proving.view.mem.stateRoot

def after (proving : Proving tree) : Reporting tree :=
  ⟨proving, Function.update s.reported proving.view.mem.height (some proving.view.mem.stateRoot)⟩

theorem reported_after_of_ne {proving : Proving tree} {i : Nat} (other : i ≠ proving.view.mem.height) :
    (s.after proving).reported i = s.reported i := Function.update_of_ne other ..

def start (proving : Proving tree) : Reporting tree := after ⟨proving, fun _ => none⟩ proving

def RootIsDigest : Prop := s.stateRoot = tree.digestOf (utxoContent s.columns)

end Reporting

namespace Reporting

def step (sr : SigmaRust) (s : Reporting tree) (call : ProofCall) : Option (Reporting tree) :=
  some (s.after ((call.exec sr).exec s.proving).2)

/-- A rollback that goes through leaves the root that was reported at its height. -/
def RestoresRoot (sr : SigmaRust) (s : Reporting tree) : ProofCall → Prop
  | .applyChangeWithProof .. => True
  | .rollback toHeight => ∀ t root, ((ProofCall.rollback toHeight).exec sr).exec s.proving = (.ok (), t) →
      s.reported toHeight = some root → t.view.mem.stateRoot = root

end Reporting

def EmptyRecord (record : Option StoredUndo) : Prop :=
  ∀ undo, record = some undo → undo.spentBoxes = [] ∧ undo.createdBoxIds = []

namespace Reporting
variable (s : Reporting tree)

/-- An application finds prover and boxes agreed on what it leaves alone, and can write the root where it can
write the boxes. A rollback takes back no block that changed a box. -/
def InStep : ProofCall → Prop
  | .applyChangeWithProof change _ =>
      (∀ boxId, boxId ∉ change.spent → boxId ∉ change.created.map BoxEntry.boxId →
        tree.content s.proving.prover boxId = utxoContent s.columns boxId) ∧
      (Database.writeFails s.proving.view.db.faults = false → Database.writeFails s.proving.view.db.faults.tail = false)
  | .rollback toHeight => ∀ height ∈ heightsAbove toHeight s.height, EmptyRecord ((core s.columns).undo height)

def AppliesNext : ProofCall → Prop
  | .applyChangeWithProof _ newHeight => newHeight = s.height + 1
  | .rollback _ => True

end Reporting

/-! ### Rollbacks that change no box -/

section Rollback
variable {view : OnDatabase UtxoState} {toHeight : Nat}

/-- The boxes are the same, and the records that are gone were empty. -/
structure Emptied (before after : OnDatabase UtxoState) : Prop where
  boxes : boxes after.db.columns = boxes before.db.columns
  undo : ∀ i, (core after.db.columns).undo i = (core before.db.columns).undo i ∨
    EmptyRecord ((core before.db.columns).undo i) ∧ (core after.db.columns).undo i = none
  root : after.mem.stateRoot = before.mem.stateRoot

theorem Emptied.refl (view : OnDatabase UtxoState) : Emptied view view := ⟨rfl, fun _ => .inl rfl, rfl⟩

theorem emptied_rollbackOneBlock {middle : OnDatabase UtxoState} {height : Nat} (emptied : Emptied view middle)
    (empty : EmptyRecord ((core view.db.columns).undo height)) :
    Op.Ends (Emptied view) (rollbackOneBlock sr height) middle := by
  refine Op.Ends.get_bind (Op.Ends.ofExcept_bind emptied fun bytes found => ?_)
  refine Op.Ends.ofExcept_bind emptied fun undo parsed => Op.Ends.ofExcept_bind emptied fun batch built => ?_
  refine OnDatabase.ends_writeBatch (fun faults => ⟨emptied.boxes, emptied.undo, emptied.root⟩) fun faults => ?_
  have record : (core middle.db.columns).undo height = some bytes := by
    cases get : middle.db.get .undoData height with
    | none => simp [get] at found
    | some other =>
        simp only [get, Except.ok.injEq] at found
        exact get.trans (congrArg some found)
  have here : EmptyRecord ((core view.db.columns).undo height) ∧ bytes.spentBoxes = [] ∧ bytes.createdBoxIds = [] := by
    refine ⟨empty, ?_⟩
    rcases emptied.undo height with same | ⟨-, gone⟩
    · exact empty bytes (same.symm.trans record)
    · rw [gone] at record
      cases record
  have nothing : undo.spentBoxes = [] ∧ undo.createdBoxIds = [] := by
    simp only [UndoData.deserialize, here.2.1, Except.bind_ok_eq_ok, Except.pure_eq_ok, List.mapM_nil] at parsed
    obtain ⟨_, rfl, rfl⟩ := parsed
    exact ⟨rfl, here.2.2⟩
  obtain ⟨-, spec⟩ := undoToBatch_spec built
  refine ⟨?_, fun i => ?_, emptied.root⟩
  · rw [boxes_write_undo _ spec, nothing.1, nothing.2]
    exact emptied.boxes
  · by_cases same : i = height
    · subst same
      exact .inr ⟨empty, (congrFun (undo_write_undo _ spec) _).trans (Function.update_self ..)⟩
    · have kept : (core (middle.db.columns.write batch)).undo i = (core middle.db.columns).undo i :=
        (congrFun (undo_write_undo _ spec) i).trans (Function.update_of_ne same ..)
      rw [kept]
      exact emptied.undo i

theorem emptied_rollback (empty : ∀ height ∈ heightsAbove toHeight view.mem.height,
    EmptyRecord ((core view.db.columns).undo height)) :
    Op.Ends (fun after => Emptied view after ∧ (after.mem.height = view.mem.height ∨
      toHeight < view.mem.height ∧ after.mem.height = toHeight)) (rollback sr toHeight) view := by
  refine Op.Ends.get_bind (.ite (fun _ => ⟨.refl view, .inl rfl⟩) fun above => ?_)
  have low := Nat.not_le.mp above
  have unwound : Op.Ends (fun after => Emptied view after ∧ after.mem.height = view.mem.height)
      (Op.forEach (rollbackOneBlock sr) (heightsAbove toHeight view.mem.height)) view := by
    refine Op.Ends.forEach_mem (fun height member middle there => ?_) ⟨.refl view, rfl⟩
    refine ⟨emptied_rollbackOneBlock there.1 (empty height member), ?_⟩
    exact (congrArg UtxoState.height (keeps_rollbackOneBlock sr height middle)).trans there.2
  refine Op.Ends.bind (unwound.mono fun middle there => ⟨there.1, .inl there.2⟩) fun _ middle _ there => ?_
  obtain ⟨⟨boxes, undo, root⟩, height⟩ := there
  refine OnDatabase.ends_writeBatch_bind (fun faults => ⟨⟨boxes, undo, root⟩, height⟩) fun faults => ?_
  have written := core_write_metadata middle.db.columns .utxoHeight toHeight
  refine ⟨⟨?_, fun i => ?_, root⟩, .inr ⟨low, rfl⟩⟩
  · exact (congrArg Core.boxes written).trans boxes
  · have same : (core (middle.db.columns.write (WriteBatch.put [] .metadata .utxoHeight toHeight))).undo i =
        (core middle.db.columns).undo i := congrFun (congrArg Core.undo written) i
    exact same ▸ undo i

end Rollback

/-! ### Steps -/

section Steps
variable {s t : Reporting tree} {call : ProofCall} {change : StateChange} {newHeight toHeight : Nat}

theorem exec_putStateRoot {applied : OnDatabase UtxoState} (works : Database.writeFails applied.db.faults = false)
    (root : Bytes) : (putStateRoot root).exec applied =
      (.ok (), ⟨⟨applied.db.columns.write (WriteBatch.put [] .metadata .stateRoot root), applied.db.faults.tail⟩,
        { applied.mem with stateRoot := root }⟩) := by
  obtain ⟨db, mem⟩ := applied
  rw [putStateRoot, Op.exec_bind_of_ok (OnDatabase.exec_writeBatch works mem _)]
  rfl

structure RootApplied (sr : SigmaRust) (s t : Proving tree) (change : StateChange) (newHeight : Nat) : Prop where
  core : ∃ removed, change.spent.length = removed.length ∧
    core t.view.db.columns = (core s.view.db.columns).apply sr change newHeight removed
  root : t.view.mem.stateRoot = tree.digestOf (contentAfter sr (tree.content s.prover) change)
  height : t.view.mem.height = newHeight

theorem applyChangeWithProof_outcome {p : Proving tree} (change : StateChange) (newHeight : Nat)
    (together : Database.writeFails p.view.db.faults = false → Database.writeFails p.view.db.faults.tail = false) :
    let after := (((ProofCall.applyChangeWithProof change newHeight).exec sr).exec p).2
    (after.view.db.columns = p.view.db.columns ∧ after.view.mem = p.view.mem) ∨
      RootApplied sr p after change newHeight := by
  intro after
  have discarded : after = ((applyChangeWithProof sr change newHeight).exec p).2 :=
    congrArg Prod.snd (Op.exec_discard (applyChangeWithProof sr change newHeight) p)
  rcases exec_applyChangeWithProof sr p change newHeight with
    ⟨error, other, failed, columns, mem⟩ | ⟨applied, root, proof, prover, proved, done⟩
  · rw [discarded, failed]
    exact .inl ⟨columns, mem⟩
  · obtain ⟨works, faults⟩ := applyChange_faults proved.applied
    obtain ⟨removed, batch, spec, written, mem⟩ := applyChange_eq_ok proved.applied
    rw [exec_putStateRoot (by rw [faults]; exact together works)] at done
    rw [discarded, done]
    refine .inr ⟨⟨removed, spec.found.length_eq, ?_⟩, proved.root, congrArg UtxoState.height mem⟩
    have moved := core_write_change spec p.view.db.columns
    rw [Store.write_nil, ← written] at moved
    exact (core_write_metadata applied.db.columns .stateRoot root).trans moved

/-- The root is the digest of the boxes, and it was reported at each height below which only empty blocks
follow. -/
structure Reported (s : Reporting tree) : Prop where
  digest : s.RootIsDigest
  current : s.reported s.height = some s.stateRoot
  below : ∀ i < s.height, (∀ j, i < j → j ≤ s.height → EmptyRecord ((core s.columns).undo j)) →
    ∀ root, s.reported i = some root → root = s.stateRoot

theorem rootIsDigest_applied {p : Proving tree} (applied : RootApplied sr s.proving p change newHeight)
    (agreed : ∀ boxId, boxId ∉ change.spent → boxId ∉ change.created.map BoxEntry.boxId →
      tree.content s.proving.prover boxId = utxoContent s.columns boxId) :
    p.view.mem.stateRoot = tree.digestOf (utxoContent p.view.db.columns) := by
  obtain ⟨removed, -, moved⟩ := applied.core
  rw [applied.root, utxoContent_settle (congrArg Core.boxes moved), contentAfter, contentAfter,
    Store.settle_congr _ agreed]
  rfl

theorem rootIsDigest_step (digest : s.RootIsDigest) (inStep : s.InStep call) (taken : Reporting.step sr s call = some t) :
    t.RootIsDigest := by
  cases taken
  cases call with
  | applyChangeWithProof change newHeight =>
      rcases @applyChangeWithProof_outcome sr tree s.proving change newHeight inStep.2 with ⟨columns, mem⟩ | applied
      · exact (congrArg UtxoState.stateRoot mem).trans (digest.trans (congrArg (fun c => tree.digestOf (utxoContent c))
          columns.symm))
      · exact rootIsDigest_applied applied inStep.1
  | rollback toHeight =>
      obtain ⟨⟨same, -, root⟩, -⟩ := @emptied_rollback sr s.proving.view toHeight inStep
      refine root.trans (digest.trans (congrArg tree.digestOf ?_))
      funext boxId
      exact congrArg (Option.map StoredBox.boxBytes) (congrFun same.symm boxId)

theorem emptyRecord_undoOf {removed : List BoxEntry} (matched : change.spent.length = removed.length)
    (empty : EmptyRecord (some (undoOf sr change newHeight removed))) : change.spent = [] ∧ change.created = [] := by
  obtain ⟨spent, created⟩ := empty _ rfl
  have none := List.map_eq_nil_iff.mp spent
  rw [none] at matched
  exact ⟨List.length_eq_zero_iff.mp matched, List.map_eq_nil_iff.mp created⟩

theorem Reported.applied (rep : Reported s) {p : Proving tree} (next : newHeight = s.height + 1)
    (applied : RootApplied sr s.proving p change newHeight)
    (agreed : ∀ boxId, boxId ∉ change.spent → boxId ∉ change.created.map BoxEntry.boxId →
      tree.content s.proving.prover boxId = utxoContent s.columns boxId) : Reported (s.after p) := by
  have digest := rootIsDigest_applied applied agreed
  obtain ⟨removed, matched, moved⟩ := applied.core
  have height : p.view.mem.height = s.height + 1 := applied.height.trans next
  refine ⟨digest, Function.update_self .., fun i below empty root reported => ?_⟩
  have low : i < s.height + 1 := height ▸ below
  -- an empty top record is that of a change that does nothing
  have top : EmptyRecord ((core p.view.db.columns).undo (s.height + 1)) := empty _ low (Nat.le_of_eq height.symm)
  rw [moved, next, Core.undo_apply_self] at top
  obtain ⟨spent, created⟩ := emptyRecord_undoOf matched top
  have boxesSame : boxes p.view.db.columns = boxes s.columns := by
    have settled := congrArg Core.boxes moved
    simp only [Core.apply, spent, created] at settled
    exact settled
  have rootSame : p.view.mem.stateRoot = s.stateRoot := by
    rw [digest, rep.digest]
    congr 1
    funext boxId
    exact congrArg (Option.map StoredBox.boxBytes) (congrFun boxesSame boxId)
  have earlier : s.reported i = some root := by
    have other : i ≠ p.view.mem.height := Nat.ne_of_lt below
    rwa [Reporting.reported_after_of_ne s other] at reported
  refine Eq.trans ?_ rootSame.symm
  rcases Nat.lt_succ_iff_lt_or_eq.mp low with under | rfl
  · refine rep.below i under (fun j above upTo => ?_) root earlier
    have kept := empty j above (by rw [Reporting.height, Reporting.after, height]; omega)
    have other : j ≠ newHeight := by omega
    have same : (core p.view.db.columns).undo j = (core s.columns).undo j := by
      rw [moved]
      exact Core.undo_apply_of_ne _ _ _ other
    exact same ▸ kept
  · exact Option.some.inj (earlier.symm.trans rep.current)

theorem Reported.kept (rep : Reported s) {p : Proving tree} (emptied : Emptied s.proving.view p.view)
    (height : p.view.mem.height = s.height ∨ p.view.mem.height < s.height ∧
      ∀ i, p.view.mem.height < i → i ≤ s.height → EmptyRecord ((core s.columns).undo i)) : Reported (s.after p) := by
  have digest : (s.after p).RootIsDigest := by
    refine emptied.root.trans (rep.digest.trans (congrArg tree.digestOf ?_))
    funext boxId
    exact congrArg (Option.map StoredBox.boxBytes) (congrFun emptied.boxes.symm boxId)
  refine ⟨digest, Function.update_self .., fun i below empty root reported => ?_⟩
  have other : i ≠ p.view.mem.height := Nat.ne_of_lt below
  rw [Reporting.reported_after_of_ne s other] at reported
  have low : i < s.height := by
    have below : i < p.view.mem.height := below
    omega
  refine (rep.below i low (fun j above upTo => ?_) root reported).trans emptied.root.symm
  by_cases inside : j ≤ p.view.mem.height
  · rcases emptied.undo j with same | ⟨gone, -⟩
    · exact same ▸ empty j above inside
    · exact gone
  · rcases height with same | ⟨-, taken⟩
    · exact absurd (upTo.trans_eq same.symm) inside
    · exact taken j (Nat.not_le.mp inside) upTo

theorem mem_heightsAbove {height toHeight current : Nat} :
    height ∈ heightsAbove toHeight current ↔ toHeight < height ∧ height ≤ current := by
  simp only [heightsAbove, List.mem_reverse, List.mem_range'_1]
  omega

theorem reported_step (rep : Reported s) (inStep : s.InStep call) (next : s.AppliesNext call)
    (taken : Reporting.step sr s call = some t) : Reported t := by
  cases taken
  cases call with
  | applyChangeWithProof change newHeight =>
      rcases @applyChangeWithProof_outcome sr tree s.proving change newHeight inStep.2 with ⟨columns, mem⟩ | applied
      · refine rep.kept ⟨congrArg boxes columns, fun i => .inl ?_, congrArg UtxoState.stateRoot mem⟩
          (.inl (congrArg UtxoState.height mem))
        rw [columns]
      · exact rep.applied next applied inStep.1
  | rollback toHeight =>
      obtain ⟨emptied, height⟩ := @emptied_rollback sr s.proving.view toHeight inStep
      refine rep.kept emptied (height.imp id fun ⟨low, same⟩ => ?_)
      refine ⟨same.trans_lt low, fun i above upTo => inStep i (mem_heightsAbove.mpr ⟨?_, upTo⟩)⟩
      exact same ▸ above

theorem restoresRoot_of_reported (rep : Reported s) (inStep : s.InStep call) : Reporting.RestoresRoot sr s call := by
  cases call with
  | applyChangeWithProof change newHeight => trivial
  | rollback toHeight =>
      intro p root done reported
      obtain ⟨⟨-, -, same⟩, -⟩ := @emptied_rollback sr s.proving.view toHeight inStep
      rw [ProofCall.exec, onView, Op.exec_zoom, Prod.mk.injEq] at done
      obtain ⟨ok, rfl⟩ := done
      obtain ⟨low, -⟩ := rollback_eq_ok (Prod.ext ok rfl)
      have before := rep.below toHeight low (fun j above upTo => inStep j (mem_heightsAbove.mpr ⟨above, upTo⟩)) root reported
      exact same.trans before.symm

end Steps

/-! ### All states of a run -/

section Runs
variable {p : Proving tree} {calls : List ProofCall}

theorem reported_start (digest : (Reporting.start p).RootIsDigest) : Reported (Reporting.start p) := by
  refine ⟨digest, Function.update_self .., fun i low _ root reported => ?_⟩
  have none := (@Reporting.reported_after_of_ne tree ⟨p, fun _ => none⟩ p i (Nat.ne_of_lt low)).symm.trans reported
  cases none

/-- In every state of a run whose calls are in step with the boxes, the reported root is their digest; and
where blocks are applied one height at a time, a rollback leaves the root reported at its height. -/
theorem stateRoot_along (digest : (Reporting.start p).RootIsDigest)
    (inStep : Along (Reporting.step sr) Reporting.InStep (.start p) calls) :
    Always (Reporting.step sr) Reporting.RootIsDigest (.start p) calls ∧
      (Along (Reporting.step sr) Reporting.AppliesNext (.start p) calls →
        Along (Reporting.step sr) (Reporting.RestoresRoot sr) (.start p) calls) := by
  refine ⟨inStep.invariant _ rootIsDigest_step digest, fun next before call prefixed s reached => ?_⟩
  have both : Along (Reporting.step sr) (fun s call => s.InStep call ∧ s.AppliesNext call) (.start p) calls :=
    fun before call prefixed s reached => ⟨inStep before call prefixed s reached, next before call prefixed s reached⟩
  have reported := both.invariant Reported (fun rep conditions taken => reported_step rep conditions.1 conditions.2 taken)
    (reported_start digest) s ⟨before, (List.prefix_append before [call]).trans prefixed, reached⟩
  exact restoresRoot_of_reported reported (inStep before call prefixed s reached)

end Runs

section Samples
open Sample

/-- A map as its own prover; its digest tells which of the first boxes it holds. -/
def sampleTree : AvlTree where
  Prover := AvlContent
  performOneOperation content operation := match operation with
    | .remove key => match content key with
        | some _ => (.ok (), content.apply (AvlOperation.remove key).toBatch)
        | none => (.error "Key does not exist", content)
    | .insert key value => match content key with
        | some _ => (.error "Key already exists", content)
        | none => (.ok (), content.apply (AvlOperation.insert key value).toBatch)
  generateProof content := ([], content)
  digest content := some ([1, 2, 3, 4].map fun n => if (content (.filled n)).isSome then n else 0)
  content := id
  digestOf content := [1, 2, 3, 4].map fun n => if (content (.filled n)).isSome then n else 0
  content_of_ok := by
    intro content operation after done
    cases operation <;> dsimp only at done <;> split at done <;> cases done <;> rfl
  content_of_error := by
    intro content operation error after done
    cases operation <;> dsimp only at done <;> split at done <;> cases done <;> rfl
  content_generateProof _ := rfl
  digest_eq same := (Option.some.inj same).symm

def provingFresh : Proving sampleTree := ⟨⟨.empty, { UtxoState.new with stateRoot := [0, 0, 0, 0] }⟩, fun _ => none⟩

theorem emptyBlock_stateRoot :
    Always (Reporting.step boxCodec) Reporting.RootIsDigest (.start provingFresh)
      [.applyChangeWithProof emptyChange 1, .rollback 0, .applyChangeWithProof firstChange 1] ∧
    (Along (Reporting.step boxCodec) Reporting.AppliesNext (.start provingFresh)
        [.applyChangeWithProof emptyChange 1, .rollback 0, .applyChangeWithProof firstChange 1] →
      Along (Reporting.step boxCodec) (Reporting.RestoresRoot boxCodec) (.start provingFresh)
        [.applyChangeWithProof emptyChange 1, .rollback 0, .applyChangeWithProof firstChange 1]) := by
  refine @stateRoot_along boxCodec sampleTree provingFresh _ rfl ?_
  rw [along_cons]
  refine ⟨⟨fun boxId _ _ => rfl, fun _ => rfl⟩, fun _ taken => ?_⟩
  cases taken
  rw [along_cons]
  refine ⟨fun height member undo record => ?_, fun _ taken => ?_⟩
  · obtain rfl := List.mem_singleton.mp member
    cases record
    exact ⟨rfl, rfl⟩
  · cases taken
    rw [along_cons]
    exact ⟨⟨fun boxId _ _ => rfl, fun _ => rfl⟩, fun _ _ => along_nil⟩

/-- The first block is taken back, its boxes with it, and its root is still reported. -/
theorem rolledBack_stateRoot : (Reporting.start provingFresh).RootIsDigest ∧
    ¬ Always (Reporting.step boxCodec) Reporting.RootIsDigest (.start provingFresh)
      [.applyChangeWithProof firstChange 1, .rollback 0] ∧
    ¬ Along (Reporting.step boxCodec) (Reporting.RestoresRoot boxCodec) (.start provingFresh)
      [.applyChangeWithProof firstChange 1, .rollback 0] := by
  refine ⟨rfl, fun always => ?_, fun along => ?_⟩
  · have digest := always _ ⟨_, List.prefix_rfl, rfl⟩
    unfold Reporting.RootIsDigest at digest
    exact absurd digest (by decide)
  · have restores := along [.applyChangeWithProof firstChange 1] (.rollback 0) List.prefix_rfl _ rfl
    exact absurd (restores _ [0, 0, 0, 0] rfl rfl) (by decide)

end Samples

end ErgoNode.Proof.Utxo
