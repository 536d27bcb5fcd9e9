import ErgoNode.Proof.Manager.Written

/-!
# A batch beside the blocks one by one

`applyBlocksBatched` computes every block of a batch over the database as it was before the first one,
with three things carried along: the batch itself, the boxes created so far and the running total of the
difficulties. Here it runs beside the same blocks applied one by one.
-/

namespace ErgoNode.Proof.Manager
open Lib StateManager Utxo
open UtxoState (getBox boxInContext)
open ErgoNode.Proof.History (bestHeader bestHeader_withBestBlock fullBlock fullBlock_withBestBlock)

variable {sr : SigmaRust}

def applyItem (sr : SigmaRust) (item : FullBlock × StateChange) : Op StateManager StateError Unit := do
  let _ ← StateManager.applyBlock sr item.1 item.2

def applySingly (sr : SigmaRust) (blocks : List (FullBlock × StateChange)) : Op StateManager StateError Unit :=
  Op.forEach (applyItem sr) blocks

structure Progress where
  manager : StateManager
  context : BoxMap
  total : Nat

def Progress.start (st : StateManager) (blocks : List (FullBlock × StateChange)) : Progress :=
  ⟨st, BoxMap.empty, (blocks.head?.map fun item => History.parentCumulative st.db item.1.header).getD 0⟩

def applyNext (sr : SigmaRust) (now : Progress) (item : FullBlock × StateChange) : Option Progress :=
  match (applyItem sr item).exec now.manager with
  | (.ok _, manager) =>
      some ⟨manager, now.context.afterBlock item.2, now.total + nbitsToDifficulty item.1.header.nBits⟩
  | (.error _, _) => none

/-- The batch finds for a block what the block finds on its own: each spent box, and the difficulty up to its
parent. -/
structure Sees (sr : SigmaRust) (st : StateManager) (now : Progress) (item : FullBlock × StateChange) : Prop where
  boxes : ∀ boxId ∈ item.2.spent,
    boxInContext sr st.db item.2 now.context boxId = getBox sr now.manager.db boxId
  difficulty : History.parentCumulative now.manager.db item.1.header = now.total

instance (sr : SigmaRust) (st : StateManager) (now : Progress) (item : FullBlock × StateChange) :
    Decidable (Sees sr st now item) :=
  decidable_of_iff ((∀ boxId ∈ item.2.spent,
      boxInContext sr st.db item.2 now.context boxId = getBox sr now.manager.db boxId) ∧
      History.parentCumulative now.manager.db item.1.header = now.total)
    ⟨fun ⟨boxes, difficulty⟩ => ⟨boxes, difficulty⟩, fun sees => ⟨sees.boxes, sees.difficulty⟩⟩

def touchesAt (sr : SigmaRust) (now : StateManager) (change : StateChange) : List (Touch BoxId BoxEntry) :=
  touchesOf now.utxo.syncMode change
    ((change.spent.mapM (UtxoState.requireBox (getBox sr now.db))).toOption.getD [])

/-- The touches of the blocks one by one, each with the index lists that its block reads. -/
def readings (sr : SigmaRust) : StateManager → List (FullBlock × StateChange) →
    List ((IndexKey → List BoxId) × Touch BoxId BoxEntry)
  | _, [] => []
  | now, item :: rest =>
      (touchesAt sr now item.2).map (fun touch => (indexOf now.db.columns, touch)) ++
        readings sr ((applyItem sr item).exec now).2 rest

def sums : Nat → List (FullBlock × StateChange) → List (Option BlockId × Nat × Nat)
  | _, [] => []
  | total, item :: rest =>
      let sum := total + nbitsToDifficulty item.1.header.nBits
      (some item.1.id, item.1.height, sum) :: sums sum rest

section Runs
variable {st single : StateManager} {now next : Progress} {acc : BlockBatch} {item : FullBlock × StateChange}
variable {blocks rest : List (FullBlock × StateChange)} {removed : List BoxEntry}

theorem applyNext_eq_some (taken : applyNext sr now item = some next) :
    (∃ removed, BlockAlone sr now.manager item removed next.manager) ∧
      ((applyItem sr item).exec now.manager).2 = next.manager ∧ next.context = now.context.afterBlock item.2 ∧
      next.total = now.total + nbitsToDifficulty item.1.header.nBits := by
  unfold applyNext at taken
  rcases ran : (applyItem sr item).exec now.manager with ⟨error | _, manager⟩
  · rw [ran] at taken
    cases taken
  · rw [ran] at taken
    cases taken
    obtain ⟨selection, done⟩ := Op.exec_discard_eq_ok.mp ran
    exact ⟨blockAlone done, rfl, rfl, rfl⟩

/-- The first block of a run, and the run of the others. -/
theorem blockAlone_of_run (ran : run (applyNext sr) now (item :: rest) = some next) : ∃ middle removed,
    BlockAlone sr now.manager item removed middle.manager ∧ run (applyNext sr) middle rest = some next := by
  obtain ⟨middle, taken, after⟩ := run_cons_eq_some.mp ran
  obtain ⟨⟨removed, alone⟩, -⟩ := applyNext_eq_some taken
  exact ⟨middle, removed, alone, after⟩

theorem run_of_applySingly {context : BoxMap} {total : Nat}
    (done : (applySingly sr blocks).exec st = (.ok (), single)) :
    ∃ final, run (applyNext sr) ⟨st, context, total⟩ blocks = some final ∧ final.manager = single := by
  induction blocks generalizing st context total with
  | nil =>
      cases done
      exact ⟨_, rfl, rfl⟩
  | cons item rest ih =>
      rw [applySingly, Op.exec_forEach_cons] at done
      rcases ran : (applyItem sr item).exec st with ⟨error | _, middle⟩
      · rw [ran] at done
        cases done
      · rw [ran] at done
        obtain ⟨final, later, same⟩ := ih done
        refine ⟨final, ?_, same⟩
        rw [run_cons, applyNext, ran]
        exact later

theorem touchesAt_eq (found : List.Forall₂ (fun boxId entry => getBox sr now.manager.db boxId = .ok (some entry))
    item.2.spent removed) :
    touchesAt sr now.manager item.2 = touchesOf now.manager.utxo.syncMode item.2 removed := by
  have all : item.2.spent.mapM (UtxoState.requireBox (getBox sr now.manager.db)) = .ok removed :=
    mapM_eq_ok.mpr (found.imp fun _ _ here => requireBox_eq_ok.mpr here)
  rw [touchesAt, all]
  rfl

/-- The batch at hand has the boxes, undo records and difficulties of the one-by-one run. -/
structure Matches (st : StateManager) (now : Progress) (acc : BlockBatch) : Prop where
  context : acc.batchCreatedBoxes = now.context
  total : acc.cumulativeDifficulty = now.total
  boxes : boxes now.manager.db.columns = boxes (st.db.columns.write acc.batch)
  undo : now.manager.db.columns.column .undoData = (st.db.columns.write acc.batch).column .undoData
  cumulative : now.manager.db.columns.column .cumulativeDifficulty =
    (st.db.columns.write acc.batch).column .cumulativeDifficulty

theorem matches_start (st : StateManager) (blocks : List (FullBlock × StateChange)) :
    Matches st (Progress.start st blocks) ⟨[], (Progress.start st blocks).total, BoxMap.empty⟩ :=
  ⟨rfl, rfl, rfl, rfl, rfl⟩

theorem rightUnique_found {α β ε : Type} (f : α → Except ε (Option β)) :
    Relator.RightUnique fun x y => f x = .ok (some y) := by
  intro x y z first second
  rw [first] at second
  cases second
  rfl

theorem Sees.found (sees : Sees sr st now item)
    (found : List.Forall₂ (fun boxId entry => getBox sr now.manager.db boxId = .ok (some entry)) item.2.spent removed) :
    List.Forall₂ (fun boxId entry => boxInContext sr st.db item.2 now.context boxId = .ok (some entry))
      item.2.spent removed := by
  rw [List.forall₂_iff_zip] at found ⊢
  refine ⟨found.1, fun {boxId entry} member => ?_⟩
  rw [sees.boxes boxId (List.of_mem_zip member).1]
  exact found.2 member

theorem Matches.step (matching : Matches st now acc) (sees : Sees sr st now item)
    (taken : applyNext sr now item = some next) : ∃ acc', addToBatch sr st acc item = .ok acc' ∧ Matches st next acc' := by
  obtain ⟨⟨removed, alone⟩, -, context, total⟩ := applyNext_eq_some taken
  have found := sees.found alone.found
  rw [← matching.context] at found
  obtain ⟨acc', joined⟩ := addToBatch_total alone.encodes alone.created alone.saved found
  obtain ⟨others, batched⟩ := blockInBatch joined
  cases (rightUnique_found _).forall₂ found batched.found
  refine ⟨acc', joined, ?_, ?_, ?_, ?_, ?_⟩
  · rw [batched.context, context, matching.context]
  · rw [batched.total, total, matching.total]
  · rw [alone.written.boxes, batched.written.boxes, matching.boxes]
  · rw [alone.written.undo, batched.written.undo, matching.undo]
  · rw [alone.written.cumulative, batched.written.cumulative, matching.cumulative, batched.total, matching.total,
      sees.difficulty]

theorem Matches.run (matching : Matches st now acc) (sees : Along (applyNext sr) (Sees sr st) now blocks)
    (ran : run (applyNext sr) now blocks = some next) :
    ∃ acc', blocks.foldlM (addToBatch sr st) acc = .ok acc' ∧ Matches st next acc' := by
  induction blocks generalizing now acc with
  | nil =>
      cases ran
      exact ⟨acc, rfl, matching⟩
  | cons item rest ih =>
      rw [run_cons_eq_some] at ran
      obtain ⟨middle, taken, ran⟩ := ran
      obtain ⟨acc', joined, matchingNext⟩ := matching.step sees.head taken
      obtain ⟨final, later, matchingLast⟩ := ih matchingNext (sees.tail taken) ran
      exact ⟨final, by rw [List.foldlM_cons, joined]; exact later, matchingLast⟩

/-! ### Indexes and history -/

theorem utxo_run (ran : run (applyNext sr) now blocks = some next) :
    blocks.map (·.1.height) = List.range' (now.manager.utxo.height + 1) blocks.length ∧
      next.manager.utxo = { now.manager.utxo with height := now.manager.utxo.height + blocks.length } := by
  induction blocks generalizing now with
  | nil =>
      cases ran
      exact ⟨rfl, rfl⟩
  | cons item rest ih =>
      obtain ⟨middle, removed, alone, ran⟩ := blockAlone_of_run ran
      obtain ⟨heights, utxo⟩ := ih ran
      rw [alone.utxo, alone.height] at heights utxo
      constructor
      · rw [List.map_cons, heights, alone.height, List.length_cons, List.range'_succ]
      · rw [utxo, List.length_cons, Nat.add_right_comm, Nat.add_assoc]

theorem index_run (ran : run (applyNext sr) now blocks = some next) :
    indexOf next.manager.db.columns =
      Touch.updates (indexKeys sr) (indexOf now.manager.db.columns) (readings sr now.manager blocks) := by
  induction blocks generalizing now with
  | nil =>
      cases ran
      rfl
  | cons item rest ih =>
      rw [run_cons_eq_some] at ran
      obtain ⟨middle, taken, ran⟩ := ran
      obtain ⟨⟨removed, alone⟩, same, -⟩ := applyNext_eq_some taken
      rw [readings, Touch.updates_append, Touch.updates_map, touchesAt_eq alone.found, ← alone.written.index, same]
      exact ih ran

/-- The batch touches the indexes as the blocks do one by one, and reads the lists from before the batch. -/
theorem index_batch {acc' : BlockBatch} (sees : Along (applyNext sr) (Sees sr st) now blocks)
    (ran : run (applyNext sr) now blocks = some next) (context : acc.batchCreatedBoxes = now.context)
    (mode : now.manager.utxo.syncMode = st.utxo.syncMode) (joined : blocks.foldlM (addToBatch sr st) acc = .ok acc') :
    indexOf (st.db.columns.write acc'.batch) = Touch.updates (indexKeys sr) (indexOf (st.db.columns.write acc.batch))
      (Touch.reread (indexOf st.db.columns) (readings sr now.manager blocks)) := by
  induction blocks generalizing now acc with
  | nil =>
      cases joined
      rfl
  | cons item rest ih =>
      rw [run_cons_eq_some] at ran
      rw [List.foldlM_cons, Except.bind_ok_eq_ok] at joined
      obtain ⟨middle, taken, ran⟩ := ran
      obtain ⟨accNext, turn, joined⟩ := joined
      obtain ⟨⟨removed, alone⟩, same, contextNext, -⟩ := applyNext_eq_some taken
      obtain ⟨others, batched⟩ := blockInBatch turn
      have found := sees.head.found alone.found
      rw [← context] at found
      cases (rightUnique_found _).forall₂ found batched.found
      rw [readings, Touch.reread_append, Touch.reread_map, Touch.updates_append, Touch.updates_map,
        touchesAt_eq alone.found, mode, ← batched.written.index, same]
      refine ih (sees.tail taken) ran ?_ ?_ joined
      · rw [batched.context, contextNext, context]
      · rw [alone.utxo, mode]

def sumTo (total : Nat) (blocks : List (FullBlock × StateChange)) : Nat :=
  blocks.foldl (fun total item => total + nbitsToDifficulty item.1.header.nBits) total

theorem total_run (ran : run (applyNext sr) now blocks = some next) : next.total = sumTo now.total blocks := by
  induction blocks generalizing now with
  | nil =>
      cases ran
      rfl
  | cons item rest ih =>
      rw [run_cons_eq_some] at ran
      obtain ⟨middle, taken, ran⟩ := ran
      obtain ⟨-, -, -, total⟩ := applyNext_eq_some taken
      rw [ih ran, total]
      rfl

theorem sums_append (total : Nat) (first second : List (FullBlock × StateChange)) :
    sums total (first ++ second) = sums total first ++ sums (sumTo total first) second := by
  induction first generalizing total with
  | nil => rfl
  | cons item rest ih =>
      rw [List.cons_append, sums, ih]
      rfl

theorem le_sumTo (total : Nat) (blocks : List (FullBlock × StateChange)) : total ≤ sumTo total blocks := by
  induction blocks generalizing total with
  | nil => exact le_rfl
  | cons item rest ih => exact (Nat.le_add_right _ _).trans (ih _)

theorem mem_sums {total : Nat} {offered : Option BlockId × Nat × Nat} (member : offered ∈ sums total blocks) :
    offered.2.1 ∈ blocks.map (·.1.height) ∧ offered.2.2 ≤ sumTo total blocks := by
  induction blocks generalizing total with
  | nil => cases member
  | cons item rest ih =>
      rcases List.mem_cons.mp member with rfl | later
      · exact ⟨List.mem_cons_self, le_sumTo _ rest⟩
      · obtain ⟨height, le⟩ := ih later
        exact ⟨List.mem_cons_of_mem _ height, le⟩

theorem bestHeader_better (history : ErgoNode.History) (id : BlockId) (height cumulative : Nat) :
    bestHeader (history.withBestBlock id height cumulative) =
      better (fun offered => offered.2.2) (bestHeader history) (some id, height, cumulative) :=
  bestHeader_withBestBlock history id height cumulative

theorem fullBlock_better (history : ErgoNode.History) (id : BlockId) (height cumulative : Nat) :
    fullBlock (history.withBestBlock id height cumulative) =
      better (fun offered => offered.2) (fullBlock history) (some id, height) :=
  fullBlock_withBestBlock history id height cumulative

theorem history_ext {history other : ErgoNode.History} (best : bestHeader history = bestHeader other)
    (full : fullBlock history = fullBlock other) : history = other := by
  simp only [bestHeader, fullBlock, Prod.mk.injEq] at best full
  obtain ⟨id, height, cumulative⟩ := best
  obtain ⟨fullId, fullHeight⟩ := full
  cases history
  cases other
  rw [History.mk.injEq]
  exact ⟨id, height, cumulative, fullId, fullHeight⟩

theorem fullBlock_run (ran : run (applyNext sr) now blocks = some next) :
    fullBlock next.manager.history = (blocks.map fun item => (some item.1.id, item.1.height)).foldl
      (better fun offered => offered.2) (fullBlock now.manager.history) := by
  induction blocks generalizing now with
  | nil =>
      cases ran
      rfl
  | cons item rest ih =>
      obtain ⟨middle, removed, alone, ran⟩ := blockAlone_of_run ran
      rw [ih ran, alone.history, fullBlock_better]
      rfl

theorem bestHeader_run (sees : Along (applyNext sr) (Sees sr st) now blocks)
    (ran : run (applyNext sr) now blocks = some next) :
    bestHeader next.manager.history = (sums now.total blocks).foldl (better fun offered => offered.2.2)
      (bestHeader now.manager.history) := by
  induction blocks generalizing now with
  | nil =>
      cases ran
      rfl
  | cons item rest ih =>
      rw [run_cons_eq_some] at ran
      obtain ⟨middle, taken, ran⟩ := ran
      obtain ⟨⟨removed, alone⟩, -, -, total⟩ := applyNext_eq_some taken
      rw [ih (sees.tail taken) ran, alone.history, bestHeader_better, sees.head.difficulty, total]
      rfl

end Runs

end ErgoNode.Proof.Manager
