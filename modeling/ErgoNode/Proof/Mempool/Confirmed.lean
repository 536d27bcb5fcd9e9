import ErgoNode.Proof.Mempool.Weights

/-!
# The mempool after a block

What the block confirmed leaves the pool, and so does what spends a box that the block spent. Nothing
else does: a transaction whose pooled parent leaves stays.
-/

namespace ErgoNode.Proof.Mempool
open Lib ErgoNode.Mempool

variable {schedule : Schedule} {s : Session} {tx : PooledTransaction} {txId : Bytes}

theorem lookup_remove (linked : Linked s.pool) (gone : Bytes) :
    (remove schedule gone s).2.pool.transactions.lookup txId =
      if txId = gone then none else s.pool.transactions.lookup txId := by
  cases found : s.pool.transactions.lookup gone with
  | none =>
      rw [remove_of_unknown found]
      split
      · next same => rw [same, found]
      · rfl
  | some tx =>
      obtain ⟨wtx, weighed⟩ := linked.weighed found
      obtain ⟨gain, reweighed, -⟩ := @remove_scan schedule _ _ _ _ linked found weighed
      rw [reweighed.transactions]
      change (s.pool.transactions.erase gone).lookup txId = _
      split
      · next same => rw [same, AList.lookup_erase]
      · next different => exact AList.lookup_erase_ne different

theorem lookup_removeAll (linked : Linked s.pool) (txIds : List Bytes) :
    (removeAll schedule txIds s).2.pool.transactions.lookup txId =
      if txId ∈ txIds then none else s.pool.transactions.lookup txId := by
  induction txIds generalizing s with
  | nil => rfl
  | cons gone rest ih =>
      have linked' : Linked (remove schedule gone s).2.pool := kept_linked.remove gone linked
      change (removeAll schedule rest (remove schedule gone s).2).2.pool.transactions.lookup txId = _
      rw [ih linked', lookup_remove linked]
      by_cases same : txId = gone
      · simp [same]
      · simp [same]

def Conflicts (txIds spentInputs : List Bytes) (tx : PooledTransaction) : Prop :=
  tx.id ∉ txIds ∧ ∃ boxId ∈ spentInputs, boxId ∈ tx.inputs

theorem mem_removeConfirmed (linked : Linked s.pool) (txIds spentInputs : List Bytes) :
    tx ∈ (removeConfirmed schedule txIds spentInputs s).2.pool.pooled ↔
      tx ∈ s.pool.pooled ∧ tx.id ∉ txIds ∧ ∀ boxId ∈ spentInputs, boxId ∉ tx.inputs := by
  let t := (removeAll schedule txIds s).2
  have linked' : Linked t.pool := kept_linked.removeAll txIds linked
  have last : Linked (removeConfirmed schedule txIds spentInputs s).2.pool :=
    kept_linked.removeConfirmed txIds spentInputs linked
  have first : ∀ txId, t.pool.transactions.lookup txId =
      if txId ∈ txIds then none else s.pool.transactions.lookup txId := fun _ => lookup_removeAll linked txIds
  have conflicting : tx.id ∈ (spentInputs.filterMap t.pool.getSpendingTx).filter (fun txId => txId ∉ txIds) ↔
      (∃ boxId ∈ spentInputs, t.pool.inputToTx.lookup boxId = some tx.id) ∧ tx.id ∉ txIds := by
    simp [getSpendingTx]
  have after : (removeConfirmed schedule txIds spentInputs s).2.pool.transactions.lookup tx.id = _ :=
    lookup_removeAll linked' ((spentInputs.filterMap t.pool.getSpendingTx).filter fun txId => txId ∉ txIds)
  rw [← and_iff_left (a := tx ∈ (removeConfirmed schedule txIds spentInputs s).2.pool.pooled) (rfl : tx.id = tx.id),
    ← last.lookup_iff, after, first]
  simp only [conflicting, linked'.spent _ _, first]
  by_cases confirmed : tx.id ∈ txIds
  · simp [confirmed]
  · simp only [confirmed, if_false, not_false_eq_true, and_true, true_and]
    constructor
    · intro found
      split at found
      · cases found
      · next free =>
        refine ⟨(linked.lookup_iff.mp found).1, fun boxId member spends => free ?_⟩
        exact ⟨boxId, member, tx, found, spends⟩
    · rintro ⟨member, free⟩
      have found := linked.lookup_iff.mpr ⟨member, rfl⟩
      rw [if_neg, found]
      rintro ⟨boxId, spent, other, found', spends⟩
      rw [found] at found'
      cases found'
      exact free boxId spent spends

theorem reachable_linked (config : MempoolConfig) (actions : List (Schedule × Action)) :
    Always step Linked (new config) actions := by
  obtain ⟨last, ran⟩ := @exists_run _ _ step (fun _ _ => rfl) (new config) actions
  have along : Along step (fun _ _ => True) (new config) actions :=
    (along_actions ran).mpr fun _ _ => trivial
  exact along.invariant Linked (fun linked _ taken => linked_step linked taken) (linked_new config)

/-- What `remove_confirmed` leaves of a reachable pool: no spender of a box the block spent, and of the
rest everything, spenders of what was removed included. -/
theorem removeConfirmed_leaves (config : MempoolConfig) (actions : List (Schedule × Action)) {pool : Mempool}
    (visited : Visits step (new config) actions pool) (schedule : Schedule) (txIds spentInputs : List Bytes) :
    let after := (removeConfirmed schedule txIds spentInputs pool.session).2.pool
    (∀ tx ∈ after.pooled, ∀ boxId ∈ spentInputs, boxId ∉ tx.inputs) ∧
      ∀ tx, tx ∈ after.pooled ↔ tx ∈ pool.pooled ∧ tx.id ∉ txIds ∧ ¬ Conflicts txIds spentInputs tx := by
  have linked := reachable_linked config actions pool visited
  have left : ∀ tx, _ ↔ _ := fun tx => @mem_removeConfirmed schedule pool.session tx linked txIds spentInputs
  refine ⟨fun tx member => ((left tx).mp member).2.2, fun tx => (left tx).trans ?_⟩
  refine and_congr_right fun _ => and_congr_right fun unconfirmed => ?_
  simp [Conflicts, unconfirmed]

/-- A block spends the parent's input: the child is all that is left of the pool. -/
theorem familyActions_conflict :
    ∃ pool, run step (new .default) (familyActions.take 2) = some pool ∧
      Sample.pooledChild ∈ (removeConfirmed Sample.inOrder [] [[20]] pool.session).2.pool.pooled :=
  ⟨_, rfl, ((removeConfirmed_leaves .default familyActions ⟨familyActions.take 2, List.take_prefix _ _, rfl⟩
    Sample.inOrder [] [[20]]).2 Sample.pooledChild).mpr (by unfold Conflicts; decide)⟩

/-- Nothing that spends a box the block spent is left, and nothing that spends an output of such a
transaction. -/
def ConflictsCleared (before after : Mempool) (txIds spentInputs : List Bytes) : Prop :=
  (∀ tx ∈ after.pooled, ∀ boxId ∈ spentInputs, boxId ∉ tx.inputs) ∧
    ∀ tx ∈ after.pooled, ∀ gone ∈ before.pooled, Conflicts txIds spentInputs gone → ¬ Spends tx gone

theorem orphans_stay : ¬ ∀ actions pool, DistinctOutputs (added actions) → Visits step (new .default) actions pool →
    ∀ schedule txIds spentInputs,
      ConflictsCleared pool (removeConfirmed schedule txIds spentInputs pool.session).2.pool txIds spentInputs := by
  intro all
  have cleared := all familyActions _ (by decide) ⟨familyActions.take 2, List.take_prefix _ _, rfl⟩ Sample.inOrder []
    [[20]]
  exact cleared.2 Sample.pooledChild (by decide) Sample.pooledParent (by decide) (by unfold Conflicts; decide)
    (by decide)

end ErgoNode.Proof.Mempool
