import ErgoNode.Lib.Wrapping
import ErgoNode.Lib.Propagation
import ErgoNode.Proof.Mempool.Linked

/-!
# What a scan for parents does

A scan changes weights only. Where it meets no limit, each pooled transaction gains the weight delta
once for every chain of spent outputs that leads up to it from where the scan began.
-/

namespace ErgoNode.Proof.Mempool
open Lib Lib.Propagation ErgoNode.Mempool

structure Reweighed (pool pool' : Mempool) (gain : Bytes → Int64) : Prop where
  rest : pool' = { pool with registry := pool'.registry, weightOrder := pool'.weightOrder }
  registry : ∀ txId, pool'.registry.lookup txId =
    (pool.registry.lookup txId).map fun wtx => wtx.addWeight (gain txId)
  ordered : ∀ wtx, wtx ∈ pool'.weightOrder ↔ pool'.registry.lookup wtx.txId = some wtx

variable {pool pool' pool'' : Mempool} {gain gain' : Bytes → Int64}

theorem addWeight_zero (wtx : WeightedTxId) : wtx.addWeight 0 = wtx := by
  cases wtx
  simp [WeightedTxId.addWeight]

theorem addWeight_addWeight (wtx : WeightedTxId) (a b : Int64) :
    (wtx.addWeight a).addWeight b = wtx.addWeight (a + b) := by
  simp [WeightedTxId.addWeight, Int64.add_assoc]

namespace Reweighed

theorem refl (linked : Linked pool) : Reweighed pool pool 0 where
  rest := rfl
  registry := by simp [addWeight_zero]
  ordered := linked.ordered

theorem trans (first : Reweighed pool pool' gain) (second : Reweighed pool' pool'' gain') :
    Reweighed pool pool'' (gain + gain') where
  rest := by rw [second.rest, first.rest]
  registry := by
    intro txId
    rw [second.registry, first.registry, Option.map_map]
    congr 1
    funext wtx
    exact addWeight_addWeight wtx _ _
  ordered := second.ordered

variable (reweighed : Reweighed pool pool' gain)
include reweighed

theorem transactions : pool'.transactions = pool.transactions := by rw [reweighed.rest]

theorem outputToTx : pool'.outputToTx = pool.outputToTx := by rw [reweighed.rest]

theorem inputToTx : pool'.inputToTx = pool.inputToTx := by rw [reweighed.rest]

theorem totalSize : pool'.totalSize = pool.totalSize := by rw [reweighed.rest]

theorem config : pool'.config = pool.config := by rw [reweighed.rest]

theorem pooled : pool'.pooled = pool.pooled := by rw [Mempool.pooled, reweighed.transactions, Mempool.pooled]

theorem mem_registry (txId : Bytes) : txId ∈ pool'.registry ↔ txId ∈ pool.registry := by
  rw [← AList.lookup_isSome, reweighed.registry, Option.isSome_map, AList.lookup_isSome]

theorem linked (linked : Linked pool) : Linked pool' where
  identified := by
    rw [reweighed.transactions]
    exact linked.identified
  registered := by
    intro txId
    rw [reweighed.transactions, reweighed.mem_registry, linked.registered]
  named := by
    intro txId wtx found
    rw [reweighed.registry] at found
    obtain ⟨old, known, rfl⟩ := Option.map_eq_some_iff.mp found
    have name : old.txId = txId := linked.named known
    exact name
  ordered := reweighed.ordered
  spent := by
    rw [reweighed.transactions, reweighed.inputToTx]
    exact linked.spent
  made := by
    rw [reweighed.transactions, reweighed.outputToTx]
    exact linked.made
  sized := by
    rw [reweighed.pooled, reweighed.totalSize]
    exact linked.sized

theorem consistent (consistent : Consistent pool) : Consistent pool' :=
  { reweighed.linked consistent.toLinked with
    created := by
      rw [reweighed.transactions, reweighed.outputToTx]
      exact consistent.created }

end Reweighed

theorem reweigh_reweighed (linked : Linked pool) {parentId : Bytes} {oldWtx : WeightedTxId} (delta : Int64)
    (found : pool.registry.lookup parentId = some oldWtx) :
    Reweighed pool (pool.reweigh parentId oldWtx delta) fun txId => if txId = parentId then delta else 0 where
  rest := rfl
  registry := by
    intro txId
    by_cases same : txId = parentId
    · subst same
      simp [reweigh, found]
    · simp [reweigh, same, AList.lookup_insert_ne, addWeight_zero]
  ordered := by
    have name : oldWtx.txId = parentId := linked.named found
    have fresh : ∀ other ∈ pool.weightOrder.erase oldWtx, other.key ≠ (oldWtx.addWeight delta).key := by
      intro other member same
      have known := (ordered_detach linked found).mp member
      apply (Entries.lookup_erase_iff.mp known).1
      exact (WeightedTxId.txId_eq_of_key_eq same).trans name
    intro wtx
    change wtx ∈ (pool.weightOrder.erase oldWtx).insert (oldWtx.addWeight delta) ↔
      (pool.registry.insert parentId (oldWtx.addWeight delta)).lookup wtx.txId = some wtx
    rw [SortedSet.mem_insert fresh, ordered_detach linked found, Entries.lookup_erase_iff,
      Entries.lookup_insert_iff]
    apply or_congr_left
    refine ⟨fun same => ⟨?_, same⟩, And.right⟩
    rw [same]
    exact name

/-! ### Scans -/

def parentsOf (pool : Mempool) (tx : PooledTransaction) : Finset Bytes :=
  (pool.parentTxIds tx).toFinset.erase tx.id

/-- The pooled transactions whose outputs a transaction spends, for the pooled ones and for `x`. -/
def family (pool : Mempool) (x : PooledTransaction) (txId : Bytes) : Finset Bytes :=
  if txId = x.id then parentsOf pool x
  else ((pool.transactions.lookup txId).map (parentsOf pool)).getD ∅

theorem Reweighed.parentsOf (reweighed : Reweighed pool pool' gain) : parentsOf pool' = parentsOf pool := by
  funext tx
  rw [Mempool.parentsOf, parentTxIds, reweighed.outputToTx]
  rfl

/-- From `s` to `s'` weights have changed; unless a limit was met, `complete` holds and the weights have
changed by `expected`. -/
def Scan (s s' : Session) (complete : Prop) (expected : Bytes → Int64) : Prop :=
  ∃ gain, Reweighed s.pool s'.pool gain ∧
    (s'.cutShort = false → s.cutShort = false ∧ complete ∧ gain = expected)

theorem Scan.trans {s s' s'' : Session} {complete complete' : Prop} {expected expected' : Bytes → Int64}
    (first : Scan s s' complete expected) (second : Scan s' s'' complete' expected') :
    Scan s s'' (complete ∧ complete') (expected + expected') := by
  obtain ⟨gain, reweighed, full⟩ := first
  obtain ⟨gain', reweighed', full'⟩ := second
  refine ⟨gain + gain', reweighed.trans reweighed', fun done => ?_⟩
  obtain ⟨done', complete', rfl⟩ := full' done
  obtain ⟨done, complete, rfl⟩ := full done'
  exact ⟨done, ⟨complete, complete'⟩, rfl⟩

section Scans
variable {base : Mempool} {x tx parentTx : PooledTransaction} {delta : Int64} {levels : Nat} {s : Session}
  {before : Bytes → Int64} {scan : PooledTransaction → Session → Session} {parentId : Bytes}

theorem family_found (own : ∀ other, base.transactions.lookup x.id = some other → other = x)
    (found : base.transactions.lookup parentId = some parentTx) :
    family base x parentId = parentsOf base parentTx := by
  unfold family
  split
  · next same =>
    subst same
    rw [own parentTx found]
  · rw [found]
    rfl

theorem known_of_mem_parentTxIds (linked : Linked base) (member : parentId ∈ base.parentTxIds tx) :
    ∃ parentTx, base.transactions.lookup parentId = some parentTx := by
  obtain ⟨boxId, -, created⟩ := List.mem_filterMap.mp (List.mem_dedup.mp member)
  obtain ⟨parentTx, found, -⟩ := linked.made created
  exact ⟨parentTx, found⟩

theorem updateParent_scan (linked : Linked base)
    (own : ∀ other, base.transactions.lookup x.id = some other → other = x)
    (scans : ∀ {tx s before}, Reweighed base s.pool before → family base x tx.id = parentsOf base tx →
      Scan s (scan tx s) (Within (family base x) levels tx.id) (spread (family base x) delta levels tx.id))
    (reached : Reweighed base s.pool before) (found : base.transactions.lookup parentId = some parentTx)
    (different : parentId ≠ tx.id) :
    Scan s (updateParent scan tx delta s parentId) (Within (family base x) levels parentId)
      fun a => (if a = parentId then delta else 0) + spread (family base x) delta levels parentId a := by
  have here := reached.linked linked
  have found' : s.pool.transactions.lookup parentId = some parentTx := by rwa [reached.transactions]
  obtain ⟨oldWtx, weighed⟩ := here.weighed found'
  have name : parentTx.id = parentId := linked.identified found
  have raised := reweigh_reweighed here delta weighed
  let t := { s with pool := s.pool.reweigh parentId oldWtx delta }
  have step : Scan s t True fun txId => if txId = parentId then delta else 0 :=
    ⟨_, raised, fun done => ⟨done, trivial, rfl⟩⟩
  have above := @scans parentTx t _ (reached.trans raised) (by rw [name, family_found own found])
  rw [name] at above
  rw [updateParent, if_neg different, weighed, found']
  have both := step.trans above
  rw [true_and] at both
  exact both

theorem foldl_updateParent_scan (linked : Linked base)
    (own : ∀ other, base.transactions.lookup x.id = some other → other = x)
    (scans : ∀ {tx s before}, Reweighed base s.pool before → family base x tx.id = parentsOf base tx →
      Scan s (scan tx s) (Within (family base x) levels tx.id) (spread (family base x) delta levels tx.id))
    {parentIds : List Bytes} (known : ∀ p ∈ parentIds, ∃ parentTx, base.transactions.lookup p = some parentTx)
    (reached : Reweighed base s.pool before) :
    Scan s (parentIds.foldl (updateParent scan tx delta) s)
      (∀ p ∈ parentIds.filter (· ≠ tx.id), Within (family base x) levels p)
      fun a => ((parentIds.filter (· ≠ tx.id)).map fun p =>
        (if a = p then delta else 0) + spread (family base x) delta levels p a).sum := by
  induction parentIds generalizing s before with
  | nil => exact ⟨0, .refl (reached.linked linked), fun done => ⟨done, by simp, rfl⟩⟩
  | cons p rest ih =>
      have later := fun p' member => known p' (List.mem_cons_of_mem p member)
      by_cases same : p = tx.id
      · have skipped : updateParent scan tx delta s p = s := if_pos same
        rw [List.foldl_cons, skipped]
        simpa only [List.filter_cons, same, ne_eq, not_true_eq_false, decide_false, Bool.false_eq_true,
          if_false] using ih later reached
      · obtain ⟨parentTx, found⟩ := known p List.mem_cons_self
        have first := @updateParent_scan base x tx parentTx delta levels s before scan p linked own scans reached
          found same
        obtain ⟨gain, reweighed, -⟩ := id first
        have all := first.trans (ih later (reached.trans reweighed))
        rw [List.filter_cons_of_pos (by simpa using same)]
        simp only [List.foldl_cons, List.forall_mem_cons, List.map_cons, List.sum_cons]
        exact all

theorem updateFamilyRecursive_scan (schedule : Schedule) (linked : Linked base)
    (own : ∀ other, base.transactions.lookup x.id = some other → other = x)
    (reached : Reweighed base s.pool before) (placed : family base x tx.id = parentsOf base tx) :
    Scan s (updateFamilyRecursive schedule delta levels tx s) (Within (family base x) levels tx.id)
      (spread (family base x) delta levels tx.id) := by
  induction levels generalizing tx s before with
  | zero => exact ⟨0, .refl (reached.linked linked), fun done => by cases done⟩
  | succ levels ih =>
      rw [updateFamilyRecursive]
      split
      · let parentIds := schedule.order s.scans (s.pool.parentTxIds tx)
        have permuted : parentIds.Perm (base.parentTxIds tx) := by
          have same : s.pool.parentTxIds tx = base.parentTxIds tx := by
            rw [parentTxIds, reached.outputToTx, parentTxIds]
          exact same ▸ schedule.perm _ _
        have folded := @foldl_updateParent_scan base x tx delta levels { s with scans := s.scans + 1 } before _ linked
          own (fun reached placed => ih reached placed) _
          (fun p member => known_of_mem_parentTxIds linked (permuted.mem_iff.mp member)) reached
        have members : ∀ p, p ∈ parentIds.filter (· ≠ tx.id) ↔ p ∈ family base x tx.id := by
          intro p
          rw [placed, parentsOf, Finset.mem_erase, List.mem_toFinset, List.mem_filter, permuted.mem_iff,
            decide_eq_true_iff, and_comm]
        have distinct : (parentIds.filter (· ≠ tx.id)).Nodup :=
          (permuted.nodup_iff.mpr (List.nodup_dedup _)).filter _
        have listed : (parentIds.filter (· ≠ tx.id)).toFinset = family base x tx.id := by
          ext p
          rw [List.mem_toFinset, members]
        obtain ⟨gain, reweighed, full⟩ := folded
        refine ⟨gain, reweighed, fun done => ?_⟩
        obtain ⟨done, complete, rfl⟩ := full done
        refine ⟨done, fun p member => complete p ((members p).mpr member), ?_⟩
        funext a
        rw [spread, ← listed, List.sum_toFinset _ distinct]
      · exact ⟨0, .refl (reached.linked linked), fun done => by cases done⟩

end Scans

end ErgoNode.Proof.Mempool
