import ErgoNode.Lib.Entries
import ErgoNode.Lib.Except
import ErgoNode.Mempool.Pool

/-!
# The mempool's indexes

What ties the parts of the pool together, and that entering and leaving transactions keep it.
-/

namespace ErgoNode.Proof.Mempool
open Lib ErgoNode.Mempool

def Indexes (map : DashMap Bytes) (txs : DashMap PooledTransaction)
    (boxes : PooledTransaction → List Bytes) : Prop :=
  ∀ boxId txId, map.lookup boxId = some txId ↔ ∃ tx, txs.lookup txId = some tx ∧ boxId ∈ boxes tx

/-- The parts of the pool agree. Of the outputs only that those on record are made by the transaction
on record: where two transactions make one output, the record is the later one's. -/
structure Linked (pool : Mempool) : Prop where
  identified : ∀ {txId tx}, pool.transactions.lookup txId = some tx → tx.id = txId
  registered : ∀ txId, txId ∈ pool.registry ↔ txId ∈ pool.transactions
  named : ∀ {txId wtx}, pool.registry.lookup txId = some wtx → wtx.txId = txId
  ordered : ∀ wtx, wtx ∈ pool.weightOrder ↔ pool.registry.lookup wtx.txId = some wtx
  spent : Indexes pool.inputToTx pool.transactions PooledTransaction.inputs
  made : ∀ {boxId txId}, pool.outputToTx.lookup boxId = some txId →
    ∃ tx, pool.transactions.lookup txId = some tx ∧ boxId ∈ tx.outputs
  sized : pool.totalSize = (pool.pooled.map fun tx => tx.bytes.length).sum

/-- The representation invariant. -/
structure Consistent (pool : Mempool) : Prop extends Linked pool where
  created : Indexes pool.outputToTx pool.transactions PooledTransaction.outputs

theorem linked_new (config : MempoolConfig) : Linked (new config) := by
  constructor <;> simp [new, pooled, Indexes]

theorem consistent_new (config : MempoolConfig) : Consistent (new config) :=
  { linked_new config with created := by simp [new, Indexes] }

variable {pool : Mempool} {tx : PooledTransaction} {txId boxId : Bytes} {wtx : WeightedTxId}

theorem mem_pooled : tx ∈ pool.pooled ↔ ∃ txId, pool.transactions.lookup txId = some tx := Entries.mem_values

namespace Linked
variable (linked : Linked pool)
include linked

theorem lookup_iff : pool.transactions.lookup txId = some tx ↔ tx ∈ pool.pooled ∧ tx.id = txId := by
  rw [mem_pooled]
  constructor
  · intro found
    exact ⟨⟨txId, found⟩, linked.identified found⟩
  · rintro ⟨⟨other, found⟩, rfl⟩
    rwa [← linked.identified found] at found

theorem weighed (found : pool.transactions.lookup txId = some tx) :
    ∃ wtx, pool.registry.lookup txId = some wtx := by
  have member := (linked.registered txId).mpr (Entries.mem_iff.mpr ⟨tx, found⟩)
  exact Entries.mem_iff.mp member

theorem listed (member : wtx ∈ pool.weightOrder) : ∃ tx, pool.transactions.lookup wtx.txId = some tx := by
  have known : wtx.txId ∈ pool.registry := Entries.mem_iff.mpr ⟨wtx, (linked.ordered wtx).mp member⟩
  exact Entries.mem_iff.mp ((linked.registered _).mp known)

end Linked

/-! ### Entering -/

structure Admissible (pool : Mempool) (tx : PooledTransaction) : Prop where
  unknown : tx.id ∉ pool.transactions
  unspent : ∀ boxId ∈ tx.inputs, boxId ∉ pool.inputToTx

theorem admissible_of_check (passed : pool.check tx = .ok ()) : Admissible pool tx := by
  dsimp only [check] at passed
  split at passed
  · cases passed
  next unknown =>
  split at passed
  · cases passed
  split at passed
  · cases passed
  refine ⟨unknown, fun boxId member => ?_⟩
  have checked := forM_eq_ok.mp passed boxId member
  split at checked
  · cases checked
  · assumption

section Enter
variable {map : DashMap Bytes} {txs : DashMap PooledTransaction} {boxes : PooledTransaction → List Bytes}

theorem Indexes.insert (indexes : Indexes map txs boxes) (unknown : tx.id ∉ txs)
    (free : ∀ boxId ∈ boxes tx, boxId ∉ map) :
    Indexes (insertAll map (boxes tx) tx.id) (txs.insert tx.id tx) boxes := by
  intro boxId txId
  rw [lookup_insertAll]
  split
  · next member =>
    constructor
    · rintro ⟨⟩
      exact ⟨tx, AList.lookup_insert _, member⟩
    · rintro ⟨other, found, also⟩
      rcases Entries.lookup_insert_iff.mp found with ⟨rfl, -⟩ | ⟨-, old⟩
      · rfl
      · have taken := (indexes boxId txId).mpr ⟨other, old, also⟩
        exact absurd (Entries.mem_iff.mpr ⟨_, taken⟩) (free boxId member)
  · next absent =>
    rw [indexes]
    refine exists_congr fun other => and_congr_left fun member => ?_
    rw [Entries.lookup_insert_iff]
    constructor
    · intro old
      refine .inr ⟨?_, old⟩
      rintro rfl
      exact unknown (Entries.mem_iff.mpr ⟨_, old⟩)
    · rintro (⟨-, rfl⟩ | ⟨-, old⟩)
      · exact absurd member absent
      · exact old

theorem Indexes.erase (indexes : Indexes map txs boxes) (found : txs.lookup txId = some tx) :
    Indexes (eraseAll map (boxes tx)) (txs.erase txId) boxes := by
  intro boxId other
  rw [lookup_eraseAll]
  by_cases same : other = txId
  · subst same
    simp only [AList.lookup_erase, reduceCtorEq, false_and, exists_false, iff_false]
    split
    · simp
    · next absent =>
      intro old
      obtain ⟨tx', found', member⟩ := (indexes boxId other).mp old
      rw [found] at found'
      cases found'
      exact absent member
  · rw [AList.lookup_erase_ne same]
    split
    · next member =>
      constructor
      · rintro ⟨⟩
      · intro also
        have first := (indexes boxId other).mpr also
        rw [(indexes boxId txId).mpr ⟨tx, found, member⟩] at first
        exact absurd (Option.some.inj first).symm same
    · exact indexes boxId other

end Enter

theorem fresh_key (linked : Linked pool) (unregistered : tx.id ∉ pool.registry) :
    ∀ other ∈ pool.weightOrder, other.key ≠ (weighted tx).key := by
  intro other member same
  apply unregistered
  have name : other.txId = tx.id := WeightedTxId.txId_eq_of_key_eq same
  rw [← name]
  exact Entries.mem_iff.mpr ⟨other, (linked.ordered other).mp member⟩

theorem ordered_attach (linked : Linked pool) (unregistered : tx.id ∉ pool.registry) :
    wtx ∈ pool.weightOrder.insert (weighted tx) ↔
      (pool.registry.insert tx.id (weighted tx)).lookup wtx.txId = some wtx := by
  rw [SortedSet.mem_insert (fresh_key linked unregistered), linked.ordered, Entries.lookup_insert_iff]
  refine or_congr ⟨fun same => ⟨by rw [same]; rfl, same⟩, And.right⟩ ?_
  refine (and_iff_right_of_imp fun here same => unregistered ?_).symm
  exact Entries.mem_iff.mpr ⟨wtx, same ▸ here⟩

theorem attach_linked (linked : Linked pool) (admissible : Admissible pool tx) : Linked (pool.attach tx) := by
  have unregistered : tx.id ∉ pool.registry := fun known => admissible.unknown ((linked.registered _).mp known)
  constructor
  case identified =>
    intro txId other here
    rcases Entries.lookup_insert_iff.mp here with ⟨rfl, rfl⟩ | ⟨-, old⟩
    · rfl
    · exact linked.identified old
  case registered =>
    intro txId
    simp [attach, linked.registered]
  case named =>
    intro txId wtx here
    rcases Entries.lookup_insert_iff.mp here with ⟨rfl, rfl⟩ | ⟨-, old⟩
    · rfl
    · exact linked.named old
  case ordered => exact fun _ => ordered_attach linked unregistered
  case spent => exact linked.spent.insert admissible.unknown admissible.unspent
  case made =>
    intro boxId txId here
    change (insertAll pool.outputToTx tx.outputs tx.id).lookup boxId = some txId at here
    rw [lookup_insertAll] at here
    split at here
    · next member =>
      cases here
      exact ⟨tx, AList.lookup_insert _, member⟩
    · obtain ⟨other, found, member⟩ := linked.made here
      have different : txId ≠ tx.id := fun same => admissible.unknown (Entries.mem_iff.mpr ⟨other, same ▸ found⟩)
      exact ⟨other, Entries.lookup_insert_iff.mpr (.inr ⟨different, found⟩), member⟩
  case sized =>
    change pool.totalSize + tx.bytes.length = _
    rw [linked.sized, Nat.add_comm]
    exact (Entries.sum_insert (f := fun tx => tx.bytes.length) admissible.unknown).symm

theorem attach_consistent (consistent : Consistent pool) (admissible : Admissible pool tx)
    (free : ∀ boxId ∈ tx.outputs, boxId ∉ pool.outputToTx) : Consistent (pool.attach tx) :=
  { attach_linked consistent.toLinked admissible with
    created := consistent.created.insert admissible.unknown free }

/-! ### Leaving -/

theorem ordered_detach (linked : Linked pool) (weighed : pool.registry.lookup txId = some wtx)
    {other : WeightedTxId} : other ∈ pool.weightOrder.erase wtx ↔
      (pool.registry.erase txId).lookup other.txId = some other := by
  rw [SortedSet.mem_erase, Entries.lookup_erase_iff, linked.ordered, and_comm]
  refine and_congr_left fun here => not_congr ⟨fun key => ?_, fun same => ?_⟩
  · rw [WeightedTxId.txId_eq_of_key_eq key, linked.named weighed]
  · rw [same, weighed] at here
    cases here
    rfl

theorem detach_linked (linked : Linked pool) (found : pool.transactions.lookup txId = some tx)
    (weighed : pool.registry.lookup txId = some wtx) : Linked (pool.detach txId tx (some wtx)) := by
  constructor
  case identified =>
    intro other tx' here
    exact linked.identified (Entries.lookup_erase_iff.mp here).2
  case registered =>
    intro other
    simp [detach, linked.registered]
  case named =>
    intro other wtx' here
    exact linked.named (Entries.lookup_erase_iff.mp here).2
  case ordered => exact fun _ => ordered_detach linked weighed
  case spent => exact linked.spent.erase found
  case made =>
    intro boxId other here
    change (eraseAll pool.outputToTx tx.outputs).lookup boxId = some other at here
    rw [lookup_eraseAll] at here
    split at here
    · cases here
    · next absent =>
      obtain ⟨tx', found', member⟩ := linked.made here
      refine ⟨tx', Entries.lookup_erase_iff.mpr ⟨?_, found'⟩, member⟩
      rintro rfl
      rw [found] at found'
      cases found'
      exact absent member
  case sized =>
    change pool.totalSize - tx.bytes.length = _
    rw [linked.sized]
    apply Nat.sub_eq_of_eq_add
    exact (Entries.sum_erase (f := fun tx => tx.bytes.length) found).trans (Nat.add_comm _ _)

theorem detach_consistent (consistent : Consistent pool) (found : pool.transactions.lookup txId = some tx)
    (weighed : pool.registry.lookup txId = some wtx) : Consistent (pool.detach txId tx (some wtx)) :=
  { detach_linked consistent.toLinked found weighed with created := consistent.created.erase found }

end ErgoNode.Proof.Mempool
