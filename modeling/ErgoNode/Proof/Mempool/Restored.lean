import ErgoNode.Proof.Mempool.Expiry

/-!
# A transaction that comes and goes

The weight that an admission passes on to the ancestors goes up the same ways, with the opposite sign, when
the transaction is taken out again.
-/

namespace ErgoNode.Proof.Mempool
open Lib Lib.Propagation ErgoNode.Mempool

/-- The pools hold the same in every part, the order by weight included. -/
structure Same (pool pool' : Mempool) : Prop where
  config : pool'.config = pool.config
  transactions : ∀ txId, pool'.transactions.lookup txId = pool.transactions.lookup txId
  registry : ∀ txId, pool'.registry.lookup txId = pool.registry.lookup txId
  weightOrder : pool'.weightOrder = pool.weightOrder
  outputToTx : ∀ boxId, pool'.outputToTx.lookup boxId = pool.outputToTx.lookup boxId
  inputToTx : ∀ boxId, pool'.inputToTx.lookup boxId = pool.inputToTx.lookup boxId
  totalSize : pool'.totalSize = pool.totalSize

variable {pool middle after : Mempool} {tx child : PooledTransaction} {gain : Bytes → Int64} {wtx : WeightedTxId}
  {schedule : Schedule} {s : Session} {txId parentId boxId : Bytes}

/-- No pooled transaction makes a box that this one makes, or spends one. -/
structure Apart (pool : Mempool) (tx : PooledTransaction) : Prop where
  fresh : ∀ boxId ∈ tx.outputs, boxId ∉ pool.outputToTx
  unspent : ∀ boxId ∈ tx.outputs, boxId ∉ pool.inputToTx

theorem mem_parentsOf_iff : parentId ∈ parentsOf pool child ↔
    parentId ≠ child.id ∧ ∃ boxId ∈ child.inputs, pool.outputToTx.lookup boxId = some parentId := by
  rw [parentsOf, Finset.mem_erase, List.mem_toFinset, parentTxIds, List.mem_dedup, List.mem_filterMap]

theorem lookup_insertAll_of_not_mem {map : DashMap Bytes} {boxIds : List Bytes} (absent : boxId ∉ boxIds) :
    (insertAll map boxIds txId).lookup boxId = map.lookup boxId := by
  rw [lookup_insertAll, if_neg absent]

theorem lookup_eraseAll_insertAll {map : DashMap Bytes} {boxIds : List Bytes} (free : ∀ boxId ∈ boxIds, boxId ∉ map) :
    (eraseAll (insertAll map boxIds txId) boxIds).lookup boxId = map.lookup boxId := by
  rw [lookup_eraseAll]
  split
  · next member =>
      symm
      exact Option.not_isSome_iff_eq_none.mp fun known => free boxId member (AList.lookup_isSome.mp known)
  · next absent => exact lookup_insertAll_of_not_mem absent

section Ways
variable (linked : Linked pool) (admissible : Admissible pool tx) (apart : Apart pool tx)
include linked apart

theorem Apart.outside (found : pool.transactions.lookup txId = some child) :
    ∀ boxId ∈ child.inputs, boxId ∉ tx.outputs := by
  intro boxId spends made
  have recorded := (linked.spent boxId txId).mpr ⟨child, found, spends⟩
  exact apart.unspent boxId made (Entries.mem_iff.mpr ⟨txId, recorded⟩)

theorem Apart.sameWays (raised : Reweighed (pool.attach tx) middle gain) :
    family (middle.detach tx.id tx (some wtx)) tx = family (pool.attach tx) tx := by
  have boxes : (middle.detach tx.id tx (some wtx)).outputToTx = eraseAll (pool.attach tx).outputToTx tx.outputs :=
    congrArg (eraseAll · tx.outputs) raised.outputToTx
  have scanned {child : PooledTransaction} (outside : child.id = tx.id ∨ ∀ boxId ∈ child.inputs, boxId ∉ tx.outputs) :
      parentsOf (middle.detach tx.id tx (some wtx)) child = parentsOf (pool.attach tx) child := by
    ext parentId
    rw [mem_parentsOf_iff, mem_parentsOf_iff]
    refine and_congr_right fun different => exists_congr fun boxId => and_congr_right fun spends => ?_
    rw [boxes, lookup_eraseAll]
    split
    · next made =>
      rcases outside with same | outside
      · refine ⟨nofun, fun known => ?_⟩
        change (insertAll pool.outputToTx tx.outputs tx.id).lookup boxId = some parentId at known
        rw [lookup_insertAll, if_pos made] at known
        exact absurd (same.trans (Option.some.inj known)).symm different
      · exact absurd made (outside boxId spends)
    · rfl
  funext txId
  unfold family
  split
  · exact scanned (.inl rfl)
  · next different =>
    have known : (middle.detach tx.id tx (some wtx)).transactions.lookup txId = (pool.attach tx).transactions.lookup txId := by
      rw [lookup_detach different, raised.transactions]
    rw [known, lookup_attach different]
    cases found : pool.transactions.lookup txId with
    | none => rfl
    | some child => exact scanned (.inr (apart.outside linked found))

include admissible

theorem Apart.childless : tx.id ∉ family (pool.attach tx) tx txId := by
  intro member
  unfold family at member
  split at member
  · exact (mem_parentsOf_iff.mp member).1 rfl
  · next different =>
    cases found : pool.transactions.lookup txId with
    | none =>
        rw [lookup_attach different, found] at member
        simp at member
    | some child =>
        rw [lookup_attach different, found] at member
        obtain ⟨-, boxId, spends, made⟩ := mem_parentsOf_iff.mp member
        have outside := apart.outside linked found boxId spends
        obtain ⟨other, known, -⟩ := linked.made ((lookup_insertAll_of_not_mem outside).symm.trans made)
        exact admissible.unknown (Entries.mem_iff.mpr ⟨other, known⟩)

section Weights
variable
  (raised : Reweighed (pool.attach tx) middle
    (spread (family (pool.attach tx) tx) (weighted tx).weight (maxParentScanDepth + 1) tx.id))
  (weighed : middle.registry.lookup tx.id = some wtx)
include raised weighed

theorem Apart.ownWeight : wtx.weight = (weighted tx).weight := by
  rw [raised.registry] at weighed
  change ((pool.registry.insert tx.id (weighted tx)).lookup tx.id).map _ = _ at weighed
  rw [AList.lookup_insert, spread_eq_zero fun c => apart.childless linked admissible, Option.map_some,
    addWeight_zero] at weighed
  rw [← Option.some.inj weighed]

theorem Apart.opposite (txId : Bytes) :
    spread (family (middle.detach tx.id tx (some wtx)) tx) (-wtx.weight) (maxParentScanDepth + 1) tx.id txId =
      -spread (family (pool.attach tx) tx) (weighted tx).weight (maxParentScanDepth + 1) tx.id txId := by
  rw [apart.sameWays linked raised, apart.ownWeight linked admissible raised weighed, spread_neg]

variable
  (lowered : Reweighed (middle.detach tx.id tx (some wtx)) after
    (spread (family (middle.detach tx.id tx (some wtx)) tx) (-wtx.weight) (maxParentScanDepth + 1) tx.id))
include lowered

theorem Apart.registry (txId : Bytes) : after.registry.lookup txId = pool.registry.lookup txId := by
  rw [lowered.registry]
  change ((middle.registry.erase tx.id).lookup txId).map _ = _
  by_cases same : txId = tx.id
  · subst same
    rw [AList.lookup_erase]
    symm
    exact Option.not_isSome_iff_eq_none.mp fun known =>
      admissible.unknown ((linked.registered _).mp (AList.lookup_isSome.mp known))
  · rw [AList.lookup_erase_ne same, raised.registry, Option.map_map]
    change ((pool.registry.insert tx.id (weighted tx)).lookup txId).map _ = _
    rw [AList.lookup_insert_ne same]
    have back : (fun wtx : WeightedTxId => wtx.addWeight 0) = id := funext addWeight_zero
    simp only [Function.comp_def, addWeight_addWeight, apart.opposite linked admissible raised weighed, add_neg_cancel,
      back, Option.map_id_fun, id_eq]

/-- What comes in and goes out again, by scans that meet no limit, leaves no trace. -/
theorem Apart.restored : Same pool after := by
  have registry := apart.registry linked admissible raised weighed lowered
  exact {
    config := lowered.config.trans raised.config
    transactions := by
      intro txId
      rw [lowered.transactions]
      change (middle.transactions.erase tx.id).lookup txId = _
      rw [raised.transactions]
      by_cases same : txId = tx.id
      · subst same
        rw [AList.lookup_erase]
        symm
        exact Option.not_isSome_iff_eq_none.mp fun known => admissible.unknown (AList.lookup_isSome.mp known)
      · rw [AList.lookup_erase_ne same, lookup_attach same]
    registry
    weightOrder := by
      apply SortedSet.ext_mem
      intro wtx
      rw [lowered.ordered, registry, linked.ordered]
    outputToTx := by
      intro boxId
      rw [lowered.outputToTx]
      change (eraseAll middle.outputToTx tx.outputs).lookup boxId = _
      rw [raised.outputToTx]
      exact lookup_eraseAll_insertAll apart.fresh
    inputToTx := by
      intro boxId
      rw [lowered.inputToTx]
      change (eraseAll middle.inputToTx tx.inputs).lookup boxId = _
      rw [raised.inputToTx]
      exact lookup_eraseAll_insertAll admissible.unspent
    totalSize := by
      rw [lowered.totalSize]
      change middle.totalSize - tx.bytes.length = _
      rw [raised.totalSize]
      exact Nat.add_sub_cancel .. }

end Weights

end Ways

/-! ### Calls -/

structure Room (pool : Mempool) (tx : PooledTransaction) : Prop where
  count : pool.transactions.entries.length + 1 ≤ pool.config.maxTransactions
  size : pool.totalSize + tx.bytes.length ≤ pool.config.maxSize

theorem maybeEvict_of_fits (few : s.pool.tooMany = false) (small : s.pool.tooLarge = false) :
    maybeEvict schedule s = s := by
  unfold maybeEvict
  rw [evictWhile_of_fits few]
  exact evictWhile_of_fits small _

theorem add_of_room (linked : Linked pool) (checked : pool.check tx = .ok ()) (room : Room pool tx) :
    add schedule tx pool.session =
      (.ok (), updateFamily schedule tx (weighted tx).weight (attached pool.session tx)) := by
  have admissible := admissible_of_check checked
  obtain ⟨gain, raised, -⟩ := @add_scan schedule pool.session tx linked admissible
  have length : (pool.transactions.insert tx.id tx).entries.length = pool.transactions.entries.length + 1 := by
    rw [Entries.length_insert, if_neg admissible.unknown]
  rw [add_of_passed (s := pool.session) checked, maybeEvict_of_fits]
  · rw [tooMany, decide_eq_false_iff_not, raised.transactions, raised.config]
    change ¬ (pool.transactions.insert tx.id tx).entries.length > pool.config.maxTransactions
    rw [length]
    exact Nat.not_lt_of_le room.count
  · rw [tooLarge, decide_eq_false_iff_not, raised.totalSize, raised.config]
    exact Nat.not_lt_of_le room.size

/-- An admission without eviction and the removal after it, none of whose scans meets a limit. -/
structure Undisturbed (schedule schedule' : Schedule) (pool : Mempool) (tx : PooledTransaction) : Prop where
  added : (add schedule tx pool.session).1 = .ok ()
  room : Room pool tx
  entered : (add schedule tx pool.session).2.cutShort = false
  left : (remove schedule' tx.id (add schedule tx pool.session).2.pool.session).2.cutShort = false

theorem check_of_added (added : (add schedule tx pool.session).1 = .ok ()) : pool.check tx = .ok () := by
  cases checked : pool.check tx with
  | error e =>
      rw [add_of_refused (s := pool.session) checked] at added
      cases added
  | ok _ => rfl

theorem Undisturbed.same {schedule' : Schedule} (undisturbed : Undisturbed schedule schedule' pool tx)
    (linked : Linked pool) (apart : Apart pool tx) :
    (remove schedule' tx.id (add schedule tx pool.session).2.pool.session).1 = .ok tx ∧
      Same pool (remove schedule' tx.id (add schedule tx pool.session).2.pool.session).2.pool := by
  obtain ⟨added, room, entered, left⟩ := undisturbed
  have checked := check_of_added added
  have admissible := admissible_of_check checked
  rw [add_of_room linked checked room] at entered left ⊢
  obtain ⟨gain, raised, full⟩ := @add_scan schedule pool.session tx linked admissible
  obtain ⟨-, -, rfl⟩ := full entered
  generalize updateFamily schedule tx (weighted tx).weight (attached pool.session tx) = t at raised left ⊢
  have linked' := raised.linked (attach_linked linked admissible)
  have found : t.pool.transactions.lookup tx.id = some tx := by
    rw [raised.transactions]
    exact lookup_attach_self
  obtain ⟨wtx, weighed⟩ := linked'.weighed found
  obtain ⟨gain, lowered, full⟩ := @remove_scan schedule' t.pool.session tx tx.id wtx linked' found weighed
  obtain ⟨-, -, rfl⟩ := full left
  rw [remove_of_found (s := t.pool.session) found weighed] at lowered ⊢
  exact ⟨rfl, apart.restored linked admissible raised weighed lowered⟩

/-- In every reachable pool: a transaction whose boxes nobody spends leaves the pool as it found it. -/
theorem reachable_remove_add (config : MempoolConfig) (actions : List (Schedule × Action)) (tx : PooledTransaction)
    (distinct : DistinctOutputs (tx :: Mempool.added actions)) :
    Always step (fun pool => (∀ child ∈ pool.pooled, ¬ Spends child tx) → ∀ schedule schedule',
      Undisturbed schedule schedule' pool tx →
        (remove schedule' tx.id (add schedule tx pool.session).2.pool.session).1 = .ok tx ∧
          Same pool (remove schedule' tx.id (add schedule tx pool.session).2.pool.session).2.pool)
      (new config) actions := by
  intro pool visited unspent schedule schedule' undisturbed
  have consistent := reachable_consistentWith config actions distinct (fun _ => List.mem_cons_of_mem tx) pool visited
  have admissible := admissible_of_check (check_of_added undisturbed.added)
  refine undisturbed.same consistent.toLinked
    ⟨consistent.free distinct admissible.unknown List.mem_cons_self, fun boxId made taken => ?_⟩
  obtain ⟨childId, recorded⟩ := Entries.mem_iff.mp taken
  obtain ⟨child, found, spends⟩ := (consistent.spent boxId childId).mp recorded
  exact unspent child (mem_pooled.mpr ⟨childId, found⟩) ⟨boxId, spends, made⟩

section Samples
open Sample

def late : Schedule := { inOrder with inTime := fun _ => false }

def parentActions : List (Schedule × Action) := [(inOrder, .add pooledParent)]

theorem pooledChild_restored : ∃ pool, run step (new .default) parentActions = some pool ∧
    Same pool (remove inOrder pooledChild.id (add inOrder pooledChild pool.session).2.pool.session).2.pool :=
  ⟨_, rfl, (reachable_remove_add .default parentActions pooledChild (by decide) _ ⟨parentActions, List.prefix_rfl, rfl⟩
    (by decide) inOrder inOrder ⟨rfl, ⟨by decide, by decide⟩, rfl, rfl⟩).2⟩

/-- A removal that runs out of time leaves the parent with the weight of the child. -/
theorem late_removal_keeps_weight : ¬ ∀ actions tx, DistinctOutputs (tx :: Mempool.added actions) →
    Always step (fun pool => (∀ child ∈ pool.pooled, ¬ Spends child tx) → ∀ schedule schedule',
      (add schedule tx pool.session).1 = .ok () → Room pool tx → (add schedule tx pool.session).2.cutShort = false →
        Same pool (remove schedule' tx.id (add schedule tx pool.session).2.pool.session).2.pool)
      (new .default) actions := by
  intro all
  have same := all parentActions pooledChild (by decide) _ ⟨parentActions, List.prefix_rfl, rfl⟩ (by decide) inOrder late
    rfl ⟨by decide, by decide⟩ rfl
  have weights := same.registry pooledParent.id
  revert weights
  decide

end Samples

end ErgoNode.Proof.Mempool
