import ErgoNode.Proof.Mempool.Weights
import Mathlib.Algebra.Order.BigOperators.Group.List
import Mathlib.Algebra.Order.Ring.Int

/-!
# The order of the mempool

The pool is listed by falling weight. A parent weighs what its children weigh and its own fee on top,
so it comes before them unless it has no fee and one of them has all the weight: then the ids decide.
-/

namespace ErgoNode.Proof.Mempool
open Lib Lib.Propagation ErgoNode.Mempool

variable {pool : Mempool} {tx parent child : PooledTransaction} {wtx parentWtx childWtx : WeightedTxId}

/-- No listing, however long, has a transaction before a pooled one whose output it spends. -/
def ParentsFirst (pool : Mempool) : Prop :=
  ∀ limit before tx after, pool.getByWeight limit = before ++ tx :: after →
    ∀ parent ∈ pool.pooled, Spends tx parent → parent ∈ before

/-- The fees per factor are not negative, and no weight is too large for its 64 bits. -/
structure AmountsFit (pool : Mempool) : Prop where
  own : ∀ tx ∈ pool.pooled, 0 ≤ (weighted tx).feePerFactor.toInt
  total : ∀ tx ∈ pool.pooled, (weighted tx).feePerFactor.toInt +
    ((spenders pool tx).map fun child => (weightOf pool child.id).toInt).sum < 2 ^ 63

/-- Of a parent without a fee and a child without siblings of any weight the parent has the smaller id. -/
def TiesFavourParents (pool : Mempool) : Prop :=
  ∀ parent ∈ pool.pooled, ∀ child ∈ spenders pool parent,
    0 < (weighted parent).feePerFactor.toInt ∨
      (∃ sibling ∈ spenders pool parent, sibling ≠ child ∧ 0 < (weightOf pool sibling.id).toInt) ∨
      parent.id.map UInt8.toNat < child.id.map UInt8.toNat

/-! ### Listings -/

theorem listed_of_registered (linked : Linked pool) (weighed : pool.registry.lookup tx.id = some wtx) :
    wtx ∈ pool.weightOrder :=
  (linked.ordered wtx).mpr (by rwa [linked.named weighed])

def listed (pool : Mempool) (entries : List WeightedTxId) : List PooledTransaction :=
  entries.filterMap fun wtx => pool.transactions.lookup wtx.txId

theorem listing_of_split {before after : List WeightedTxId} (split : pool.weightOrder.items = before ++ wtx :: after)
    (found : pool.transactions.lookup wtx.txId = some tx) :
    pool.getByWeight (before.length + 1) = listed pool before ++ [tx] := by
  have taken : pool.weightOrder.items.take (before.length + 1) = before ++ [wtx] := by
    rw [split, List.take_length_add_append]
    rfl
  rw [getByWeight, taken, List.filterMap_append]
  simp [listed, found]

theorem split_of_listing {limit : Nat} {before after : List PooledTransaction}
    (listing : pool.getByWeight limit = before ++ tx :: after) :
    ∃ front wtx back, pool.weightOrder.items = front ++ wtx :: back ∧
      pool.transactions.lookup wtx.txId = some tx ∧ listed pool front = before := by
  obtain ⟨front, rest, taken, rfl, tail⟩ := List.filterMap_eq_append_iff.mp listing
  obtain ⟨skipped, wtx, later, rfl, absent, found, -⟩ := List.filterMap_eq_cons_iff.mp tail
  refine ⟨front ++ skipped, wtx, later ++ pool.weightOrder.items.drop limit, ?_, found, ?_⟩
  · conv_lhs => rw [← List.take_append_drop limit pool.weightOrder.items, taken]
    simp
  · rw [listed, List.filterMap_append, List.filterMap_eq_nil_iff.mpr absent, List.append_nil]

theorem mem_listed (linked : Linked pool) {before after : List WeightedTxId}
    (split : pool.weightOrder.items = before ++ wtx :: after) (member : tx ∈ pool.pooled) {txWtx : WeightedTxId}
    (weighed : pool.registry.lookup tx.id = some txWtx) :
    tx ∈ listed pool before ↔ txWtx.key < wtx.key := by
  rw [← SortedSet.mem_before_iff split (listed_of_registered linked weighed), listed, List.mem_filterMap]
  constructor
  · rintro ⟨entry, earlier, found⟩
    have here : entry ∈ pool.weightOrder := by
      rw [← SortedSet.mem_items, split]
      exact List.mem_append_left _ earlier
    have known := (linked.ordered entry).mp here
    rw [← linked.identified found, weighed] at known
    cases known
    exact earlier
  · intro earlier
    have name := linked.named weighed
    exact ⟨txWtx, earlier, name ▸ linked.lookup_iff.mpr ⟨member, rfl⟩⟩

/-- Listings have parents first if and only if the keys are ordered so. -/
theorem parentsFirst_iff (linked : Linked pool) : ParentsFirst pool ↔
    ∀ parent ∈ pool.pooled, ∀ child ∈ spenders pool parent, ∀ parentWtx childWtx,
      pool.registry.lookup parent.id = some parentWtx → pool.registry.lookup child.id = some childWtx →
      parentWtx.key < childWtx.key := by
  constructor
  · intro first parent member child spending parentWtx childWtx weighed weighed'
    obtain ⟨also, spends⟩ := List.mem_filter.mp spending
    obtain ⟨before, after, split⟩ := List.append_of_mem
      ((SortedSet.mem_items _).mpr (listed_of_registered linked weighed'))
    have found : pool.transactions.lookup childWtx.txId = some child :=
      linked.lookup_iff.mpr ⟨also, (linked.named weighed').symm⟩
    have here := first _ _ child [] (listing_of_split split found) parent member (of_decide_eq_true spends)
    exact (mem_listed linked split member weighed).mp here
  · intro keyed limit before child after listing parent member spends
    obtain ⟨front, childWtx, back, split, found, rfl⟩ := split_of_listing listing
    have also : child ∈ pool.pooled := mem_pooled.mpr ⟨_, found⟩
    have here : childWtx ∈ pool.weightOrder := by
      rw [← SortedSet.mem_items, split]
      simp
    have weighed' := (linked.ordered childWtx).mp here
    rw [← linked.identified found] at weighed'
    obtain ⟨parentWtx, weighed⟩ := linked.weighed (linked.lookup_iff.mpr ⟨member, rfl⟩)
    apply (mem_listed linked split member weighed).mpr
    exact keyed parent member child (List.mem_filter.mpr ⟨also, decide_eq_true spends⟩) parentWtx childWtx weighed
      weighed'

/-! ### Weights as integers -/

theorem key_lt_iff : parentWtx.key < childWtx.key ↔
    childWtx.weight.toInt < parentWtx.weight.toInt ∨ childWtx.weight.toInt = parentWtx.weight.toInt ∧
      parentWtx.txId.map UInt8.toNat < childWtx.txId.map UInt8.toNat := by
  rw [WeightedTxId.key, WeightedTxId.key, Prod.Lex.toLex_lt_toLex]
  refine or_congr ?_ (and_congr_left fun _ => ?_)
  · exact Int.neg_lt_neg_iff
  · exact neg_inj.trans eq_comm

theorem nodup_spenders (linked : Linked pool) : (spenders pool tx).Nodup := by
  apply List.Nodup.filter
  apply List.Nodup.of_map PooledTransaction.id
  rw [map_id_pooled linked]
  exact pool.transactions.keys_nodup

section Integers
variable (consistent : Consistent pool) (familial : Familial pool) (fit : AmountsFit pool)
include consistent familial fit

theorem weight_toInt_of_children (member : tx ∈ pool.pooled)
    (children : ∀ child ∈ spenders pool tx, 0 ≤ (weightOf pool child.id).toInt) :
    (weightOf pool tx.id).toInt = (weighted tx).feePerFactor.toInt +
      ((spenders pool tx).map fun child => (weightOf pool child.id).toInt).sum := by
  have total : weightOf pool tx.id =
      (weighted tx).feePerFactor + ((spenders pool tx).map fun child => weightOf pool child.id).sum := by
    rw [weightOf, weighted_of_familial consistent familial tx member]
    rfl
  have low : ∀ weight ∈ (spenders pool tx).map fun child => weightOf pool child.id, 0 ≤ weight.toInt := by
    intro weight listed
    obtain ⟨child, spending, rfl⟩ := List.mem_map.mp listed
    exact children child spending
  have fits := fit.total tx member
  have start := fit.own tx member
  have values : ((spenders pool tx).map fun child => weightOf pool child.id).map Int64.toInt =
      (spenders pool tx).map fun child => (weightOf pool child.id).toInt := List.map_map
  have positive := sum_toInt_nonneg low
  rw [values] at positive
  have sum := toInt_sum_of_fits low (by rw [values]; omega)
  rw [values] at sum
  rw [total, toInt_add_of_fits start (by omega) (by omega), sum]

theorem weight_nonneg (member : tx ∈ pool.pooled) : 0 ≤ (weightOf pool tx.id).toInt := by
  have all : ∀ txId ∈ nodes pool, 0 ≤ (weightOf pool txId).toInt := by
    refine descend familial.acyclic fun txId here children => ?_
    obtain ⟨tx, found⟩ := mem_nodes.mp here
    obtain ⟨member, rfl⟩ := consistent.lookup_iff.mp found
    have low : ∀ child ∈ spenders pool tx, 0 ≤ (weightOf pool child.id).toInt := by
      intro child spending
      obtain ⟨also, spends⟩ := List.mem_filter.mp spending
      have found' := consistent.lookup_iff.mpr ⟨also, rfl⟩
      apply children child.id (mem_nodes.mpr ⟨child, found'⟩)
      rw [mem_kin consistent also member]
      refine ⟨?_, of_decide_eq_true spends⟩
      intro same
      rw [← same, found] at found'
      cases found'
      exact familial.loopless tx member (of_decide_eq_true spends)
    have weight := weight_toInt_of_children consistent familial fit member low
    have start := fit.own tx member
    have sum : 0 ≤ ((spenders pool tx).map fun child => (weightOf pool child.id).toInt).sum := by
      apply List.sum_nonneg
      intro value listed
      obtain ⟨child, spending, rfl⟩ := List.mem_map.mp listed
      exact low child spending
    omega
  exact all tx.id (mem_nodes.mpr ⟨tx, consistent.lookup_iff.mpr ⟨member, rfl⟩⟩)

theorem weight_spender (spending : child ∈ spenders pool tx) : 0 ≤ (weightOf pool child.id).toInt :=
  weight_nonneg consistent familial fit (List.mem_filter.mp spending).1

theorem weight_parent (member : parent ∈ pool.pooled) (spending : child ∈ spenders pool parent) :
    (weightOf pool parent.id).toInt = (weighted parent).feePerFactor.toInt + ((weightOf pool child.id).toInt +
      (((spenders pool parent).erase child).map fun sibling => (weightOf pool sibling.id).toInt).sum) := by
  rw [weight_toInt_of_children consistent familial fit member fun _ => weight_spender consistent familial fit]
  rw [List.sum_map_erase (fun sibling : PooledTransaction => (weightOf pool sibling.id).toInt) spending]

theorem siblings_weigh_iff (parent child : PooledTransaction) :
    0 < (((spenders pool parent).erase child).map fun sibling => (weightOf pool sibling.id).toInt).sum ↔
      ∃ sibling ∈ spenders pool parent, sibling ≠ child ∧ 0 < (weightOf pool sibling.id).toInt := by
  have members : ∀ sibling, sibling ∈ (spenders pool parent).erase child ↔
      sibling ≠ child ∧ sibling ∈ spenders pool parent :=
    fun sibling => (nodup_spenders consistent.toLinked).mem_erase_iff
  have low : ∀ value ∈ ((spenders pool parent).erase child).map fun sibling => (weightOf pool sibling.id).toInt,
      0 ≤ value := by
    intro value listed
    obtain ⟨sibling, here, rfl⟩ := List.mem_map.mp listed
    exact weight_spender consistent familial fit ((members sibling).mp here).2
  constructor
  · intro positive
    have zero : (((spenders pool parent).erase child).map fun _ => (0 : Int)).sum = 0 := by simp
    rw [← zero] at positive
    obtain ⟨sibling, here, weighs⟩ := List.exists_lt_of_sum_lt _ _ positive
    obtain ⟨different, also⟩ := (members sibling).mp here
    exact ⟨sibling, also, different, weighs⟩
  · rintro ⟨sibling, here, different, weighs⟩
    apply lt_of_lt_of_le weighs
    apply List.single_le_sum low
    exact List.mem_map.mpr ⟨sibling, (members sibling).mpr ⟨different, here⟩, rfl⟩

end Integers

/-- Where the weights add up and fit, exactly the ties can put a child before its parent. -/
theorem parentsFirst_iff_ties (consistent : Consistent pool) (familial : Familial pool) (fit : AmountsFit pool) :
    ParentsFirst pool ↔ TiesFavourParents pool := by
  rw [parentsFirst_iff consistent.toLinked]
  refine forall₄_congr fun parent member child spending => ?_
  obtain ⟨parentWtx, weighed⟩ := consistent.weighed (consistent.lookup_iff.mpr ⟨member, rfl⟩)
  obtain ⟨childWtx, weighed'⟩ :=
    consistent.weighed (consistent.lookup_iff.mpr ⟨(List.mem_filter.mp spending).1, rfl⟩)
  have compared : (∀ first second, pool.registry.lookup parent.id = some first →
      pool.registry.lookup child.id = some second → first.key < second.key) ↔ parentWtx.key < childWtx.key := by
    constructor
    · intro all
      exact all parentWtx childWtx weighed weighed'
    · rintro lower first second known known'
      rw [weighed] at known
      rw [weighed'] at known'
      cases known
      cases known'
      exact lower
  have weights := weight_parent consistent familial fit member spending
  rw [weightOf_of_found weighed, weightOf_of_found weighed'] at weights
  have start := fit.own parent member
  have siblings := siblings_weigh_iff consistent familial fit parent child
  have rest : 0 ≤ (((spenders pool parent).erase child).map fun sibling => (weightOf pool sibling.id).toInt).sum := by
    apply List.sum_nonneg
    intro value listed
    obtain ⟨sibling, here, rfl⟩ := List.mem_map.mp listed
    exact weight_spender consistent familial fit (List.mem_of_mem_erase here)
  rw [compared, key_lt_iff, ← siblings, consistent.named weighed, consistent.named weighed']
  constructor
  · rintro (heavier | ⟨equal, smaller⟩)
    · omega
    · exact .inr (.inr smaller)
  · rintro (fee | shared | smaller)
    · exact .inl (by omega)
    · exact .inl (by omega)
    · rcases (by omega : childWtx.weight.toInt < parentWtx.weight.toInt ∨
        childWtx.weight.toInt = parentWtx.weight.toInt) with heavier | equal
      · exact .inl heavier
      · exact .inr ⟨equal, smaller⟩

theorem reachable_parentsFirst_iff (config : MempoolConfig) (actions : List (Schedule × Action))
    (orderly : Along step (fun pool a => Unlimited pool a ∧ ParentsEnterFirst pool a) (new config) actions)
    {pool : Mempool} (visited : Visits step (new config) actions pool) (fit : AmountsFit pool) :
    ParentsFirst pool ↔ TiesFavourParents pool := by
  have holds := reachable_inOrder config actions orderly pool visited
  exact parentsFirst_iff_ties holds.consistent (holds.familial rfl) fit

instance : Decidable (TiesFavourParents pool) :=
  inferInstanceAs (Decidable (∀ parent ∈ pool.pooled, ∀ child ∈ spenders pool parent, _))

theorem familyActions_parentsFirst :
    ∃ pool, run step (new .default) (familyActions.take 2) = some pool ∧ ParentsFirst pool :=
  ⟨_, rfl, (reachable_parentsFirst_iff .default familyActions (by decide)
    ⟨familyActions.take 2, List.take_prefix _ _, rfl⟩ ⟨by decide, by decide⟩).mpr (by decide)⟩

def freeParent : List (Schedule × Action) :=
  [(Sample.inOrder, .add (Sample.pooledTx 2 0 [20] [21])), (Sample.inOrder, .add (Sample.pooledTx 1 5 [21] [11]))]

theorem freeParent_listed_late : ¬ ∀ actions, DistinctOutputs (added actions) →
    Along step Unlimited (new .default) actions → Always step ParentsFirst (new .default) actions := by
  intro all
  have first := all freeParent (by decide) (by decide) _ ⟨freeParent, List.prefix_refl _, rfl⟩
  have late := first 2 [] (Sample.pooledTx 1 5 [21] [11]) [Sample.pooledTx 2 0 [20] [21]] (by decide)
    (Sample.pooledTx 2 0 [20] [21]) (by decide) (by decide)
  cases late

end ErgoNode.Proof.Mempool
