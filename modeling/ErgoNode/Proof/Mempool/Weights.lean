import ErgoNode.Proof.Mempool.Consistent

/-!
# The mempool's weights

Where no scan meets a limit and every transaction comes before those that spend its outputs, each
weight is the fee per factor of the transaction plus the weights of its pooled children.
-/

namespace ErgoNode.Proof.Mempool
open Lib Lib.Propagation ErgoNode.Mempool

variable {pool pool' : Mempool} {tx child : PooledTransaction} {txId boxId : Bytes} {wtx : WeightedTxId}

def Spends (child tx : PooledTransaction) : Prop := ∃ boxId ∈ child.inputs, boxId ∈ tx.outputs

instance : Decidable (Spends child tx) := inferInstanceAs (Decidable (∃ boxId ∈ child.inputs, _))

def spenders (pool : Mempool) (tx : PooledTransaction) : List PooledTransaction :=
  pool.pooled.filter fun child => Spends child tx

def weightOf (pool : Mempool) (txId : Bytes) : Int64 := (pool.getWeight txId).getD 0

/-- Each pooled transaction weighs its own fee per factor and what its pooled children weigh. -/
def Weighted (pool : Mempool) : Prop :=
  ∀ tx ∈ pool.pooled, pool.getWeight tx.id =
    some ((weighted tx).feePerFactor + ((spenders pool tx).map fun child => weightOf pool child.id).sum)

/-! ### The pool as a graph -/

def nodes (pool : Mempool) : Finset Bytes := pool.transactions.keys.toFinset

def kin (pool : Mempool) (txId : Bytes) : Finset Bytes :=
  ((pool.transactions.lookup txId).map (parentsOf pool)).getD ∅

def own (pool : Mempool) (txId : Bytes) : Int64 :=
  ((pool.transactions.lookup txId).map fun tx => (weighted tx).feePerFactor).getD 0

theorem mem_nodes : txId ∈ nodes pool ↔ ∃ tx, pool.transactions.lookup txId = some tx := by
  rw [nodes, List.mem_toFinset, ← AList.mem_keys, Entries.mem_iff]

theorem kin_of_found (found : pool.transactions.lookup txId = some tx) : kin pool txId = parentsOf pool tx := by
  rw [kin, found]
  rfl

theorem own_of_found (found : pool.transactions.lookup txId = some tx) :
    own pool txId = (weighted tx).feePerFactor := by
  rw [own, found]
  rfl

theorem weightOf_of_found (found : pool.registry.lookup txId = some wtx) : weightOf pool txId = wtx.weight := by
  rw [weightOf, getWeight, found]
  rfl

theorem mem_parentsOf (consistent : Consistent pool) :
    txId ∈ parentsOf pool child ↔
      txId ≠ child.id ∧ ∃ tx, pool.transactions.lookup txId = some tx ∧ Spends child tx := by
  rw [parentsOf, Finset.mem_erase, List.mem_toFinset, parentTxIds, List.mem_dedup, List.mem_filterMap]
  refine and_congr_right fun _ => ?_
  constructor
  · rintro ⟨boxId, spent, created⟩
    obtain ⟨tx, found, made⟩ := (consistent.created boxId txId).mp created
    exact ⟨tx, found, boxId, spent, made⟩
  · rintro ⟨tx, found, boxId, spent, made⟩
    exact ⟨boxId, spent, (consistent.created boxId txId).mpr ⟨tx, found, made⟩⟩

theorem mem_kin (consistent : Consistent pool) (member : child ∈ pool.pooled) (also : tx ∈ pool.pooled) :
    tx.id ∈ kin pool child.id ↔ tx.id ≠ child.id ∧ Spends child tx := by
  have found := consistent.lookup_iff.mpr ⟨also, rfl⟩
  rw [kin_of_found (consistent.lookup_iff.mpr ⟨member, rfl⟩), mem_parentsOf consistent, found]
  simp

theorem kin_subset (consistent : Consistent pool) : kin pool txId ⊆ nodes pool := by
  intro parentId member
  unfold kin at member
  cases found : pool.transactions.lookup txId with
  | none => simp [found] at member
  | some child =>
      rw [found] at member
      obtain ⟨-, tx, known, -⟩ := (mem_parentsOf consistent).mp member
      exact mem_nodes.mpr ⟨tx, known⟩

theorem map_id_pooled (linked : Linked pool) : pool.pooled.map PooledTransaction.id = pool.transactions.keys := by
  rw [pooled, List.map_map]
  apply List.map_congr_left
  intro entry member
  have found : pool.transactions.lookup entry.1 = some entry.2 := AList.mem_lookup_iff.mpr member
  exact linked.identified found

theorem sum_nodes (linked : Linked pool) {Q : Bytes → Prop} [DecidablePred Q] {q : PooledTransaction → Bool}
    (same : ∀ tx ∈ pool.pooled, Q tx.id ↔ q tx = true) (f : Bytes → Int64) :
    ∑ txId ∈ nodes pool with Q txId, f txId = ((pool.pooled.filter q).map fun tx => f tx.id).sum := by
  have distinct : ((pool.pooled.filter q).map PooledTransaction.id).Nodup :=
    (map_id_pooled linked ▸ pool.transactions.keys_nodup).sublist (List.filter_sublist.map _)
  have listed : (nodes pool).filter Q = ((pool.pooled.filter q).map PooledTransaction.id).toFinset := by
    ext txId
    rw [Finset.mem_filter, nodes, ← map_id_pooled linked]
    simp only [List.mem_toFinset, List.mem_map, List.mem_filter]
    constructor
    · rintro ⟨⟨tx, member, rfl⟩, holds⟩
      exact ⟨tx, ⟨member, (same tx member).mp holds⟩, rfl⟩
    · rintro ⟨tx, ⟨member, holds⟩, rfl⟩
      exact ⟨⟨tx, member, rfl⟩, (same tx member).mpr holds⟩
  rw [listed, List.sum_toFinset _ distinct, List.map_map]
  rfl

/-- The pool's graph has no cycles, not even a transaction that spends its own output, and the weights
add up over it. -/
structure Familial (pool : Mempool) : Prop where
  balanced : Balanced (nodes pool) (kin pool) (own pool) (weightOf pool)
  acyclic : ∀ txId ∈ nodes pool, ∃ n, Within (kin pool) n txId
  loopless : ∀ tx ∈ pool.pooled, ¬ Spends tx tx

theorem familial_new (config : MempoolConfig) : Familial (new config) := by
  constructor <;> simp [Propagation.Balanced, nodes, new, pooled]

theorem weighted_of_familial (consistent : Consistent pool) (familial : Familial pool) : Weighted pool := by
  intro tx member
  have found := consistent.lookup_iff.mpr ⟨member, rfl⟩
  obtain ⟨wtx, weighed⟩ := consistent.weighed found
  have balanced := familial.balanced tx.id (mem_nodes.mpr ⟨tx, found⟩)
  have children : ∀ child ∈ pool.pooled, tx.id ∈ kin pool child.id ↔ decide (Spends child tx) = true := by
    intro child also
    rw [mem_kin consistent also member, decide_eq_true_iff, and_iff_right_iff_imp]
    intro spends same
    have found' := consistent.lookup_iff.mpr ⟨also, same.symm⟩
    rw [found] at found'
    cases found'
    exact familial.loopless tx member spends
  rw [sum_nodes consistent.toLinked children, own_of_found found, weightOf_of_found weighed] at balanced
  rw [getWeight, weighed, Option.map_some, balanced]
  rfl

/-! ### Changed weights -/

section Reweighed
variable {gain : Bytes → Int64} (reweighed : Reweighed pool pool' gain)
include reweighed

theorem Reweighed.nodes : nodes pool' = nodes pool := by
  rw [Mempool.nodes, reweighed.transactions]
  rfl

theorem Reweighed.kin : kin pool' = kin pool := by
  funext txId
  rw [Mempool.kin, reweighed.transactions, reweighed.parentsOf]
  rfl

theorem Reweighed.own : own pool' = own pool := by
  funext txId
  rw [Mempool.own, reweighed.transactions]
  rfl

theorem Reweighed.weightOf (linked : Linked pool) (member : txId ∈ Mempool.nodes pool) :
    weightOf pool' txId = Mempool.weightOf pool txId + gain txId := by
  obtain ⟨tx, found⟩ := mem_nodes.mp member
  obtain ⟨wtx, weighed⟩ := linked.weighed found
  rw [weightOf_of_found weighed, Mempool.weightOf, getWeight, reweighed.registry, weighed]
  rfl

end Reweighed

/-! ### Leaving -/

theorem lookup_detach (different : txId ≠ tx.id) :
    (pool.detach tx.id tx (some wtx)).transactions.lookup txId = pool.transactions.lookup txId :=
  AList.lookup_erase_ne different

theorem lookup_detach_self : (pool.detach tx.id tx (some wtx)).transactions.lookup tx.id = none :=
  AList.lookup_erase ..

theorem nodes_detach : nodes (pool.detach tx.id tx (some wtx)) = (nodes pool).erase tx.id := by
  ext txId
  rw [Finset.mem_erase, mem_nodes, mem_nodes]
  by_cases same : txId = tx.id
  · subst same
    simp [lookup_detach_self]
  · rw [lookup_detach same]
    exact (and_iff_right same).symm

theorem weightOf_detach (different : txId ≠ tx.id) :
    weightOf (pool.detach tx.id tx (some wtx)) txId = weightOf pool txId := by
  rw [weightOf, getWeight, detach, AList.lookup_erase_ne different]
  rfl

theorem family_eq_kin (different : txId ≠ tx.id) : family pool tx txId = kin pool txId := if_neg different

theorem mem_kin_detach (consistent : Consistent pool) {wtx : WeightedTxId}
    (detached : Consistent (pool.detach tx.id tx (some wtx))) (found : pool.transactions.lookup tx.id = some tx)
    {parentId : Bytes} (other : parentId ≠ tx.id) (member : txId ∈ nodes pool) :
    parentId ∈ family (pool.detach tx.id tx (some wtx)) tx txId ↔ parentId ∈ kin pool txId := by
  have scanned : ∀ child, parentId ∈ parentsOf (pool.detach tx.id tx (some wtx)) child ↔
      parentId ∈ parentsOf pool child := by
    intro child
    rw [mem_parentsOf detached, mem_parentsOf consistent, lookup_detach other]
  by_cases same : txId = tx.id
  · subst same
    rw [family, if_pos rfl, kin_of_found found]
    exact scanned tx
  · obtain ⟨child, known⟩ := mem_nodes.mp member
    rw [family_eq_kin same, kin_of_found known, kin_of_found ((lookup_detach same).trans known)]
    exact scanned child

theorem family_detach_subset {wtx : WeightedTxId} (detached : Consistent (pool.detach tx.id tx (some wtx))) :
    family (pool.detach tx.id tx (some wtx)) tx txId ⊆ (nodes pool).erase tx.id := by
  rw [← @nodes_detach pool tx wtx]
  intro parentId member
  unfold family at member
  split at member
  · obtain ⟨-, parentTx, found, -⟩ := (mem_parentsOf detached).mp member
    exact mem_nodes.mpr ⟨parentTx, found⟩
  · exact kin_subset detached member

theorem kin_detach_subset (consistent : Consistent pool) {wtx : WeightedTxId}
    (detached : Consistent (pool.detach tx.id tx (some wtx))) (found : pool.transactions.lookup tx.id = some tx) :
    kin (pool.detach tx.id tx (some wtx)) txId ⊆ kin pool txId := by
  intro parentId member
  have closed := kin_subset detached member
  rw [nodes_detach] at closed
  by_cases same : txId = tx.id
  · rw [same, kin, lookup_detach_self] at member
    simp at member
  · by_cases known : txId ∈ nodes pool
    · rw [← family_eq_kin same] at member
      exact (mem_kin_detach consistent detached found (Finset.ne_of_mem_erase closed) known).mp member
    · rw [mem_nodes, not_exists] at known
      have unknown := Option.eq_none_iff_forall_ne_some.mpr known
      rw [kin, lookup_detach same, unknown] at member
      simp at member

theorem mem_pooled_detach {other : PooledTransaction} (member : other ∈ (pool.detach tx.id tx (some wtx)).pooled) :
    other ∈ pool.pooled := by
  obtain ⟨txId, known⟩ := mem_pooled.mp member
  exact mem_pooled.mpr ⟨txId, (Entries.lookup_erase_iff.mp known).2⟩

theorem Familial.leave {gain : Bytes → Int64} {levels : Nat} (consistent : Consistent pool)
    (familial : Familial pool) (found : pool.transactions.lookup tx.id = some tx)
    (weighed : pool.registry.lookup tx.id = some wtx)
    (reweighed : Reweighed (pool.detach tx.id tx (some wtx)) pool' gain)
    (within : Within (family (pool.detach tx.id tx (some wtx)) tx) levels tx.id)
    (spreads : gain = spread (family (pool.detach tx.id tx (some wtx)) tx) (-wtx.weight) levels tx.id) :
    Familial pool' := by
  have detached := detach_consistent consistent found weighed
  have left := familial.balanced.erase (mem_nodes.mpr ⟨tx, found⟩)
    (fun a member c here => mem_kin_detach consistent detached found (Finset.ne_of_mem_erase member) here)
    (fun c => family_detach_subset detached) within
  rw [weightOf_of_found weighed, ← spreads] at left
  constructor
  case balanced =>
    rw [reweighed.nodes, nodes_detach]
    apply left.congr
    intro txId member
    have other : txId ≠ tx.id := Finset.ne_of_mem_erase member
    refine ⟨?_, ?_, ?_⟩
    · rw [reweighed.kin, family_eq_kin other]
    · rw [reweighed.own, own, lookup_detach other]
      rfl
    · rw [← @nodes_detach pool tx wtx] at member
      rw [reweighed.weightOf detached.toLinked member, weightOf_detach other]
  case acyclic =>
    intro txId member
    rw [reweighed.nodes, nodes_detach] at member
    obtain ⟨n, short⟩ := familial.acyclic txId (Finset.mem_of_mem_erase member)
    rw [reweighed.kin]
    exact ⟨n, short.of_subset fun _ => kin_detach_subset consistent detached found⟩
  case loopless =>
    intro other member
    rw [reweighed.pooled] at member
    exact familial.loopless other (mem_pooled_detach member)

/-! ### Entering -/

/-- The transaction makes boxes of its own, does not spend them itself, and what spends them in the
pool already, if anything, weighs nothing in total. -/
structure BeforeChildren (pool : Mempool) (tx : PooledTransaction) : Prop where
  fresh : ∀ other ∈ pool.pooled, ∀ boxId ∈ tx.outputs, boxId ∉ other.outputs
  loopless : ¬ Spends tx tx
  childless : ((spenders pool tx).map fun child => weightOf pool child.id).sum = 0

theorem BeforeChildren.consistent (consistent : Consistent pool) (admissible : Admissible pool tx)
    (before : BeforeChildren pool tx) : Consistent (pool.attach tx) := by
  apply attach_consistent consistent admissible
  intro boxId created taken
  obtain ⟨otherId, made⟩ := Entries.mem_iff.mp taken
  obtain ⟨other, found, also⟩ := (consistent.created boxId otherId).mp made
  exact before.fresh other (mem_pooled.mpr ⟨otherId, found⟩) boxId created also

theorem lookup_attach_self : (pool.attach tx).transactions.lookup tx.id = some tx := AList.lookup_insert _

theorem lookup_attach (different : txId ≠ tx.id) :
    (pool.attach tx).transactions.lookup txId = pool.transactions.lookup txId :=
  AList.lookup_insert_ne different

theorem nodes_attach : nodes (pool.attach tx) = insert tx.id (nodes pool) := by
  ext txId
  rw [Finset.mem_insert, mem_nodes, mem_nodes]
  by_cases same : txId = tx.id
  · subst same
    simp [lookup_attach_self]
  · rw [lookup_attach same]
    exact (or_iff_right same).symm

theorem weightOf_attach (different : txId ≠ tx.id) : weightOf (pool.attach tx) txId = weightOf pool txId := by
  rw [weightOf, getWeight, attach, AList.lookup_insert_ne different]
  rfl

theorem weightOf_attach_self : weightOf (pool.attach tx) tx.id = (weighted tx).feePerFactor := by
  rw [weightOf, getWeight, attach, AList.lookup_insert]
  rfl

theorem family_attach : family (pool.attach tx) tx = kin (pool.attach tx) := by
  funext txId
  by_cases same : txId = tx.id
  · rw [same, family, if_pos rfl, kin_of_found lookup_attach_self]
  · exact family_eq_kin same

theorem mem_kin_attach (consistent : Consistent pool) (attached : Consistent (pool.attach tx))
    {parentId : Bytes} (other : parentId ≠ tx.id) (different : txId ≠ tx.id) :
    parentId ∈ kin (pool.attach tx) txId ↔ parentId ∈ kin pool txId := by
  rw [kin, kin, lookup_attach different]
  cases pool.transactions.lookup txId with
  | none => rfl
  | some child =>
      change parentId ∈ parentsOf (pool.attach tx) child ↔ parentId ∈ parentsOf pool child
      rw [mem_parentsOf attached, mem_parentsOf consistent, lookup_attach other]

theorem ne_of_mem_nodes (unknown : tx.id ∉ pool.transactions) (member : txId ∈ nodes pool) : txId ≠ tx.id := by
  rintro rfl
  exact unknown (Entries.mem_iff.mpr (mem_nodes.mp member))

theorem BeforeChildren.sum_children (consistent : Consistent pool) (admissible : Admissible pool tx)
    (before : BeforeChildren pool tx) :
    ∑ txId ∈ nodes pool with tx.id ∈ kin (pool.attach tx) txId, weightOf (pool.attach tx) txId = 0 := by
  have attached := before.consistent consistent admissible
  have entered : tx ∈ (pool.attach tx).pooled := mem_pooled.mpr ⟨tx.id, lookup_attach_self⟩
  have other : ∀ child ∈ pool.pooled, child.id ≠ tx.id := by
    intro child member
    have found := consistent.lookup_iff.mpr ⟨member, rfl⟩
    exact ne_of_mem_nodes admissible.unknown (mem_nodes.mpr ⟨child, found⟩)
  have children : ∀ child ∈ pool.pooled,
      tx.id ∈ kin (pool.attach tx) child.id ↔ decide (Spends child tx) = true := by
    intro child member
    have found := consistent.lookup_iff.mpr ⟨member, rfl⟩
    have also : child ∈ (pool.attach tx).pooled :=
      mem_pooled.mpr ⟨child.id, (lookup_attach (other child member)).trans found⟩
    rw [mem_kin attached also entered, decide_eq_true_iff]
    exact and_iff_right (Ne.symm (other child member))
  rw [sum_nodes consistent.toLinked children, ← before.childless]
  congr 1
  apply List.map_congr_left
  intro child member
  exact weightOf_attach (other child (List.mem_filter.mp member).1)

theorem Familial.balanced_attach (familial : Familial pool) (unknown : tx.id ∉ pool.transactions) :
    Balanced (nodes pool) (kin pool) (own (pool.attach tx)) (weightOf (pool.attach tx)) := by
  apply familial.balanced.congr
  intro txId member
  have other := ne_of_mem_nodes unknown member
  refine ⟨rfl, ?_, weightOf_attach other⟩
  rw [own, lookup_attach other]
  rfl

theorem Familial.enter {gain : Bytes → Int64} {levels : Nat} (consistent : Consistent pool)
    (familial : Familial pool) (admissible : Admissible pool tx) (before : BeforeChildren pool tx)
    (reweighed : Reweighed (pool.attach tx) pool' gain)
    (within : Within (family (pool.attach tx) tx) levels tx.id)
    (spreads : gain = spread (family (pool.attach tx) tx) (weighted tx).weight levels tx.id) :
    Familial pool' := by
  have attached := before.consistent consistent admissible
  have others : ∀ txId ∈ nodes pool, txId ≠ tx.id := fun _ => ne_of_mem_nodes admissible.unknown
  have absent : tx.id ∉ nodes pool := fun member => others tx.id member rfl
  rw [family_attach] at within spreads
  have loopless : tx.id ∉ kin (pool.attach tx) tx.id := by
    rw [kin_of_found lookup_attach_self]
    exact Finset.notMem_erase _ _
  have started : own (pool.attach tx) tx.id = (weighted tx).weight := own_of_found lookup_attach_self
  have all := (familial.balanced_attach admissible.unknown).insert absent (weightOf_attach_self.trans started.symm)
    (fun a member c here => mem_kin_attach consistent attached (others a member) (others c here)) loopless
    (before.sum_children consistent admissible) (fun c => @nodes_attach _ tx ▸ kin_subset attached) within
  rw [started, ← spreads] at all
  constructor
  case balanced =>
    rw [reweighed.nodes, nodes_attach]
    apply all.congr
    intro txId member
    rw [reweighed.kin, reweighed.own]
    refine ⟨rfl, rfl, ?_⟩
    rw [← nodes_attach] at member
    exact reweighed.weightOf attached.toLinked member
  case acyclic =>
    intro txId member
    rw [reweighed.nodes, nodes_attach, Finset.mem_insert] at member
    rw [reweighed.kin]
    rcases member with rfl | member
    · exact ⟨levels, within⟩
    · obtain ⟨n, short⟩ := familial.acyclic txId member
      apply short.enter within
      intro c different parentId above
      by_cases same : parentId = tx.id
      · exact same ▸ Finset.mem_insert_self _ _
      · exact Finset.mem_insert_of_mem ((mem_kin_attach consistent attached same different).mp above)
  case loopless =>
    intro other member
    rw [reweighed.pooled] at member
    obtain ⟨txId, known⟩ := mem_pooled.mp member
    rcases Entries.lookup_insert_iff.mp known with ⟨-, rfl⟩ | ⟨-, old⟩
    · exact before.loopless
    · exact familial.loopless other (mem_pooled.mpr ⟨txId, old⟩)

/-! ### Runs -/

/-- No scan of the step meets a limit. -/
def Unlimited (pool : Mempool) (a : Schedule × Action) : Prop := (perform a.1 a.2 pool.session).cutShort = false

/-- Whatever the step admits comes before its children. -/
def ParentsEnterFirst (pool : Mempool) (a : Schedule × Action) : Prop :=
  ∀ tx, a.2.added? = some tx → pool.check tx = .ok () → BeforeChildren pool tx

structure InOrder (s : Session) : Prop where
  consistent : Consistent s.pool
  familial : s.cutShort = false → Familial s.pool

theorem kept_inOrder {schedule : Schedule} : Kept schedule InOrder where
  scans := fun _ holds => ⟨holds.consistent, holds.familial⟩
  remove := by
    intro s txId holds
    cases found : s.pool.transactions.lookup txId with
    | none =>
        rw [remove_of_unknown found]
        exact holds
    | some tx =>
        obtain rfl := holds.consistent.identified found
        obtain ⟨wtx, weighed⟩ := holds.consistent.weighed found
        obtain ⟨gain, reweighed, full⟩ := @remove_scan schedule _ _ _ _ holds.consistent.toLinked found weighed
        refine ⟨reweighed.consistent (detach_consistent holds.consistent found weighed), fun done => ?_⟩
        obtain ⟨done, within, spreads⟩ := full done
        exact (holds.familial done).leave holds.consistent found weighed reweighed within spreads

theorem inOrder_perform {a : Schedule × Action} {s : Session} (timely : ParentsEnterFirst s.pool a)
    (holds : InOrder s) : InOrder (perform a.1 a.2 s) := by
  refine kept_inOrder.perform (P := BeforeChildren) ?_ ?_ a.2 timely holds
  · intro s tx holds admissible before
    obtain ⟨gain, reweighed, full⟩ := @add_scan a.1 _ _ holds.consistent.toLinked admissible
    refine ⟨reweighed.consistent (before.consistent holds.consistent admissible), fun done => ?_⟩
    obtain ⟨done, within, spreads⟩ := full done
    exact (holds.familial done).enter holds.consistent admissible before reweighed within spreads
  · intro s _
    exact ⟨consistent_new _, fun _ => familial_new _⟩

theorem inOrder_step {a : Schedule × Action} (holds : InOrder pool.session) (unlimited : Unlimited pool a)
    (timely : ParentsEnterFirst pool a) (taken : step pool a = some pool') : InOrder pool'.session := by
  cases taken
  have after := inOrder_perform timely holds
  exact ⟨after.consistent, fun _ => after.familial unlimited⟩

theorem reachable_inOrder (config : MempoolConfig) (actions : List (Schedule × Action))
    (orderly : Along step (fun pool a => Unlimited pool a ∧ ParentsEnterFirst pool a) (new config) actions) :
    Always step (fun pool => InOrder pool.session) (new config) actions :=
  orderly.invariant (fun pool => InOrder pool.session)
    (fun holds condition taken => inOrder_step holds condition.1 condition.2 taken)
    ⟨consistent_new config, fun _ => familial_new config⟩

theorem reachable_weighted (config : MempoolConfig) (actions : List (Schedule × Action))
    (orderly : Along step (fun pool a => Unlimited pool a ∧ ParentsEnterFirst pool a) (new config) actions) :
    Always step Weighted (new config) actions := by
  intro pool visited
  have holds := reachable_inOrder config actions orderly pool visited
  exact weighted_of_familial holds.consistent (holds.familial rfl)

instance {a : Schedule × Action} : Decidable (Unlimited pool a) := inferInstanceAs (Decidable (_ = false))

instance : Decidable (BeforeChildren pool tx) :=
  decidable_of_iff ((∀ other ∈ pool.pooled, ∀ boxId ∈ tx.outputs, other.outputs.contains boxId = false) ∧
      ¬ Spends tx tx ∧ ((spenders pool tx).map fun child => weightOf pool child.id).sum = 0)
    ⟨fun ⟨fresh, loopless, childless⟩ => ⟨by simpa using fresh, loopless, childless⟩,
      fun before => ⟨by simpa using before.fresh, before.loopless, before.childless⟩⟩

instance {a : Schedule × Action} : Decidable (ParentsEnterFirst pool a) :=
  inferInstanceAs (Decidable (∀ tx ∈ a.2.added?, _))

theorem familyActions_weighted :
    ∃ pool, run step (new .default) (familyActions.take 2) = some pool ∧
      pool.getWeight Sample.pooledParent.id = some (768 + 1280) ∧ Weighted pool :=
  ⟨_, rfl, by decide, reachable_weighted .default familyActions (by decide) _
    ⟨familyActions.take 2, List.take_prefix _ _, rfl⟩⟩

instance : Decidable (Weighted pool) := inferInstanceAs (Decidable (∀ tx ∈ pool.pooled, _))

def childFirst : List (Schedule × Action) :=
  [(Sample.inOrder, .add Sample.pooledChild), (Sample.inOrder, .add Sample.pooledParent)]

/-- A child that arrives before its parent never counts towards the parent's weight. -/
theorem childFirst_breaks_weights : ¬ ∀ actions, DistinctOutputs (added actions) →
    Along step Unlimited (new .default) actions → Always step Weighted (new .default) actions := by
  intro all
  have weights := all childFirst (by decide) (by decide) _ ⟨childFirst, List.prefix_refl _, rfl⟩
  revert weights
  decide

end ErgoNode.Proof.Mempool
