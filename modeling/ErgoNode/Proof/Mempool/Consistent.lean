import ErgoNode.Lib.Run
import ErgoNode.Proof.Mempool.Family
import ErgoNode.Proof.Sample

/-!
# The mempool's representation invariant

Every operation is made of removals and at most one admission, so an invariant has to be shown for
these two only.
-/

namespace ErgoNode.Proof.Mempool
open Lib Lib.Propagation ErgoNode.Mempool

variable {schedule : Schedule} {s : Session} {tx : PooledTransaction} {txId : Bytes} {wtx : WeightedTxId}

def detached (s : Session) (txId : Bytes) (tx : PooledTransaction) (wtx : WeightedTxId) : Session :=
  { s with pool := s.pool.detach txId tx (some wtx) }

def attached (s : Session) (tx : PooledTransaction) : Session := { s with pool := s.pool.attach tx }

theorem remove_of_unknown (unknown : s.pool.transactions.lookup txId = none) :
    (remove schedule txId s).2 = s := by
  rw [remove, unknown]

theorem remove_of_found (found : s.pool.transactions.lookup txId = some tx)
    (weighed : s.pool.registry.lookup txId = some wtx) :
    remove schedule txId s = (.ok tx, updateFamily schedule tx (-wtx.weight) (detached s txId tx wtx)) := by
  rw [remove, found]
  dsimp only
  rw [weighed]
  rfl

theorem add_of_refused {e : MempoolError} (refused : s.pool.check tx = .error e) :
    add schedule tx s = (.error e, s) := by
  rw [add, refused]

theorem add_of_passed (passed : s.pool.check tx = .ok ()) :
    add schedule tx s =
      (.ok (), maybeEvict schedule (updateFamily schedule tx (weighted tx).weight (attached s tx))) := by
  rw [add, passed]
  rfl

/-! ### From removals and admissions to all operations -/

/-- A removal keeps `Inv`, and `Inv` does not depend on how many scans there were. -/
structure Kept (schedule : Schedule) (Inv : Session → Prop) : Prop where
  scans : ∀ {s} n, Inv s → Inv { s with scans := n }
  remove : ∀ {s} txId, Inv s → Inv (remove schedule txId s).2

namespace Kept
variable {Inv : Session → Prop} (kept : Kept schedule Inv)
include kept

theorem removeAll (txIds : List Bytes) (holds : Inv s) : Inv (removeAll schedule txIds s).2 := by
  induction txIds generalizing s with
  | nil => exact holds
  | cons txId rest ih => exact ih (kept.remove txId holds)

theorem removeConfirmed (txIds spentInputs : List Bytes) (holds : Inv s) :
    Inv (removeConfirmed schedule txIds spentInputs s).2 :=
  kept.removeAll _ (kept.removeAll txIds holds)

theorem removeExpired (now : Nat) (holds : Inv s) : Inv (removeExpired schedule now s) :=
  kept.removeAll _ (kept.scans _ holds)

theorem evictLowestWeight (holds : Inv s) : Inv (evictLowestWeight schedule s).2 := by
  unfold Mempool.evictLowestWeight
  split
  · next wtx _ => exact kept.remove wtx.txId holds
  · exact holds

theorem evictWhile (exceeds : Mempool → Bool) (rounds : Nat) (holds : Inv s) :
    Inv (evictWhile schedule exceeds rounds s) := by
  induction rounds generalizing s with
  | zero => exact holds
  | succ rounds ih =>
      have next := kept.evictLowestWeight holds
      rw [Mempool.evictWhile]
      split
      · split
        · next evicted =>
          rw [evicted] at next
          exact ih next
        · next evicted =>
          rw [evicted] at next
          exact next
      · exact holds

theorem maybeEvict (holds : Inv s) : Inv (maybeEvict schedule s) :=
  kept.evictWhile _ _ (kept.evictWhile _ _ holds)

theorem perform {P : Mempool → PooledTransaction → Prop}
    (enters : ∀ {s tx}, Inv s → Admissible s.pool tx → P s.pool tx →
      Inv (updateFamily schedule tx (weighted tx).weight (attached s tx)))
    (clears : ∀ {s}, Inv s → Inv { s with pool := s.pool.clear }) (a : Action)
    (condition : ∀ tx, a.added? = some tx → s.pool.check tx = .ok () → P s.pool tx) (holds : Inv s) :
    Inv (perform schedule a s) := by
  cases a with
  | add tx =>
      rw [Mempool.perform]
      cases checked : s.pool.check tx with
      | error e =>
          rw [add_of_refused checked]
          exact holds
      | ok _ =>
          rw [add_of_passed checked]
          exact kept.maybeEvict (enters holds (admissible_of_check checked) (condition tx rfl checked))
  | remove txId => exact kept.remove txId holds
  | removeConfirmed txIds spentInputs => exact kept.removeConfirmed txIds spentInputs holds
  | removeExpired now => exact kept.removeExpired now holds
  | clear => exact clears holds

end Kept

/-! ### Removals -/

theorem updateFamily_scan (delta : Int64) (linked : Linked s.pool)
    (own : ∀ other, s.pool.transactions.lookup tx.id = some other → other = tx) :
    Scan s (updateFamily schedule tx delta s) (Within (family s.pool tx) (maxParentScanDepth + 1) tx.id)
      (spread (family s.pool tx) delta (maxParentScanDepth + 1) tx.id) :=
  updateFamilyRecursive_scan schedule linked own (.refl linked) (if_pos rfl)

theorem remove_scan (linked : Linked s.pool) (found : s.pool.transactions.lookup txId = some tx)
    (weighed : s.pool.registry.lookup txId = some wtx) :
    Scan (detached s txId tx wtx) (remove schedule txId s).2
      (Within (family (detached s txId tx wtx).pool tx) (maxParentScanDepth + 1) tx.id)
      (spread (family (detached s txId tx wtx).pool tx) (-wtx.weight) (maxParentScanDepth + 1) tx.id) := by
  rw [remove_of_found found weighed]
  apply updateFamily_scan _ (detach_linked linked found weighed)
  intro other known
  rw [linked.identified found] at known
  simp [detached, detach] at known

theorem add_scan (linked : Linked s.pool) (admissible : Admissible s.pool tx) :
    Scan (attached s tx) (updateFamily schedule tx (weighted tx).weight (attached s tx))
      (Within (family (attached s tx).pool tx) (maxParentScanDepth + 1) tx.id)
      (spread (family (attached s tx).pool tx) (weighted tx).weight (maxParentScanDepth + 1) tx.id) := by
  apply updateFamily_scan _ (attach_linked linked admissible)
  intro other known
  exact (Option.some.inj ((AList.lookup_insert _).symm.trans known)).symm

theorem kept_of_detach {Good : Mempool → Prop} (linked : ∀ {pool}, Good pool → Linked pool)
    (detaches : ∀ {pool txId tx wtx}, Good pool → pool.transactions.lookup txId = some tx →
      pool.registry.lookup txId = some wtx → Good (pool.detach txId tx (some wtx)))
    (reweighs : ∀ {pool pool' gain}, Good pool → Reweighed pool pool' gain → Good pool') :
    Kept schedule fun s => Good s.pool where
  scans := fun _ holds => holds
  remove := by
    intro s txId holds
    cases found : s.pool.transactions.lookup txId with
    | none =>
        rw [remove_of_unknown found]
        exact holds
    | some tx =>
        obtain ⟨wtx, weighed⟩ := (linked holds).weighed found
        obtain ⟨gain, reweighed, -⟩ := @remove_scan schedule _ _ _ _ (linked holds) found weighed
        exact reweighs (detaches holds found weighed) reweighed

theorem kept_linked : Kept schedule fun s => Linked s.pool :=
  kept_of_detach id detach_linked fun linked reweighed => reweighed.linked linked

theorem linked_step {pool pool' : Mempool} {a : Schedule × Action} (linked : Linked pool)
    (taken : step pool a = some pool') : Linked pool' := by
  cases taken
  refine (@kept_linked a.1).perform (P := fun _ _ => True) (s := pool.session) ?_ ?_ a.2
    (fun _ _ _ => trivial) linked
  · intro s tx linked admissible _
    obtain ⟨gain, reweighed, -⟩ := @add_scan a.1 _ _ linked admissible
    exact reweighed.linked (attach_linked linked admissible)
  · intro s _
    exact linked_new s.pool.config

/-! ### Evictions -/

theorem length_remove (linked : Linked s.pool) (found : s.pool.transactions.lookup txId = some tx) :
    (remove schedule txId s).2.pool.transactions.entries.length + 1 = s.pool.transactions.entries.length := by
  obtain ⟨wtx, weighed⟩ := linked.weighed found
  obtain ⟨gain, reweighed, -⟩ := @remove_scan schedule _ _ _ _ linked found weighed
  rw [reweighed.transactions, (Entries.perm_erase found).length_eq]
  rfl

theorem evictLowestWeight_ok (linked : Linked s.pool) (nonempty : s.pool.pooled ≠ []) :
    ∃ s', evictLowestWeight schedule s = (.ok (), s') ∧
      s'.pool.transactions.entries.length + 1 = s.pool.transactions.entries.length := by
  obtain ⟨tx, member⟩ := List.exists_mem_of_ne_nil _ nonempty
  obtain ⟨wtx, weighed⟩ := linked.weighed (linked.lookup_iff.mpr ⟨member, rfl⟩)
  have listed : wtx ∈ s.pool.weightOrder := (linked.ordered wtx).mpr (by rwa [linked.named weighed])
  obtain ⟨last, lowest⟩ := SortedSet.last?_isSome listed
  obtain ⟨victim, found⟩ := linked.listed (SortedSet.mem_last? lowest)
  obtain ⟨lastWtx, weighed'⟩ := linked.weighed found
  refine ⟨(remove schedule last.txId s).2, ?_, length_remove linked found⟩
  rw [evictLowestWeight, lowest]
  dsimp only
  rw [remove_of_found found weighed']
  rfl

section Loop
variable {exceeds : Mempool → Bool}

theorem evictWhile_of_fits (within : exceeds s.pool = false) (rounds : Nat) : evictWhile schedule exceeds rounds s = s := by
  cases rounds with
  | zero => rfl
  | succ rounds => rw [evictWhile, within, if_neg Bool.false_ne_true]

variable (empty : ∀ pool, Linked pool → pool.pooled = [] → exceeds pool = false)
include empty

theorem evictWhile_again (linked : Linked s.pool) (more : exceeds s.pool = true) :
    ∃ t, evictLowestWeight schedule s = (.ok (), t) ∧ Linked t.pool ∧
      t.pool.transactions.entries.length + 1 = s.pool.transactions.entries.length ∧
      ∀ rounds, evictWhile schedule exceeds (rounds + 1) s = evictWhile schedule exceeds rounds t := by
  have nonempty : s.pool.pooled ≠ [] := fun none => by simp [empty _ linked none] at more
  obtain ⟨t, evicted, fewer⟩ := @evictLowestWeight_ok schedule _ linked nonempty
  have linked' : Linked t.pool := by
    have kept := (@kept_linked schedule).evictLowestWeight linked
    rwa [evicted] at kept
  refine ⟨t, evicted, linked', fewer, fun rounds => ?_⟩
  rw [evictWhile, if_pos more, evicted]

theorem exceeds_of_length_zero (linked : Linked s.pool) (enough : s.pool.transactions.entries.length ≤ 0) :
    exceeds s.pool = false := by
  apply empty _ linked
  rw [pooled, List.eq_nil_of_length_eq_zero (Nat.le_zero.mp enough)]
  rfl

theorem evictWhile_done (rounds : Nat) (linked : Linked s.pool)
    (enough : s.pool.transactions.entries.length ≤ rounds) :
    exceeds (evictWhile schedule exceeds rounds s).pool = false := by
  induction rounds generalizing s with
  | zero => exact exceeds_of_length_zero empty linked enough
  | succ rounds ih =>
      cases more : exceeds s.pool with
      | false =>
          rw [evictWhile_of_fits more]
          exact more
      | true =>
          obtain ⟨t, -, linked', fewer, next⟩ := @evictWhile_again schedule _ _ empty linked more
          rw [next]
          exact ih linked' (by omega)

end Loop

theorem tooMany_of_empty (pool : Mempool) (none : pool.pooled = []) : pool.tooMany = false := by
  have length : pool.transactions.entries.length = 0 := by simpa [pooled] using congrArg List.length none
  simp [tooMany, length]

theorem tooLarge_of_empty (pool : Mempool) (linked : Linked pool) (none : pool.pooled = []) :
    pool.tooLarge = false := by
  simp [tooLarge, linked.sized, none]

theorem tooLarge_maybeEvict (linked : Linked s.pool) : (maybeEvict schedule s).pool.tooLarge = false :=
  evictWhile_done tooLarge_of_empty _ (kept_linked.evictWhile tooMany _ linked) le_rfl

theorem tooMany_evictWhile (linked : Linked s.pool) :
    (evictWhile schedule tooMany s.pool.transactions.entries.length s).pool.tooMany = false :=
  evictWhile_done (fun pool _ => tooMany_of_empty pool) _ linked le_rfl

/-! ### Transactions with outputs of their own -/

/-- Transactions that create one box are one transaction. -/
def DistinctOutputs (txs : List PooledTransaction) : Prop :=
  ∀ tx ∈ txs, ∀ other ∈ txs, ∀ boxId ∈ tx.outputs, boxId ∈ other.outputs → tx.id = other.id

def added (actions : List (Schedule × Action)) : List PooledTransaction :=
  actions.filterMap fun a => a.2.added?

structure ConsistentWith (txs : List PooledTransaction) (pool : Mempool) : Prop extends Consistent pool where
  known : ∀ tx ∈ pool.pooled, tx ∈ txs

namespace ConsistentWith
variable {txs : List PooledTransaction} {pool pool' : Mempool} {gain : Bytes → Int64}

theorem detach (consistent : ConsistentWith txs pool) (found : pool.transactions.lookup txId = some tx)
    (weighed : pool.registry.lookup txId = some wtx) : ConsistentWith txs (pool.detach txId tx (some wtx)) where
  toConsistent := detach_consistent consistent.toConsistent found weighed
  known := by
    intro other member
    obtain ⟨otherId, found'⟩ := mem_pooled.mp member
    apply consistent.known other
    have different : otherId ≠ txId := by
      rintro rfl
      simp [Mempool.detach] at found'
    exact mem_pooled.mpr ⟨otherId, (AList.lookup_erase_ne different).symm.trans found'⟩

theorem reweigh (consistent : ConsistentWith txs pool) (reweighed : Reweighed pool pool' gain) :
    ConsistentWith txs pool' where
  toConsistent := reweighed.consistent consistent.toConsistent
  known := by
    rw [reweighed.pooled]
    exact consistent.known

theorem free (distinct : DistinctOutputs txs) (consistent : ConsistentWith txs pool) (unknown : tx.id ∉ pool.transactions)
    (member : tx ∈ txs) : ∀ boxId ∈ tx.outputs, boxId ∉ pool.outputToTx := by
  intro boxId created taken
  obtain ⟨otherId, made⟩ := Entries.mem_iff.mp taken
  obtain ⟨other, found, also⟩ := (consistent.created boxId otherId).mp made
  have same := distinct tx member other (consistent.known other (mem_pooled.mpr ⟨otherId, found⟩)) boxId created also
  rw [← consistent.identified found, ← same] at found
  exact unknown (Entries.mem_iff.mpr ⟨_, found⟩)

theorem attach (distinct : DistinctOutputs txs) (consistent : ConsistentWith txs pool)
    (admissible : Admissible pool tx) (member : tx ∈ txs) : ConsistentWith txs (pool.attach tx) where
  toConsistent := attach_consistent consistent.toConsistent admissible
    (consistent.free distinct admissible.unknown member)
  known := by
    intro other here
    obtain ⟨otherId, found⟩ := mem_pooled.mp here
    rcases Entries.lookup_insert_iff.mp found with ⟨-, rfl⟩ | ⟨-, old⟩
    · exact member
    · exact consistent.known other (mem_pooled.mpr ⟨otherId, old⟩)

theorem step (distinct : DistinctOutputs txs) {a : Schedule × Action} (consistent : ConsistentWith txs pool)
    (among : ∀ tx, a.2.added? = some tx → tx ∈ txs) (taken : step pool a = some pool') :
    ConsistentWith txs pool' := by
  cases taken
  have kept : Kept a.1 fun s => ConsistentWith txs s.pool :=
    kept_of_detach (fun consistent => consistent.toLinked) detach reweigh
  refine kept.perform (P := fun _ tx => tx ∈ txs) (s := pool.session) ?_ ?_ a.2
    (fun tx enters _ => among tx enters) consistent
  · intro s tx consistent admissible member
    obtain ⟨gain, reweighed, -⟩ := @add_scan a.1 _ _ consistent.toLinked admissible
    exact (consistent.attach distinct admissible member).reweigh reweighed
  · intro s _
    exact { consistent_new s.pool.config with known := by simp [clear, new, pooled] }

end ConsistentWith

theorem reachable_consistentWith (config : MempoolConfig) (actions : List (Schedule × Action))
    {txs : List PooledTransaction} (distinct : DistinctOutputs txs) (among : ∀ tx ∈ added actions, tx ∈ txs) :
    Always step (ConsistentWith txs) (new config) actions := by
  have start : ConsistentWith txs (new config) :=
    { consistent_new config with known := by simp [new, pooled] }
  obtain ⟨last, ran⟩ := @exists_run _ _ step (fun _ _ => rfl) (new config) actions
  have along : Along step (fun _ a => ∀ tx, a.2.added? = some tx → tx ∈ txs) (new config) actions :=
    (along_actions ran).mpr fun a member tx enters => among tx (List.mem_filterMap.mpr ⟨a, member, enters⟩)
  exact along.invariant (ConsistentWith txs) (fun consistent among taken => consistent.step distinct among taken) start

theorem reachable_consistent (config : MempoolConfig) (actions : List (Schedule × Action))
    (distinct : DistinctOutputs (added actions)) : Always step Consistent (new config) actions := by
  intro pool visited
  exact (reachable_consistentWith config actions distinct (fun _ member => member) pool visited).toConsistent

def familyActions : List (Schedule × Action) :=
  [(Sample.inOrder, .add Sample.pooledParent), (Sample.inOrder, .add Sample.pooledChild),
    (Sample.inOrder, .remove Sample.pooledParent.id)]

instance (txs : List PooledTransaction) : Decidable (DistinctOutputs txs) :=
  inferInstanceAs (Decidable (∀ tx ∈ txs, ∀ other ∈ txs, ∀ boxId ∈ tx.outputs, _))

theorem familyActions_consistent :
    ∃ pool, run step (new .default) familyActions = some pool ∧ pool.pooled = [Sample.pooledChild] ∧
      Consistent pool :=
  ⟨_, rfl, by decide, reachable_consistent .default familyActions (by decide) _
    ⟨familyActions, List.prefix_refl _, rfl⟩⟩

end ErgoNode.Proof.Mempool
