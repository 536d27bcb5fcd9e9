import ErgoNode.Proof.Mempool.Confirmed

/-!
# Expired transactions

The age of a transaction is a difference of clock values that wraps around: an arrival ahead of the clock makes
a very old transaction.
-/

namespace ErgoNode.Proof.Mempool
open Lib ErgoNode.Mempool

def Overdue (config : MempoolConfig) (now : Nat) (tx : PooledTransaction) : Prop :=
  tx.arrivalTime + config.txExpirySecs * 1000 < now

instance (config : MempoolConfig) (now : Nat) (tx : PooledTransaction) : Decidable (Overdue config now tx) :=
  inferInstanceAs (Decidable (_ < _))

/-- Exactly the overdue transactions have left, none from the future among them, and the indexes agree. -/
structure ExpiresExactly (schedule : Schedule) (now : Nat) (pool : Mempool) : Prop where
  left : ∀ tx, tx ∈ (removeExpired schedule now pool.session).pool.pooled ↔
    tx ∈ pool.pooled ∧ ¬ Overdue pool.config now tx
  future : ∀ tx ∈ pool.pooled, now < tx.arrivalTime → tx ∈ (removeExpired schedule now pool.session).pool.pooled
  consistent : Consistent (removeExpired schedule now pool.session).pool

/-- The wrapped age is over the wrapped expiry time only for what is overdue. -/
def AgeFits (config : MempoolConfig) (now : Nat) (tx : PooledTransaction) : Prop :=
  if tx.arrivalTime ≤ now then
    config.txExpirySecs * 1000 < 2 ^ 64 ∨ now - tx.arrivalTime ≤ config.txExpirySecs * 1000 % 2 ^ 64
  else 2 ^ 64 - (tx.arrivalTime - now) ≤ config.txExpirySecs * 1000 % 2 ^ 64

variable {pool : Mempool} {tx : PooledTransaction} {now : Nat} {schedule : Schedule}

theorem mem_expired (linked : Linked pool) (member : tx ∈ pool.pooled) : tx.id ∈ pool.expired now ↔
    pool.config.txExpirySecs * 1000 % 2 ^ 64 < (2 ^ 64 + now - tx.arrivalTime) % 2 ^ 64 := by
  unfold expired
  rw [List.mem_map]
  constructor
  · rintro ⟨other, listed, same⟩
    rw [List.mem_filter, decide_eq_true_iff] at listed
    have found := linked.lookup_iff.mpr ⟨listed.1, same⟩
    rw [linked.lookup_iff.mpr ⟨member, rfl⟩] at found
    cases found
    exact listed.2
  · intro old
    exact ⟨tx, List.mem_filter.mpr ⟨member, decide_eq_true old⟩, rfl⟩

theorem mem_removeExpired (linked : Linked pool) :
    tx ∈ (removeExpired schedule now pool.session).pool.pooled ↔ tx ∈ pool.pooled ∧ tx.id ∉ pool.expired now := by
  have last : Linked (removeExpired schedule now pool.session).pool :=
    (@kept_linked schedule).removeExpired (s := pool.session) now linked
  have listed : ∀ txId, txId ∈ schedule.order 0 (pool.expired now) ↔ txId ∈ pool.expired now :=
    fun _ => (schedule.perm 0 _).mem_iff
  have after : (removeExpired schedule now pool.session).pool.transactions.lookup tx.id = _ :=
    lookup_removeAll (s := { pool.session with scans := 1 }) linked (schedule.order 0 (pool.expired now))
  rw [← and_iff_left (a := tx ∈ (removeExpired schedule now pool.session).pool.pooled) (rfl : tx.id = tx.id),
    ← last.lookup_iff, after, ← and_iff_left (a := tx ∈ pool.pooled) (rfl : tx.id = tx.id), ← linked.lookup_iff]
  simp only [listed]
  split
  · next gone => simp [gone]
  · next kept => exact (and_iff_left kept).symm

theorem test_iff (config : MempoolConfig) (small : now < 2 ^ 64) (arrived : tx.arrivalTime < 2 ^ 64) :
    (config.txExpirySecs * 1000 % 2 ^ 64 < (2 ^ 64 + now - tx.arrivalTime) % 2 ^ 64 ↔ Overdue config now tx) ↔
      AgeFits config now tx := by
  unfold Overdue AgeFits
  generalize config.txExpirySecs * 1000 = expiry
  split
  · next past =>
    have age : (2 ^ 64 + now - tx.arrivalTime) % 2 ^ 64 = now - tx.arrivalTime := by omega
    rw [age]
    omega
  · next ahead =>
    have age : (2 ^ 64 + now - tx.arrivalTime) % 2 ^ 64 = 2 ^ 64 - (tx.arrivalTime - now) := by omega
    rw [age]
    omega

theorem expiresExactly_iff (consistent : Consistent pool) (schedule : Schedule) (small : now < 2 ^ 64)
    (arrived : ∀ tx ∈ pool.pooled, tx.arrivalTime < 2 ^ 64) :
    ExpiresExactly schedule now pool ↔ ∀ tx ∈ pool.pooled, AgeFits pool.config now tx := by
  have linked := consistent.toLinked
  have tested : ∀ tx ∈ pool.pooled, (tx.id ∈ pool.expired now ↔ Overdue pool.config now tx) ↔
      AgeFits pool.config now tx := by
    intro tx member
    rw [mem_expired linked member]
    exact test_iff pool.config small (arrived tx member)
  constructor
  · intro exactly tx member
    refine (tested tx member).mp ?_
    have stays := exactly.left tx
    rw [mem_removeExpired linked, and_iff_right member, and_iff_right member] at stays
    exact not_iff_not.mp stays
  · intro fits
    have left : ∀ tx, tx ∈ (removeExpired schedule now pool.session).pool.pooled ↔
        tx ∈ pool.pooled ∧ ¬ Overdue pool.config now tx := by
      intro tx
      rw [mem_removeExpired linked]
      exact and_congr_right fun member => not_congr ((tested tx member).mpr (fits tx member))
    refine ⟨left, fun tx member ahead => (left tx).mpr ⟨member, ?_⟩, ?_⟩
    · unfold Overdue
      omega
    · have kept : Kept schedule fun s => Consistent s.pool :=
        kept_of_detach Consistent.toLinked detach_consistent fun consistent reweighed => reweighed.consistent consistent
      exact kept.removeExpired (s := pool.session) now consistent

/-- In every reachable pool exactly the overdue transactions are removed if and only if all ages fit. -/
theorem reachable_expiresExactly_iff (config : MempoolConfig) (actions : List (Schedule × Action))
    (distinct : DistinctOutputs (added actions)) :
    Always step (fun pool => ∀ schedule now, now < 2 ^ 64 → (∀ tx ∈ pool.pooled, tx.arrivalTime < 2 ^ 64) →
      (ExpiresExactly schedule now pool ↔ ∀ tx ∈ pool.pooled, AgeFits pool.config now tx)) (new config) actions := by
  intro pool visited schedule now small arrived
  exact expiresExactly_iff (reachable_consistent config actions distinct pool visited) schedule small arrived

section Samples
open Sample

theorem expiresExactly_later : ∃ pool, run step (new .default) (familyActions.take 1) = some pool ∧
    ExpiresExactly inOrder 2000 pool :=
  ⟨_, rfl, ((reachable_expiresExactly_iff .default familyActions (by decide) _
    ⟨familyActions.take 1, List.take_prefix _ _, rfl⟩ inOrder 2000 (by decide) (by decide)).mpr
      (by unfold AgeFits; decide))⟩

/-- The clock steps back by a millisecond: the transaction that has just come in is removed. -/
theorem future_arrival_removed : ¬ ∀ actions, DistinctOutputs (added actions) →
    Always step (fun pool => ∀ schedule now, now < 2 ^ 64 → (∀ tx ∈ pool.pooled, tx.arrivalTime < 2 ^ 64) →
      ExpiresExactly schedule now pool) (new .default) actions := by
  intro all
  have exactly := all familyActions (by decide) _ ⟨familyActions.take 1, List.take_prefix _ _, rfl⟩ inOrder 999
    (by decide) (by decide)
  exact absurd (exactly.future pooledParent (by decide) (by decide)) (by decide)

end Samples

end ErgoNode.Proof.Mempool

/-!
### Admission to a full mempool

The loops that evict run until the pool is within its limits; each round takes a transaction out, so they end.
An admission that is refused is refused before anything has changed.
-/

namespace ErgoNode.Proof.Mempool
open Lib ErgoNode.Mempool

/-- A run of the loop, to its end, that evicts while `exceeds` says so. -/
inductive Evicts (schedule : Schedule) (exceeds : Mempool → Bool) : Session → Session → Prop where
  | fits {s : Session} (within : exceeds s.pool = false) : Evicts schedule exceeds s s
  | again {s t u : Session} (more : exceeds s.pool = true) (evicted : evictLowestWeight schedule s = (.ok (), t))
      (rest : Evicts schedule exceeds t u) : Evicts schedule exceeds s u
  | failed {s t : Session} {e : MempoolError} (more : exceeds s.pool = true)
      (stops : evictLowestWeight schedule s = (.error e, t)) : Evicts schedule exceeds s t

variable {schedule : Schedule} {s : Session} {tx : PooledTransaction} {exceeds : Mempool → Bool}

theorem evictWhile_evicts (empty : ∀ pool, Linked pool → pool.pooled = [] → exceeds pool = false) (rounds : Nat)
    (linked : Linked s.pool) (enough : s.pool.transactions.entries.length ≤ rounds) :
    Evicts schedule exceeds s (evictWhile schedule exceeds rounds s) := by
  induction rounds generalizing s with
  | zero => exact .fits (exceeds_of_length_zero empty linked enough)
  | succ rounds ih =>
      cases more : exceeds s.pool with
      | false =>
          rw [evictWhile_of_fits more]
          exact .fits more
      | true =>
          obtain ⟨t, evicted, linked', fewer, next⟩ := @evictWhile_again schedule _ _ empty linked more
          rw [next]
          exact .again more evicted (ih linked' (by omega))

theorem evicts_tooMany (linked : Linked s.pool) :
    Evicts schedule tooMany s (evictWhile schedule tooMany s.pool.transactions.entries.length s) :=
  evictWhile_evicts (fun pool _ => tooMany_of_empty pool) _ linked le_rfl

theorem evicts_tooLarge (linked : Linked s.pool) :
    Evicts schedule tooLarge s (evictWhile schedule tooLarge s.pool.transactions.entries.length s) :=
  evictWhile_evicts tooLarge_of_empty _ linked le_rfl

theorem config_remove (linked : Linked s.pool) (txId : Bytes) :
    (remove schedule txId s).2.pool.config = s.pool.config := by
  cases found : s.pool.transactions.lookup txId with
  | none => rw [remove_of_unknown found]
  | some tx =>
      obtain ⟨wtx, weighed⟩ := linked.weighed found
      obtain ⟨gain, reweighed, -⟩ := @remove_scan schedule _ _ _ _ linked found weighed
      exact reweighed.config

theorem length_remove_le (linked : Linked s.pool) (txId : Bytes) :
    (remove schedule txId s).2.pool.transactions.entries.length ≤ s.pool.transactions.entries.length := by
  cases found : s.pool.transactions.lookup txId with
  | none => rw [remove_of_unknown found]
  | some tx => exact Nat.le_of_succ_le (length_remove linked found).le

theorem kept_few (config : MempoolConfig) :
    Kept schedule fun s => Linked s.pool ∧ s.pool.config = config ∧ s.pool.tooMany = false where
  scans := fun _ holds => holds
  remove := by
    intro s txId ⟨linked, same, few⟩
    have fewer := @length_remove_le schedule s linked txId
    refine ⟨kept_linked.remove txId linked, (config_remove linked txId).trans same, ?_⟩
    rw [tooMany, decide_eq_false_iff_not] at few ⊢
    rw [config_remove linked txId]
    omega

theorem kept_config (config : MempoolConfig) : Kept schedule fun s => Linked s.pool ∧ s.pool.config = config where
  scans := fun _ holds => holds
  remove := fun txId ⟨linked, same⟩ => ⟨kept_linked.remove txId linked, (config_remove linked txId).trans same⟩

/-- The pool is within its limits, and both loops have run to their end. -/
structure Admitted (schedule : Schedule) (config : MempoolConfig) (entered after : Session) : Prop where
  few : after.pool.transactions.entries.length ≤ config.maxTransactions
  small : after.pool.totalSize ≤ config.maxSize
  ended : ∃ middle, Evicts schedule tooMany entered middle ∧ Evicts schedule tooLarge middle after

theorem maybeEvict_admitted (linked : Linked s.pool) : Admitted schedule s.pool.config s (maybeEvict schedule s) := by
  have middle := (@kept_config schedule s.pool.config).evictWhile tooMany
    s.pool.transactions.entries.length ⟨linked, rfl⟩
  obtain ⟨-, same, many⟩ := (kept_few s.pool.config).evictWhile tooLarge _
    ⟨middle.1, middle.2, @tooMany_evictWhile schedule s linked⟩
  have large := @tooLarge_maybeEvict schedule s linked
  change (maybeEvict schedule s).pool.config = _ at same
  change (maybeEvict schedule s).pool.tooMany = _ at many
  rw [tooMany, decide_eq_false_iff_not, same] at many
  rw [tooLarge, decide_eq_false_iff_not, same] at large
  exact ⟨Nat.le_of_not_lt many, Nat.le_of_not_lt large, _, evicts_tooMany linked, evicts_tooLarge middle.1⟩

/-- In every reachable pool an admission ends within the limits, or leaves the pool as it was. -/
theorem add_admits_or_refuses (config : MempoolConfig) (actions : List (Schedule × Action)) :
    Always step (fun pool => ∀ schedule tx,
      ((add schedule tx pool.session).1 = .ok () →
        Admitted schedule pool.config (updateFamily schedule tx (weighted tx).weight (attached pool.session tx))
          (add schedule tx pool.session).2) ∧
      ∀ e, (add schedule tx pool.session).1 = .error e → (add schedule tx pool.session).2 = pool.session)
      (new config) actions := by
  intro pool visited schedule tx
  have linked := reachable_linked config actions pool visited
  cases checked : pool.session.pool.check tx with
  | error e =>
      rw [add_of_refused checked]
      exact ⟨nofun, fun _ _ => rfl⟩
  | ok _ =>
      rw [add_of_passed checked]
      refine ⟨fun _ => ?_, nofun⟩
      obtain ⟨gain, reweighed, -⟩ := @add_scan schedule pool.session tx linked (admissible_of_check checked)
      have entered := reweighed.linked (attach_linked linked (admissible_of_check checked))
      have admitted := @maybeEvict_admitted schedule _ entered
      rw [reweighed.config] at admitted
      exact admitted

section Samples
open Sample

def oneTransaction : MempoolConfig := { MempoolConfig.default with maxTransactions := 1 }

def holdsParent : Mempool := (add inOrder pooledParent (new oneTransaction).session).2.pool

/-- The pool is full: the child gets in, one of the two leaves, and the parent is refused once more. -/
theorem holdsParent_admits_refuses :
    Admitted inOrder oneTransaction
        (updateFamily inOrder pooledChild (weighted pooledChild).weight (attached holdsParent.session pooledChild))
        (add inOrder pooledChild holdsParent.session).2 ∧
      (add inOrder pooledParent holdsParent.session).1 = .error (.alreadyExists "02") ∧
      (add inOrder pooledParent holdsParent.session).2 = holdsParent.session := by
  have every := add_admits_or_refuses oneTransaction [(inOrder, .add pooledParent)] holdsParent
    ⟨_, List.prefix_rfl, rfl⟩ inOrder
  exact ⟨(every pooledChild).1 (by decide), by decide, (every pooledParent).2 _ rfl⟩

end Samples
end ErgoNode.Proof.Mempool
