import ErgoNode.Node.AddTransaction
import ErgoNode.Proof.Mempool.Consistent
import ErgoNode.Proof.Validation.Submitted

/-!
# Ids and bytes of unconfirmed transactions

The id that a peer claims for a transaction is never compared with the one its bytes have. Where the
claimed ids are true, every pooled transaction is stored under its own id, and only ids of transactions that
came in are noted.
-/

namespace ErgoNode.Proof.Mempool
open Lib ErgoNode.Mempool

/-! ### What is in the pool came in by an admission -/

section Pooled
variable {schedule : Schedule} {s : Session} {pool : Mempool} {P : PooledTransaction → Prop}

structure Holding (P : PooledTransaction → Prop) (pool : Mempool) : Prop extends Linked pool where
  each : ∀ tx ∈ pool.pooled, P tx

theorem Holding.detach {txId : Bytes} {tx : PooledTransaction} {wtx : WeightedTxId} (holding : Holding P pool)
    (found : pool.transactions.lookup txId = some tx) (weighed : pool.registry.lookup txId = some wtx) :
    Holding P (pool.detach txId tx (some wtx)) where
  toLinked := detach_linked holding.toLinked found weighed
  each := by
    intro other member
    obtain ⟨otherId, left⟩ := mem_pooled.mp member
    have left : (pool.transactions.erase txId).lookup otherId = some other := left
    have different : otherId ≠ txId := by
      rintro rfl
      rw [AList.lookup_erase] at left
      cases left
    rw [AList.lookup_erase_ne different] at left
    exact holding.each other (mem_pooled.mpr ⟨otherId, left⟩)

theorem Holding.attach {tx : PooledTransaction} (holding : Holding P pool) (admissible : Admissible pool tx)
    (new : P tx) : Holding P (pool.attach tx) where
  toLinked := attach_linked holding.toLinked admissible
  each := by
    intro other member
    obtain ⟨otherId, entered⟩ := mem_pooled.mp member
    rcases Entries.lookup_insert_iff.mp entered with ⟨-, rfl⟩ | ⟨-, old⟩
    · exact new
    · exact holding.each other (mem_pooled.mpr ⟨otherId, old⟩)

theorem Holding.reweigh {pool' : Mempool} {gain : Bytes → Int64} (holding : Holding P pool)
    (reweighed : Reweighed pool pool' gain) : Holding P pool' where
  toLinked := reweighed.linked holding.toLinked
  each := by
    rw [reweighed.pooled]
    exact holding.each

theorem kept_holding : Kept schedule fun s => Holding P s.pool :=
  kept_of_detach Holding.toLinked Holding.detach Holding.reweigh

theorem Holding.add {tx : PooledTransaction} (holding : Holding P s.pool)
    (new : s.pool.check tx = .ok () → P tx) : Holding P (Mempool.add schedule tx s).2.pool := by
  cases checked : s.pool.check tx with
  | error e =>
      rw [add_of_refused checked]
      exact holding
  | ok _ =>
      have admissible := admissible_of_check checked
      obtain ⟨gain, reweighed, -⟩ := @add_scan schedule _ _ holding.toLinked admissible
      rw [add_of_passed checked]
      exact kept_holding.maybeEvict ((holding.attach admissible (new checked)).reweigh reweighed)

end Pooled

/-! ### Claimed ids -/

section Claimed
variable (sr : SigmaRust)

def HasId (id data : Bytes) : Prop := ∃ tx, sr.parseTx data = .ok tx ∧ tx.id.bytes = id

def received (history : List TransactionRelay.Action) : List Bytes := history.filterMap fun
  | .receive _ data => some data
  | _ => none

@[simp] theorem received_append (first second : List TransactionRelay.Action) :
    received (first ++ second) = received first ++ received second := List.filterMap_append

abbrev RelayHistory := TransactionRelay × List TransactionRelay.Action

structure Identified (s : RelayHistory) : Prop where
  pooled : ∀ txId tx, s.1.mempool.transactions.lookup txId = some tx → HasId sr txId tx.bytes
  known : ∀ id ∈ s.1.knownTransactions, ∃ data ∈ received s.2, HasId sr id data

structure Passes (around : Surroundings) (pool : Mempool) (command : AddTransaction) (tx : Transaction) :
    Prop where
  parsed : sr.parseTx command.txData = .ok tx
  valid : Node.validateSubmitted sr around.db tx = .ok ()
  fits : pool.check (Node.pooledTransaction sr around command tx) = .ok ()

/-- An id that is received is that of bytes received by then, and what the handler lets in has the id
that was claimed for it. -/
def Truthful (s : RelayHistory) : TransactionRelay.Action → Prop
  | .receive id data => ∃ other ∈ received s.2 ++ [data], HasId sr id other
  | .handleCommand around _ => ∀ command ∈ s.1.commands.head?, ∀ tx,
      Passes sr around s.1.mempool command tx → tx.id.bytes = command.txId
  | .blocksApplied _ _ => True

variable {sr} {schedule : Schedule} {around : Surroundings} {relay : TransactionRelay} {command : AddTransaction}

theorem known_handleCommand :
    (relay.handleCommand sr around schedule command).knownTransactions = relay.knownTransactions := by
  unfold TransactionRelay.handleCommand
  split <;> rfl

theorem mempool_handleCommand : (relay.handleCommand sr around schedule command).mempool =
    (Node.addTransaction sr around schedule command relay.mempool.session).2.pool := by
  unfold TransactionRelay.handleCommand
  split <;> next handled => rw [handled]

theorem Holding.handleCommand {P : PooledTransaction → Prop} (holding : Holding P relay.mempool)
    (new : ∀ tx, Passes sr around relay.mempool command tx → P (Node.pooledTransaction sr around command tx)) :
    Holding P (relay.handleCommand sr around schedule command).mempool := by
  rw [mempool_handleCommand]
  unfold Node.addTransaction
  cases parsed : sr.parseTx command.txData with
  | error e => exact holding
  | ok tx =>
      cases valid : Node.validateSubmitted sr around.db tx with
      | error e =>
          simp only [Except.mapError, valid]
          exact holding
      | ok _ =>
          have added := @Holding.add schedule relay.mempool.session P
            (Node.pooledTransaction sr around command tx) holding fun fits => new tx ⟨parsed, valid, fits⟩
          simp only [Except.mapError, valid]
          split <;> next handled => rwa [handled] at added

/-- The pool and the noted ids after a step whose claimed id is true. -/
structure Sound (sr : SigmaRust) (s : RelayHistory) : Prop where
  pool : Holding (fun tx => HasId sr tx.id tx.bytes) s.1.mempool
  known : ∀ id ∈ s.1.knownTransactions, ∃ data ∈ received s.2, HasId sr id data

theorem Sound.step {s t : RelayHistory} {a : TransactionRelay.Action} (sound : Sound sr s)
    (truthful : Truthful sr s a) (taken : recorded (TransactionRelay.step sr) s a = some t) : Sound sr t := by
  obtain ⟨relay, stepped, rfl⟩ := recorded_eq_some taken
  have still : ∀ id ∈ s.1.knownTransactions, ∃ data ∈ received (s.2 ++ [a]), HasId sr id data := by
    intro id member
    obtain ⟨data, came, has⟩ := sound.known id member
    exact ⟨data, by simp [came], has⟩
  cases a with
  | receive id data =>
      cases stepped
      refine ⟨sound.pool, fun other member => ?_⟩
      rcases LruCache.mem_of_put member with rfl | old
      · rw [received_append]
        exact truthful
      · exact still other old
  | handleCommand around schedule =>
      cases queued : s.1.commands with
      | nil => simp [TransactionRelay.step, queued] at stepped
      | cons command commands =>
          simp only [TransactionRelay.step, queued, Option.some.injEq] at stepped
          subst stepped
          refine ⟨Holding.handleCommand sound.pool fun tx passes => ?_, ?_⟩
          · exact ⟨tx, passes.parsed, truthful command (by simp [queued]) tx passes⟩
          · rw [known_handleCommand]
            exact still
  | blocksApplied schedule blocks =>
      cases stepped
      exact ⟨kept_holding.removeConfirmed _ _ sound.pool, still⟩

theorem Sound.identified {s : RelayHistory} (sound : Sound sr s) : Identified sr s where
  pooled := by
    intro txId tx found
    have own := sound.pool.each tx (mem_pooled.mpr ⟨txId, found⟩)
    rwa [sound.pool.identified found] at own
  known := sound.known

theorem sound_start (config : MempoolConfig) : Sound sr (.new (new config), []) where
  pool := ⟨linked_new config, by simp [TransactionRelay.new, Mempool.new, pooled]⟩
  known := by
    intro id member
    cases member

theorem truthful_identified (config : MempoolConfig) {actions : List TransactionRelay.Action}
    (along : Along (recorded (TransactionRelay.step sr)) (Truthful sr) (.new (new config), []) actions) :
    Always (recorded (TransactionRelay.step sr)) (Identified sr) (.new (new config), []) actions := by
  have always := along.invariant (Sound sr) Sound.step (sound_start config)
  exact fun s visited => (always s visited).identified

end Claimed

/-! ### A true and a false id -/

section Runs
open Validation Sample

def relayStart : RelayHistory := (.new (new .default), [])

def relayActions (claimed : UInt8) : List TransactionRelay.Action :=
  [.receive (List.replicate 32 claimed) [], .handleCommand relaySurroundings inOrder,
    .blocksApplied inOrder [(spendBlock header31 (spendTx 1 4), ⟨[], [.filled 1]⟩)]]

theorem hasId_spendTx : HasId relayCodec (List.replicate 32 1) [] := ⟨spendTx 1 4, rfl, rfl⟩

theorem relayActions_truthful :
    Along (recorded (TransactionRelay.step relayCodec)) (Truthful relayCodec) relayStart (relayActions 1) := by
  refine along_cons.mpr ⟨⟨[], by simp, hasId_spendTx⟩, fun s received => ?_⟩
  refine along_cons.mpr ⟨?_, fun s handled => along_cons.mpr ⟨trivial, fun _ _ => along_nil⟩⟩
  cases received
  intro command queued tx passes
  cases queued
  obtain ⟨other, parsed, same⟩ := hasId_spendTx
  cases parsed.symm.trans passes.parsed
  exact same

theorem relayActions_identified : ∃ s, run (recorded (TransactionRelay.step relayCodec)) relayStart
    ((relayActions 1).take 2) = some s ∧ s.1.mempool.pooled ≠ [] ∧ Identified relayCodec s := by
  refine ⟨_, rfl, by decide, ?_⟩
  exact truthful_identified .default relayActions_truthful _ ⟨(relayActions 1).take 2, List.take_prefix _ _, rfl⟩

/-- Claimed to be another transaction, it is pooled and announced as that one, which is not asked for
any more. -/
theorem falseClaim_pooled : (∃ s, run (recorded (TransactionRelay.step relayCodec)) relayStart
      ((relayActions 2).take 2) = some s ∧
      (s.1.mempool.transactions.lookup (List.replicate 32 2)).map PooledTransaction.bytes = some [] ∧
      s.1.announced = [.inv ⟨2, [List.replicate 32 2]⟩] ∧
      s.1.unknownTransactions [List.replicate 32 2] = []) ∧
    ¬ ∀ actions, Always (recorded (TransactionRelay.step relayCodec)) (Identified relayCodec) relayStart actions := by
  refine ⟨⟨_, rfl, by decide, rfl, by decide⟩, fun all => ?_⟩
  have identified := all ((relayActions 2).take 2) _ ⟨_, List.prefix_refl _, rfl⟩
  have claimed : (List.replicate 32 2 : Bytes) ∈
      (relayStart.1.onTransactionReceived (List.replicate 32 2) []).knownTransactions := by decide
  obtain ⟨data, came, tx, parsed, same⟩ := identified.known _ claimed
  have only : data = [] := by simpa [relayActions, relayStart, received] using came
  subst only
  cases parsed
  exact absurd same (by decide)

end Runs

end ErgoNode.Proof.Mempool
