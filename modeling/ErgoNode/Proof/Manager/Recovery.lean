import ErgoNode.Proof.Manager.Calls
import ErgoNode.Proof.Sample
import ErgoNode.State.Recovery

/-!
# Recovery on a sound store

The check at start-up leaves the store alone only where it finds an output of the first transaction of the
block that the height index names at the UTXO height.
-/

namespace ErgoNode.Proof.Manager
open Lib StateManager Utxo

variable {sr : SigmaRust} {st after : StateManager} {db : Database}

/-- The call succeeds and leaves the boxes and their height. -/
def RecoveryHarmless (sr : SigmaRust) (st : StateManager) : Prop :=
  ∃ after, (checkAndRecoverUtxoState sr).exec st = (.ok (), after) ∧
    boxes after.db.columns = boxes st.db.columns ∧ after.utxo.height = st.utxo.height

/-- The header that the index names at the height is stored with its transactions, and the first of these
has an output in the UTXO set, after outputs that are not. -/
def CoinbaseUnspent (sr : SigmaRust) (db : Database) (height : Nat) : Prop :=
  ∃ header blockTxs coinbase spent output others entry, HeaderStore.getByHeight sr db height = .ok (some header) ∧
    BlockStore.getTransactions sr db header.id = .ok (some blockTxs) ∧ blockTxs.txs.head? = some coinbase ∧
    coinbase.outputs = spent ++ output :: others ∧ (∀ box ∈ spent, UtxoState.getBox sr db box.boxId = .ok none) ∧
    UtxoState.getBox sr db output.boxId = .ok (some entry)

theorem foundAny_eq_true {outputs : List ErgoBox} : foundAny sr db outputs = .ok true ↔
    ∃ spent output others entry, outputs = spent ++ output :: others ∧
      (∀ box ∈ spent, UtxoState.getBox sr db box.boxId = .ok none) ∧
      UtxoState.getBox sr db output.boxId = .ok (some entry) := by
  induction outputs with
  | nil => simp [foundAny]
  | cons first rest ih =>
      rw [foundAny, Except.bind_ok_eq_ok]
      constructor
      · rintro ⟨found, read, done⟩
        cases found with
        | some entry => exact ⟨[], first, rest, entry, rfl, by simp, read⟩
        | none =>
            obtain ⟨spent, output, others, entry, rfl, absent, here⟩ := ih.mp done
            exact ⟨first :: spent, output, others, entry, rfl, List.forall_mem_cons.mpr ⟨read, absent⟩, here⟩
      · rintro ⟨spent, output, others, entry, split, absent, here⟩
        cases spent with
        | nil =>
            cases split
            exact ⟨some entry, here, rfl⟩
        | cons box spent =>
            cases split
            obtain ⟨read, absent⟩ := List.forall_mem_cons.mp absent
            exact ⟨none, read, ih.mpr ⟨spent, output, others, entry, rfl, absent, here⟩⟩

theorem checkHeight_eq_true {height : Nat} : checkHeight sr db height = .ok true ↔ CoinbaseUnspent sr db height := by
  rw [checkHeight, Except.bind_ok_eq_ok]
  constructor
  · rintro ⟨found, byHeight, done⟩
    cases found with
    | none => cases done
    | some header =>
        dsimp only at done
        rw [Except.bind_ok_eq_ok] at done
        obtain ⟨found, stored, done⟩ := done
        cases found with
        | none => cases done
        | some blockTxs =>
            dsimp only at done
            cases first : blockTxs.txs.head? with
            | none =>
                rw [first] at done
                cases done
            | some coinbase =>
                rw [first] at done
                obtain ⟨spent, output, others, entry, split, absent, here⟩ := foundAny_eq_true.mp done
                exact ⟨header, blockTxs, coinbase, spent, output, others, entry, byHeight, stored, first, split, absent, here⟩
  · rintro ⟨header, blockTxs, coinbase, spent, output, others, entry, byHeight, stored, first, split, absent, here⟩
    refine ⟨some header, byHeight, ?_⟩
    dsimp only
    rw [Except.bind_ok_eq_ok]
    refine ⟨some blockTxs, stored, ?_⟩
    dsimp only
    rw [first]
    exact foundAny_eq_true.mpr ⟨spent, output, others, entry, split, absent, here⟩

theorem lastGoodHeight_mem {heights : List Nat} {good : Nat} (found : lastGoodHeight sr db heights = .ok (some good)) :
    good ∈ heights ∧ good ≠ 0 ∧ checkHeight sr db good = .ok true := by
  induction heights with
  | nil => cases found
  | cons height rest ih =>
      rw [lastGoodHeight] at found
      split at found
      · obtain ⟨member, others⟩ := ih found
        exact ⟨List.mem_cons_of_mem _ member, others⟩
      · next positive =>
          rw [Except.bind_ok_eq_ok] at found
          obtain ⟨checked, here, found⟩ := found
          cases checked with
          | true =>
              cases found
              exact ⟨List.mem_cons_self, positive, here⟩
          | false =>
              obtain ⟨member, others⟩ := ih found
              exact ⟨List.mem_cons_of_mem _ member, others⟩

theorem mem_sampledHeights {good utxoHeight : Nat} (member : good ∈ sampledHeights utxoHeight) : good ≤ utxoHeight := by
  simp only [sampledHeights, List.mem_cons, List.not_mem_nil, or_false] at member
  omega

theorem rollback_moves {toHeight : Nat} (done : (onUtxo (UtxoState.rollback sr toHeight)).exec st = (.ok (), after)) :
    after.utxo.height ≠ st.utxo.height := by
  obtain ⟨low, utxo, -⟩ := rollbackTo_eq_ok done
  rw [utxo]
  exact Nat.ne_of_lt low

theorem checkAndRecover_of_unspent (positive : st.utxo.height ≠ 0) (unspent : CoinbaseUnspent sr st.db st.utxo.height) :
    (checkAndRecoverUtxoState sr).exec st = (.ok (), st) := by
  have good : lastGoodHeight sr st.db (sampledHeights st.utxo.height) = .ok (some st.utxo.height) := by
    rw [sampledHeights, lastGoodHeight, if_neg positive, checkHeight_eq_true.mpr unspent]
    rfl
  unfold checkAndRecoverUtxoState
  rw [Op.exec_bind_of_ok (Op.exec_get st), Op.exec_ite, if_neg positive, good,
    Op.exec_bind_of_ok (Op.exec_ofExcept _ st)]
  dsimp only
  rw [Op.exec_ite, if_neg (Nat.lt_irrefl _)]
  rfl

theorem unspent_of_kept (positive : st.utxo.height ≠ 0) (done : (checkAndRecoverUtxoState sr).exec st = (.ok (), after))
    (kept : after.utxo.height = st.utxo.height) : CoinbaseUnspent sr st.db st.utxo.height := by
  unfold checkAndRecoverUtxoState at done
  rw [Op.exec_bind_of_ok (Op.exec_get st), Op.exec_ite, if_neg positive] at done
  cases found : lastGoodHeight sr st.db (sampledHeights st.utxo.height) with
  | error error =>
      rw [found, Op.exec_bind_of_error (Op.exec_ofExcept _ st)] at done
      cases done
  | ok good =>
      rw [found, Op.exec_bind_of_ok (Op.exec_ofExcept _ st)] at done
      cases good with
      | none => exact absurd kept (rollback_moves done)
      | some goodHeight =>
          dsimp only at done
          rw [Op.exec_ite] at done
          split at done
          · exact absurd kept (rollback_moves done)
          · next high =>
              obtain ⟨member, -, checked⟩ := lastGoodHeight_mem found
              obtain rfl : goodHeight = st.utxo.height := Nat.le_antisymm (mem_sampledHeights member) (Nat.not_lt.mp high)
              exact checkHeight_eq_true.mp checked

/-- On any store the check at start-up is harmless exactly when there is no block, or the first transaction
of the block that the index names at the UTXO height has an output that is found unspent. -/
theorem recoveryHarmless_iff (sr : SigmaRust) (st : StateManager) :
    RecoveryHarmless sr st ↔ st.utxo.height = 0 ∨ CoinbaseUnspent sr st.db st.utxo.height := by
  constructor
  · rintro ⟨after, done, -, kept⟩
    by_cases none : st.utxo.height = 0
    · exact .inl none
    · exact .inr (unspent_of_kept none done kept)
  · intro condition
    by_cases none : st.utxo.height = 0
    · refine ⟨st, ?_, rfl, rfl⟩
      unfold checkAndRecoverUtxoState
      rw [Op.exec_bind_of_ok (Op.exec_get st), Op.exec_ite, if_pos none]
      rfl
    · exact ⟨st, checkAndRecover_of_unspent none (condition.resolve_left none), rfl, rfl⟩

section Samples
open Sample

def coinbaseTx (n : UInt8) : Transaction := ⟨.filled n, [], none, [sampleBox n]⟩

def coinbaseBlock (header : Header) (n : UInt8) : FullBlock :=
  ⟨header, ⟨header.id, [coinbaseTx n], 2⟩, Extension.empty header.id, none⟩

def coinbaseChange (height : Nat) (n : UInt8) : StateChange := ⟨[⟨sampleBox n, height, .filled n, 0⟩], []⟩

def coinbaseCodec : SigmaRust :=
  codec [sampleBox 1, sampleBox 2] [header11, header12, header22] [coinbaseTx 1, coinbaseTx 2]

def twoApplied : Op StateManager StateError ChainSelection := do
  let _ ← StateManager.applyBlock coinbaseCodec (coinbaseBlock header11 1) (coinbaseChange 1 1)
  StateManager.applyBlock coinbaseCodec (coinbaseBlock header12 2) (coinbaseChange 2 2)

example : RecoveryHarmless coinbaseCodec (loaded (twoApplied.exec (.new .empty)).2.db) :=
  ⟨_, Prod.ext rfl rfl, rfl, rfl⟩

def forkStored : Op StateManager StateError ChainSelection := do
  let _ ← twoApplied
  StateManager.applyHeader coinbaseCodec header22

/-- The index names the fork header, which has no transactions: the start rolls back to height 1. -/
theorem forkStored_rolledBack : (forkStored.exec (.new .empty)).1 = .ok .ignored ∧
    (loaded (forkStored.exec (.new .empty)).2.db).utxo.height = 2 ∧
    ¬ RecoveryHarmless coinbaseCodec (loaded (forkStored.exec (.new .empty)).2.db) := by
  refine ⟨rfl, rfl, ?_⟩
  rintro ⟨after, done, -, kept⟩
  have rolledBack : ((checkAndRecoverUtxoState coinbaseCodec).exec
      (loaded (forkStored.exec (.new .empty)).2.db)).2.utxo.height = 1 := rfl
  rw [done] at rolledBack
  exact absurd (kept.symm.trans rolledBack) (by decide)

end Samples

end ErgoNode.Proof.Manager
