import ErgoNode.Mining.Worker

/-!
# The solver against the verifier

A nonce is a solution for the solver exactly when the verifier accepts it, and the search takes the first
one of the batch.
-/

namespace ErgoNode.Proof.Mining
open AutolykosSolver

/-! ### One nonce -/

def solutionWith (minerPk : Bytes) (nonce : UInt64) : AutolykosSolution := ⟨minerPk, none, nonceBytes nonce, none⟩

section Nonce
variable {sr : SigmaRust} {headerBytes minerPk : Bytes} {target height : Nat}

def Accepted (sr : SigmaRust) (headerBytes : Bytes) (target height : Nat) (minerPk : Bytes) (nonce : UInt64) : Prop :=
  AutolykosV2.new.verifySolution sr headerBytes (solutionWith minerPk nonce) target height = .ok true

instance : DecidablePred (Accepted sr headerBytes target height minerPk) := fun _ =>
  inferInstanceAs (Decidable (_ = _))

theorem calculateFSum_eq (indices : List Nat) (msg pk : Bytes) :
    calculateFSum sr indices msg pk = AutolykosV2.calculateFSum sr indices msg pk := by
  have sums (sum : Nat) : addElements sr msg pk sum indices = indices.foldl
      (fun sum idx => sum + fromBytesBe (sr.blake2b256 (u32BytesBe idx ++ msg ++ pk)).bytes) sum := by
    induction indices generalizing sum with
    | nil => rfl
    | cons idx rest ih => exact ih _
  rw [calculateFSum, AutolykosV2.calculateFSum, sums]

theorem tryNonce_eq (nonce : UInt64) :
    new.tryNonce sr headerBytes (nonceBytes nonce) target (AutolykosV2.nForHeight height) minerPk =
      if Accepted sr headerBytes target height minerPk nonce then some (solutionWith minerPk nonce) else none := by
  have length : (nonceBytes nonce).length = 8 := Lib.BigEndian.length_write 8 nonce.toNat
  have accepted : Accepted sr headerBytes target height minerPk nonce ↔
      fromBytesBe (calculateHit sr (calculateFSum sr (new.generateIndices sr (calculateSeed sr
        (calculateMsg sr headerBytes (nonceBytes nonce)) minerPk) (AutolykosV2.nForHeight height))
          (calculateMsg sr headerBytes (nonceBytes nonce)) minerPk)) ≤ target := by
    unfold Accepted AutolykosV2.verifySolution solutionWith
    rw [if_neg (not_not.mpr length), calculateFSum_eq]
    rw [Except.ok.injEq, decide_eq_true_iff]
    rfl
  unfold tryNonce
  simp only [accepted]
  rfl

end Nonce

/-! ### A batch -/

section Batch
variable {attempt : UInt64 → Option AutolykosSolution} {startNonce hashCounter counted : UInt64} {left offset : Nat}
variable {solution : AutolykosSolution}

theorem searchBatch_eq_some : searchBatch attempt startNonce hashCounter left offset = (some solution, counted) ↔
    ∃ i, i < left ∧ attempt (startNonce + UInt64.ofNat (offset + i)) = some solution ∧
      (∀ j < i, attempt (startNonce + UInt64.ofNat (offset + j)) = none) ∧
      counted = hashCounter + UInt64.ofNat (offset + i + 1) := by
  induction left generalizing offset with
  | zero => simp [searchBatch]
  | succ left ih =>
      rw [searchBatch]
      cases tried : attempt (startNonce + UInt64.ofNat offset) with
      | some found =>
          constructor
          · rintro ⟨⟩
            exact ⟨0, Nat.zero_lt_succ left, tried, nofun, rfl⟩
          · rintro ⟨i, -, here, first, rfl⟩
            cases i with
            | zero =>
                cases tried.symm.trans here
                rfl
            | succ i => exact nomatch tried.symm.trans (first 0 (Nat.zero_lt_succ i))
      | none =>
          dsimp only
          rw [ih]
          constructor
          · rintro ⟨i, inside, here, first, rfl⟩
            refine ⟨i + 1, Nat.succ_lt_succ inside, ?_, fun j before => ?_, ?_⟩
            · rwa [← Nat.add_assoc, Nat.add_right_comm]
            · cases j with
              | zero => exact tried
              | succ j =>
                  have earlier := first j (Nat.lt_of_succ_lt_succ before)
                  rwa [Nat.add_right_comm, Nat.add_assoc] at earlier
            · rw [← Nat.add_assoc offset, Nat.add_right_comm offset]
          · rintro ⟨i, inside, here, first, rfl⟩
            cases i with
            | zero => exact nomatch tried.symm.trans here
            | succ i =>
                refine ⟨i, Nat.lt_of_succ_lt_succ inside, ?_, fun j before => ?_, ?_⟩
                · rwa [Nat.add_right_comm, Nat.add_assoc]
                · have earlier := first (j + 1) (Nat.succ_lt_succ before)
                  rwa [← Nat.add_assoc, Nat.add_right_comm] at earlier
                · rw [← Nat.add_assoc offset, Nat.add_right_comm offset]

theorem searchBatch_eq_none : searchBatch attempt startNonce hashCounter left offset = (none, counted) ↔
    (∀ i < left, attempt (startNonce + UInt64.ofNat (offset + i)) = none) ∧
      counted = hashCounter + UInt64.ofNat (offset + left) := by
  induction left generalizing offset with
  | zero => simp [searchBatch, eq_comm]
  | succ left ih =>
      rw [searchBatch, Nat.forall_lt_succ_left]
      cases tried : attempt (startNonce + UInt64.ofNat offset) with
      | some found => simp
      | none => simp [ih, Nat.add_right_comm, ← Nat.add_assoc]

end Batch

/-- The search takes the first nonce of the batch that the verifier accepts, fails exactly when it rejects
them all, and counts the nonces it has tried. -/
theorem trySolveBatch_spec (sr : SigmaRust) (headerBytes : Bytes) (nBits : UInt32) (height : Nat) (minerPk : Bytes)
    (startNonce batchSize hashCounter : UInt64) :
    (∀ solution counted,
      new.trySolveBatch sr headerBytes nBits height minerPk startNonce batchSize hashCounter =
          (some solution, counted) ↔
        ∃ i, i < batchSize.toNat ∧
          Accepted sr headerBytes (nbitsToTarget nBits) height minerPk (startNonce + UInt64.ofNat i) ∧
          (∀ j < i, ¬ Accepted sr headerBytes (nbitsToTarget nBits) height minerPk (startNonce + UInt64.ofNat j)) ∧
          solution = solutionWith minerPk (startNonce + UInt64.ofNat i) ∧
          counted = hashCounter + UInt64.ofNat (i + 1)) ∧
    (∀ counted,
      new.trySolveBatch sr headerBytes nBits height minerPk startNonce batchSize hashCounter = (none, counted) ↔
        (∀ i < batchSize.toNat,
          ¬ Accepted sr headerBytes (nbitsToTarget nBits) height minerPk (startNonce + UInt64.ofNat i)) ∧
          counted = hashCounter + batchSize) := by
  unfold trySolveBatch
  dsimp only
  simp only [tryNonce_eq]
  constructor
  · intro solution counted
    rw [searchBatch_eq_some]
    refine exists_congr fun i => and_congr_right fun _ => ?_
    simp only [Nat.zero_add, Option.ite_none_right_eq_some, Option.some.injEq, ite_eq_right_iff, reduceCtorEq, imp_false]
    constructor
    · rintro ⟨⟨accepted, rfl⟩, rejected, rfl⟩
      exact ⟨accepted, rejected, rfl, rfl⟩
    · rintro ⟨accepted, rejected, rfl, rfl⟩
      exact ⟨⟨accepted, rfl⟩, rejected, rfl⟩
  · intro counted
    rw [searchBatch_eq_none]
    simp

end ErgoNode.Proof.Mining
