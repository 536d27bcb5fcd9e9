import ErgoNode.Proof.Validation.Sequential
import Mathlib.Data.List.Infix

/-!
# The cost limit of a transaction

A transaction's cost is the base cost and what its scripts cost, up to the first script that fails. The
verifier compares it with a fixed limit after every script; the block's own limit, which is voted on, comes
afterwards. Both layers together enforce the voted limit just where the fixed one does not come first.
-/

namespace ErgoNode.Proof.Validation
open Lib FullBlockValidator

/-! ### The loop over the inputs -/

inductive InputOutcome where
  | rent
  | failed
  | met (cost : Nat)
  | unmet (cost : Nat)

def InputOutcome.accepted : InputOutcome → Bool
  | .rent | .met _ => true
  | .failed | .unmet _ => false

def charged : List InputOutcome → List Nat
  | [] => []
  | .rent :: rest => charged rest
  | .failed :: _ => []
  | .met cost :: rest => cost :: charged rest
  | .unmet cost :: _ => [cost]

inductive LoopEnd where
  | passed (scriptCost : Nat)
  | overLimit
  | refused

/-- The fixed limit, with sums as the code takes them. -/
def Exceeds (baseCost scriptCost : Nat) : Prop :=
  CostConstants.maxTxCost < saturatingAdd baseCost (u64 scriptCost)

instance (baseCost scriptCost : Nat) : Decidable (Exceeds baseCost scriptCost) := inferInstanceAs (Decidable (_ < _))

def costLoop (baseCost : Nat) : Nat → List InputOutcome → LoopEnd
  | scriptCost, [] => .passed scriptCost
  | scriptCost, .rent :: rest => costLoop baseCost scriptCost rest
  | _, .failed :: _ => .refused
  | scriptCost, .met cost :: rest =>
      if Exceeds baseCost (scriptCost + cost) then .overLimit
      else costLoop baseCost (u64 (scriptCost + cost)) rest
  | scriptCost, .unmet cost :: _ => if Exceeds baseCost (scriptCost + cost) then .overLimit else .refused

def LoopEnd.andThen (loopEnd : LoopEnd) (later : Nat → LoopEnd) : LoopEnd :=
  match loopEnd with
  | .passed scriptCost => later scriptCost
  | .overLimit => .overLimit
  | .refused => .refused

section Loop
variable {baseCost scriptCost total : Nat} {outcomes : List InputOutcome}

theorem exceeds_iff {cost : Nat} (fits : baseCost + cost < 2 ^ 64) :
    Exceeds baseCost cost ↔ CostConstants.maxTxCost < baseCost + cost := by
  unfold Exceeds saturatingAdd u64
  omega

theorem exceeds_u64_add {cost : Nat} :
    Exceeds baseCost (u64 scriptCost + cost) ↔ Exceeds baseCost (scriptCost + cost) := by
  unfold Exceeds u64
  rw [Nat.mod_add_mod]

theorem costLoop_cons (outcome : InputOutcome) (rest : List InputOutcome) :
    costLoop baseCost scriptCost (outcome :: rest) =
      (costLoop baseCost scriptCost [outcome]).andThen fun scriptCost => costLoop baseCost scriptCost rest := by
  cases outcome with
  | rent => rfl
  | failed => rfl
  | met cost =>
      simp only [costLoop]
      split <;> rfl
  | unmet cost =>
      simp only [costLoop]
      split <;> rfl

/-- Where nothing wraps around, the limit is exceeded at some script when it is by the whole cost. -/
theorem costLoop_overLimit_iff (fits : baseCost + scriptCost + (charged outcomes).sum < 2 ^ 64) :
    costLoop baseCost scriptCost outcomes = .overLimit ↔
      charged outcomes ≠ [] ∧ CostConstants.maxTxCost < baseCost + scriptCost + (charged outcomes).sum := by
  induction outcomes generalizing scriptCost with
  | nil => simp [costLoop, charged]
  | cons outcome rest ih =>
      cases outcome with
      | rent => exact ih fits
      | failed => simp [costLoop, charged]
      | unmet cost =>
          simp only [charged, List.sum_singleton, Nat.add_assoc] at fits
          simp only [costLoop, charged, List.sum_singleton, exceeds_iff fits, Nat.add_assoc]
          split
          · next beyond => simpa using beyond
          · next within => simpa using within
      | met cost =>
          simp only [charged, List.sum_cons] at fits
          have small : baseCost + (scriptCost + cost) < 2 ^ 64 := by omega
          have whole : u64 (scriptCost + cost) = scriptCost + cost := Nat.mod_eq_of_lt (by omega)
          simp only [costLoop, charged, List.sum_cons, exceeds_iff small]
          split
          · next beyond =>
              refine iff_of_true rfl ⟨List.cons_ne_nil _ _, ?_⟩
              omega
          · next within =>
              have same : baseCost + scriptCost + (cost + (charged rest).sum) =
                  baseCost + (scriptCost + cost) + (charged rest).sum := by omega
              rw [whole, same, ih (by omega)]
              refine and_congr_left fun exceeds => iff_of_true (fun none => ?_) (List.cons_ne_nil _ _)
              rw [none, List.sum_nil] at exceeds
              exact within exceeds

theorem costLoop_passed (below : scriptCost < 2 ^ 64)
    (passed : costLoop baseCost scriptCost outcomes = .passed total) :
    total = u64 (scriptCost + (charged outcomes).sum) := by
  induction outcomes generalizing scriptCost with
  | nil =>
      cases passed
      exact (Nat.mod_eq_of_lt below).symm
  | cons outcome rest ih =>
      cases outcome with
      | rent => exact ih below passed
      | failed => cases passed
      | unmet cost =>
          simp only [costLoop] at passed
          split at passed <;> cases passed
      | met cost =>
          simp only [costLoop] at passed
          split at passed
          · cases passed
          · rw [ih (Nat.mod_lt _ (Nat.two_pow_pos 64)) passed, charged, List.sum_cons, ← Nat.add_assoc]
            exact Nat.mod_add_mod ..

def Within (baseCost scriptCost : Nat) (costs : List Nat) : Prop :=
  ∀ front, front <+: costs → front ≠ [] → ¬ Exceeds baseCost (scriptCost + front.sum)

theorem within_cons {cost : Nat} {costs : List Nat} : Within baseCost scriptCost (cost :: costs) ↔
    ¬ Exceeds baseCost (scriptCost + cost) ∧ Within baseCost (u64 (scriptCost + cost)) costs := by
  have later (front : List Nat) : Exceeds baseCost (u64 (scriptCost + cost) + front.sum) ↔
      Exceeds baseCost (scriptCost + (cost :: front).sum) := by
    rw [exceeds_u64_add, List.sum_cons, Nat.add_assoc]
  constructor
  · refine fun within => ⟨?_, fun front prefixed _ => ?_⟩
    · have first := within [cost] (List.prefix_append [cost] costs) (List.cons_ne_nil _ _)
      rwa [List.sum_singleton] at first
    · rw [later]
      exact within (cost :: front) (List.cons_prefix_cons.mpr ⟨rfl, prefixed⟩) (List.cons_ne_nil _ _)
  · rintro ⟨first, within⟩ front prefixed nonempty
    cases front with
    | nil => exact absurd rfl nonempty
    | cons head front =>
        obtain ⟨rfl, shorter⟩ := List.cons_prefix_cons.mp prefixed
        by_cases empty : front = []
        · rwa [empty, List.sum_singleton]
        · rw [← later]
          exact within front shorter empty

theorem exists_costLoop_passed : (∃ total, costLoop baseCost scriptCost outcomes = .passed total) ↔
    (∀ outcome ∈ outcomes, outcome.accepted) ∧ Within baseCost scriptCost (charged outcomes) := by
  induction outcomes generalizing scriptCost with
  | nil => simp [costLoop, charged, Within]
  | cons outcome rest ih =>
      rw [List.forall_mem_cons]
      cases outcome with
      | rent => simpa [InputOutcome.accepted, costLoop, charged] using ih
      | failed => simp [costLoop, InputOutcome.accepted]
      | unmet cost =>
          simp only [costLoop]
          split <;> simp [InputOutcome.accepted]
      | met cost =>
          simp only [costLoop, charged, within_cons]
          split
          · next beyond => simp [beyond]
          · next within => simp [ih, within, InputOutcome.accepted]

end Loop

/-! ### The verifier -/

section Verifier
variable (sr : SigmaRust) (interpreter : Interpreter) (verifier : TxVerifier)

def outcomeOf (tx : Transaction) (inputBoxes : List ErgoBox) (dataInputs : Option (List ErgoBox))
    (entry : (Input × ErgoBox) × Nat) : InputOutcome :=
  let ((input, inputBox), _) := entry
  match interpreter.bytesToSign tx with
  | .error _ => .failed
  | .ok message =>
      if input.proof = [] ∧
          checkStorageRentConditions sr interpreter inputBox input.extension tx.outputs verifier.height then .rent
      else match interpreter.verify inputBox.ergoTree (verifier.context tx inputBoxes dataInputs input inputBox)
          input.proof message with
        | .error _ => .failed
        | .ok ⟨holds, cost, _⟩ => if holds then .met cost else .unmet cost

def IsCostText (text : String) : Prop := "Transaction cost ".toList <+: text.toList

theorem IsCostText.append {text : String} (cost : IsCostText text) (more : String) : IsCostText (text ++ more) := by
  rw [IsCostText, String.toList_append]
  exact List.IsPrefix.trans cost (List.prefix_append _ _)

theorem head?_append {text : String} {first : Char} (starts : text.toList.head? = some first) (more : String) :
    (text ++ more).toList.head? = some first := by
  rw [String.toList_append, List.head?_append, starts]
  rfl

theorem not_isCostText {text : String} {first : Char} (starts : text.toList.head? = some first)
    (other : first ≠ 'T') : ¬ IsCostText text := by
  rintro ⟨rest, same⟩
  rw [← same] at starts
  exact other (Option.some.inj starts).symm

inductive Ends : Except TxVerificationResult Nat → LoopEnd → Prop where
  | passed {scriptCost : Nat} : Ends (.ok scriptCost) (.passed scriptCost)
  | overLimit {scriptCost totalCost : Nat} {text : String} (cost : IsCostText text) :
      Ends (.error (TxVerifier.rejected scriptCost totalCost text)) .overLimit
  | refused {scriptCost totalCost : Nat} {text : String} (other : ¬ IsCostText text) :
      Ends (.error (TxVerifier.rejected scriptCost totalCost text)) .refused

theorem Ends.bind {x : Except TxVerificationResult Nat} {loopEnd : LoopEnd}
    {f : Nat → Except TxVerificationResult Nat} {g : Nat → LoopEnd} (first : Ends x loopEnd)
    (later : ∀ scriptCost, Ends (f scriptCost) (g scriptCost)) : Ends (x >>= f) (loopEnd.andThen g) := by
  cases first with
  | passed => exact later _
  | overLimit cost => exact .overLimit cost
  | refused other => exact .refused other

variable {tx : Transaction} {inputBoxes dataInputBoxes : List ErgoBox} {dataInputs : Option (List ErgoBox)}
variable {baseCost scriptCost : Nat}

theorem ends_verifyInput (entry : (Input × ErgoBox) × Nat) :
    Ends (verifier.verifyInput sr interpreter tx inputBoxes dataInputs baseCost scriptCost entry)
      (costLoop baseCost scriptCost [outcomeOf sr interpreter verifier tx inputBoxes dataInputs entry]) := by
  obtain ⟨⟨input, inputBox⟩, idx⟩ := entry
  unfold outcomeOf TxVerifier.verifyInput
  dsimp only
  cases interpreter.bytesToSign tx with
  | error e =>
      have starts : "Failed to get bytes to sign: ".toList.head? = some 'F' := by decide
      exact .refused (not_isCostText (head?_append starts _) (by decide))
  | ok message =>
      rw [Except.mapError, Except.ok_bind]
      dsimp only
      split
      · exact .passed
      · cases interpreter.verify inputBox.ergoTree
          (verifier.context tx inputBoxes dataInputs input inputBox) input.proof message with
        | error e =>
            have starts : "Script error for input ".toList.head? = some 'S' := by decide
            exact .refused (not_isCostText (head?_append (head?_append (head?_append starts _) _) _) (by decide))
        | ok result =>
            obtain ⟨holds, cost, expr⟩ := result
            rw [Except.mapError, Except.ok_bind]
            dsimp only
            by_cases exceeds : Exceeds baseCost (scriptCost + cost)
            · rw [if_pos (show _ > _ from exceeds)]
              have text : IsCostText "Transaction cost " := List.prefix_refl _
              cases holds <;>
                · simp only [if_true, if_false, Bool.false_eq_true, costLoop, if_pos exceeds]
                  exact .overLimit (((text.append _).append _).append _)
            · rw [if_neg (show ¬ _ > _ from exceeds)]
              cases holds with
              | true =>
                  simp only [if_true, costLoop, if_neg exceeds]
                  exact .passed
              | false =>
                  have starts : "Script verification failed for input ".toList.head? = some 'S' := by decide
                  simp only [if_false, Bool.false_eq_true, costLoop, if_neg exceeds]
                  exact .refused (not_isCostText (head?_append (head?_append (head?_append starts _) _) _) (by decide))

theorem ends_foldlM (entries : List ((Input × ErgoBox) × Nat)) :
    Ends (entries.foldlM (verifier.verifyInput sr interpreter tx inputBoxes dataInputs baseCost) scriptCost)
      (costLoop baseCost scriptCost
        (entries.map (outcomeOf sr interpreter verifier tx inputBoxes dataInputs))) := by
  induction entries generalizing scriptCost with
  | nil => exact .passed
  | cons entry rest ih =>
      rw [List.foldlM_cons, List.map_cons, costLoop_cons]
      exact (ends_verifyInput sr interpreter verifier entry).bind fun _ => ih

def misfits (inputBoxes dataInputBoxes : List ErgoBox) : Bool :=
  dataInputBoxes ≠ [] ∧ !TxVerifier.fitsTxIo interpreter dataInputBoxes ∨ !TxVerifier.fitsTxIo interpreter inputBoxes

def outcomes (tx : Transaction) (inputBoxes dataInputBoxes : List ErgoBox) : List InputOutcome :=
  if misfits interpreter inputBoxes dataInputBoxes then [.failed]
  else (tx.inputs.zip inputBoxes).zipIdx.map (outcomeOf sr interpreter verifier tx inputBoxes
    (if dataInputBoxes = [] then none else some dataInputBoxes))

def baseCostOf (tx : Transaction) : Nat :=
  calculateBaseCost tx.inputs.length tx.outputs.length ((tx.dataInputs.map List.length).getD 0)
    (((sr.txBytes tx).toOption.map List.length).getD 0)

inductive Verdict (baseCost : Nat) : TxVerificationResult → LoopEnd → Prop where
  | passed {scriptCost : Nat} :
      Verdict baseCost ⟨true, scriptCost, saturatingAdd baseCost scriptCost, none⟩ (.passed scriptCost)
  | overLimit {scriptCost totalCost : Nat} {text : String} (cost : IsCostText text) :
      Verdict baseCost (TxVerifier.rejected scriptCost totalCost text) .overLimit
  | refused {scriptCost totalCost : Nat} {text : String} (other : ¬ IsCostText text) :
      Verdict baseCost (TxVerifier.rejected scriptCost totalCost text) .refused

theorem verdict_verifyTx : Verdict (baseCostOf sr tx)
    (verifier.verifyTx sr interpreter tx inputBoxes dataInputBoxes)
    (costLoop (baseCostOf sr tx) 0 (outcomes sr interpreter verifier tx inputBoxes dataInputBoxes)) := by
  unfold TxVerifier.verifyTx outcomes misfits
  dsimp only
  split
  · next misfit =>
      rw [if_pos (decide_eq_true (.inl misfit))]
      exact .refused (@not_isCostText _ 'I' (by decide) (by decide))
  · next dataFit =>
      split
      · next misfit =>
          rw [if_pos (decide_eq_true (.inr misfit))]
          exact .refused (@not_isCostText _ 'I' (by decide) (by decide))
      · next fit =>
          rw [if_neg (mt of_decide_eq_true (not_or.mpr ⟨dataFit, fit⟩))]
          have ends := @ends_foldlM sr interpreter verifier tx inputBoxes
            (if dataInputBoxes = [] then none else some dataInputBoxes) (baseCostOf sr tx) 0
            (tx.inputs.zip inputBoxes).zipIdx
          unfold baseCostOf at ends ⊢
          generalize costLoop _ 0 _ = loopEnd at ends ⊢
          split
          · next result ran =>
              rw [ran] at ends
              cases ends with
              | overLimit cost => exact .overLimit cost
              | refused other => exact .refused other
          · next scriptCost ran =>
              rw [ran] at ends
              cases ends
              exact .passed

end Verifier

/-! ### The block -/

def CostError : ConsensusError → Prop
  | .transactionCostExceeded .. => True
  | .blockCostExceeded .. => True
  | .scriptVerificationFailed _ text => IsCostText text
  | _ => False

structure ScriptCall where
  acc : TxLoop
  tx : Transaction
  inputBoxes : List ErgoBox
  dataInputBoxes : List ErgoBox

section Calls
variable (sr : SigmaRust) (interpreter : Interpreter) (validator : FullBlockValidator) (verifier : TxVerifier)

namespace ScriptCall
variable (call : ScriptCall)

def verify : ConsensusResult Nat :=
  verifyScripts sr interpreter validator verifier call.tx call.inputBoxes call.dataInputBoxes call.acc.totalCost

def verified : TxVerificationResult :=
  verifier.verifyTx sr interpreter call.tx call.inputBoxes call.dataInputBoxes

def outcomes : List InputOutcome :=
  Validation.outcomes sr interpreter verifier call.tx call.inputBoxes call.dataInputBoxes

def cost : Nat := baseCostOf sr call.tx + (charged (call.outcomes sr interpreter verifier)).sum

/-- The transaction or the block so far costs more than was voted. -/
def Exceeding : Prop :=
  validator.parameters.maxBlockCost < call.cost sr interpreter verifier ∨
    validator.parameters.maxBlockCost < call.acc.totalCost + call.cost sr interpreter verifier

/-- Only the voted limit rejects, and the cost is counted in full. -/
structure Fair : Prop where
  limit : ∀ e, call.verify sr interpreter validator verifier = .error e → CostError e →
    call.Exceeding sr interpreter validator verifier
  counted : (call.verified sr interpreter verifier).valid →
    (call.verified sr interpreter verifier).totalCost = call.cost sr interpreter verifier

/-- Costs above the fixed limit are above the voted one as well, and none are so large that their sum wraps around
below the fixed limit. -/
structure FixedLimitIdle : Prop where
  limit : charged (call.outcomes sr interpreter verifier) ≠ [] →
    CostConstants.maxTxCost < call.cost sr interpreter verifier → call.Exceeding sr interpreter validator verifier
  small : (∀ outcome ∈ call.outcomes sr interpreter verifier, outcome.accepted) →
    Within (baseCostOf sr call.tx) 0 (charged (call.outcomes sr interpreter verifier)) →
    call.cost sr interpreter verifier < 2 ^ 64

variable {call}

theorem saturatingAdd_le (a b : Nat) : saturatingAdd a b ≤ a + b := Nat.min_le_left ..

def loopEnd : LoopEnd := costLoop (baseCostOf sr call.tx) 0 (call.outcomes sr interpreter verifier)

theorem verdict : Verdict (baseCostOf sr call.tx) (call.verified sr interpreter verifier)
    (call.loopEnd sr interpreter verifier) :=
  verdict_verifyTx sr interpreter verifier

theorem totalCost_le {scriptCost : Nat} (passed : call.loopEnd sr interpreter verifier = .passed scriptCost) :
    saturatingAdd (baseCostOf sr call.tx) scriptCost ≤ call.cost sr interpreter verifier := by
  have sum := costLoop_passed (Nat.two_pow_pos 64) passed
  rw [Nat.zero_add] at sum
  refine (saturatingAdd_le _ _).trans (Nat.add_le_add_left ?_ _)
  rw [sum]
  exact Nat.mod_le ..

/-- The voted limit is judged rightly, so only the fixed one can reject too early. -/
theorem overLimit_of_costError {e : ConsensusError} (failed : call.verify sr interpreter validator verifier = .error e)
    (cost : CostError e) : call.loopEnd sr interpreter verifier = .overLimit ∨
      call.Exceeding sr interpreter validator verifier := by
  have verdict := call.verdict sr interpreter verifier
  unfold verify verifyScripts at failed
  rw [← verified] at failed
  generalize result : call.verified sr interpreter verifier = verified at failed verdict
  generalize ended : call.loopEnd sr interpreter verifier = loopEnd at verdict
  cases verdict with
  | overLimit => exact .inl rfl
  | refused other =>
      cases failed
      exact absurd cost other
  | @passed scriptCost =>
      have bound := totalCost_le sr interpreter verifier ended
      refine .inr ?_
      unfold Exceeding
      dsimp only at failed
      split at failed
      · next invalid => cases invalid
      · split at failed
        · next beyond => exact .inl (Nat.lt_of_lt_of_le beyond bound)
        · split at failed
          · next beyond =>
              have sum := saturatingAdd_le call.acc.totalCost (saturatingAdd (baseCostOf sr call.tx) scriptCost)
              exact .inr (Nat.lt_of_lt_of_le beyond (sum.trans (Nat.add_le_add_left bound _)))
          · cases failed

theorem exists_costError (beyond : call.loopEnd sr interpreter verifier = .overLimit) :
    ∃ e, call.verify sr interpreter validator verifier = .error e ∧ CostError e := by
  have verdict := call.verdict sr interpreter verifier
  rw [beyond] at verdict
  unfold verify verifyScripts
  rw [← verified]
  generalize call.verified sr interpreter verifier = verified at verdict ⊢
  cases verdict with
  | overLimit cost => exact ⟨_, rfl, cost⟩

theorem loopEnd_overLimit_iff (fits : call.cost sr interpreter verifier < 2 ^ 64) :
    call.loopEnd sr interpreter verifier = .overLimit ↔ charged (call.outcomes sr interpreter verifier) ≠ [] ∧
      CostConstants.maxTxCost < call.cost sr interpreter verifier := by
  have iff := @costLoop_overLimit_iff (baseCostOf sr call.tx) 0 (call.outcomes sr interpreter verifier)
  rw [Nat.add_zero] at iff
  exact iff fits

theorem exceeding_of_large (u64 : validator.parameters.maxBlockCost < 2 ^ 64)
    (large : ¬ call.cost sr interpreter verifier < 2 ^ 64) : call.Exceeding sr interpreter validator verifier :=
  .inl (Nat.lt_of_lt_of_le u64 (Nat.le_of_not_lt large))

theorem valid_iff : (call.verified sr interpreter verifier).valid ↔
    ∃ scriptCost, call.loopEnd sr interpreter verifier = .passed scriptCost := by
  have verdict := call.verdict sr interpreter verifier
  generalize call.verified sr interpreter verifier = verified at verdict ⊢
  generalize call.loopEnd sr interpreter verifier = loopEnd at verdict ⊢
  cases verdict <;> simp [TxVerifier.rejected]

theorem totalCost_eq {scriptCost : Nat} (passed : call.loopEnd sr interpreter verifier = .passed scriptCost) :
    (call.verified sr interpreter verifier).totalCost = saturatingAdd (baseCostOf sr call.tx) scriptCost := by
  have verdict := call.verdict sr interpreter verifier
  rw [passed] at verdict
  generalize call.verified sr interpreter verifier = verified at verdict ⊢
  cases verdict
  rfl

theorem totalCost_eq_iff {scriptCost : Nat} (passed : call.loopEnd sr interpreter verifier = .passed scriptCost) :
    (call.verified sr interpreter verifier).totalCost = call.cost sr interpreter verifier ↔
      call.cost sr interpreter verifier < 2 ^ 64 := by
  have sum := costLoop_passed (Nat.two_pow_pos 64) passed
  rw [Nat.zero_add] at sum
  rw [totalCost_eq sr interpreter verifier passed, sum]
  unfold cost saturatingAdd u64
  omega

theorem fair_iff (u64 : validator.parameters.maxBlockCost < 2 ^ 64) :
    call.Fair sr interpreter validator verifier ↔ call.FixedLimitIdle sr interpreter validator verifier := by
  constructor
  · intro fair
    constructor
    · intro scripts beyond
      by_cases fits : call.cost sr interpreter verifier < 2 ^ 64
      · have ended := (loopEnd_overLimit_iff sr interpreter verifier fits).mpr ⟨scripts, beyond⟩
        obtain ⟨e, failed, cost⟩ := exists_costError sr interpreter validator verifier ended
        exact fair.limit e failed cost
      · exact exceeding_of_large sr interpreter validator verifier u64 fits
    · intro accepted within
      obtain ⟨scriptCost, passed⟩ := exists_costLoop_passed.mpr ⟨accepted, within⟩
      rw [← totalCost_eq_iff sr interpreter verifier passed]
      exact fair.counted ((valid_iff sr interpreter verifier).mpr ⟨scriptCost, passed⟩)
  · intro idle
    constructor
    · intro e failed cost
      rcases overLimit_of_costError sr interpreter validator verifier failed cost with ended | exceeding
      · by_cases fits : call.cost sr interpreter verifier < 2 ^ 64
        · obtain ⟨scripts, beyond⟩ := (loopEnd_overLimit_iff sr interpreter verifier fits).mp ended
          exact idle.limit scripts beyond
        · exact exceeding_of_large sr interpreter validator verifier u64 fits
      · exact exceeding
    · intro valid
      obtain ⟨scriptCost, passed⟩ := (valid_iff sr interpreter verifier).mp valid
      obtain ⟨accepted, within⟩ := exists_costLoop_passed.mp ⟨scriptCost, passed⟩
      exact (totalCost_eq_iff sr interpreter verifier passed).mpr (idle.small accepted within)

end ScriptCall
end Calls

section Blocks
variable (sr : SigmaRust) (interpreter : Interpreter) (validator : FullBlockValidator)
variable (blockTxs : BlockTransactions) (height : Nat) (preHeader : Header) (lastHeaders : List Header)
variable (utxoLookup : BoxId → Option ErgoBox)

structure Made (call : ScriptCall) : Prop where
  full : validator.skipScriptVerification = false
  above : validator.isBelowCheckpoint height = false
  reached : ∃ front idx back, blockTxs.txs.zipIdx = front ++ (call.tx, idx) :: back ∧ idx ≠ 0 ∧
    front.foldlM (validator.validateTransaction sr interpreter ⟨height, preHeader, lastHeaders⟩
      (validator.isBelowCheckpoint height) utxoLookup) TxLoop.start = .ok call.acc
  distinct : checkDoubleSpend [] (call.tx.inputs.map Input.boxId) = .ok ()
  unspent : checkSpentInBlock call.acc.spentInBlock call.tx = .ok ()
  inputs : collectInputBoxes call.tx utxoLookup call.acc.createdInBlock = .ok call.inputBoxes
  dataInputs : collectDataInputBoxes call.tx utxoLookup call.acc.createdInBlock = .ok call.dataInputBoxes
  apart : validateNoDataInputIntersection call.tx = .ok ()
  ergs : ∃ fee, validateErgConservation call.tx call.inputBoxes = .ok fee
  tokens : validateTokenConservation call.tx call.inputBoxes false = .ok ()
  values : checkOutputValues call.tx = .ok ()

variable {sr interpreter validator blockTxs height preHeader lastHeaders utxoLookup}

theorem not_costError_checkDoubleSpend {seen ids : List BoxId} {e : ConsensusError}
    (failed : checkDoubleSpend seen ids = .error e) : ¬ CostError e := by
  induction ids generalizing seen with
  | nil => cases failed
  | cons boxId rest ih =>
      unfold checkDoubleSpend at failed
      split at failed
      · cases failed
        exact id
      · exact ih failed

theorem not_costError_forM {α : Type} {f : α → ConsensusResult Unit} {xs : List α} {e : ConsensusError}
    (failed : xs.forM f = .error e) (each : ∀ x, f x = .error e → ¬ CostError e) : ¬ CostError e := by
  obtain ⟨x, -, here⟩ := exists_of_forM_eq_error failed
  exact each x here

theorem not_costError_collectBoxes {find : BoxId → Option ErgoBox} {missing : Nat → BoxId → ConsensusError}
    {ids : List BoxId} {e : ConsensusError} (failed : collectBoxes find missing ids = .error e)
    (each : ∀ idx boxId, ¬ CostError (missing idx boxId)) : ¬ CostError e := by
  obtain ⟨⟨boxId, idx⟩, -, here⟩ := exists_of_mapM_eq_error failed
  dsimp only at here
  split at here <;> cases here
  exact each idx boxId

theorem not_costError_checkSpentInBlock {spentInBlock : List BoxId} {tx : Transaction} {e : ConsensusError}
    (failed : checkSpentInBlock spentInBlock tx = .error e) : ¬ CostError e := by
  refine not_costError_forM failed fun boxId here => ?_
  split at here <;> cases here
  exact id

theorem not_costError_validateNoDataInputIntersection {tx : Transaction} {e : ConsensusError}
    (failed : validateNoDataInputIntersection tx = .error e) : ¬ CostError e := by
  refine not_costError_forM failed fun boxId here => ?_
  split at here <;> cases here
  exact id

theorem not_costError_validateErgConservation {tx : Transaction} {inputBoxes : List ErgoBox} {e : ConsensusError}
    (failed : validateErgConservation tx inputBoxes = .error e) : ¬ CostError e := by
  unfold validateErgConservation at failed
  dsimp only at failed
  split at failed <;> cases failed
  exact id

theorem not_costError_validateTokenConservation {tx : Transaction} {inputBoxes : List ErgoBox} {isCoinbase : Bool}
    {e : ConsensusError} (failed : validateTokenConservation tx inputBoxes isCoinbase = .error e) : ¬ CostError e := by
  unfold validateTokenConservation at failed
  generalize (if isCoinbase then none else inputBoxes.head?.map ErgoBox.boxId) = mintableTokenId at failed
  refine not_costError_forM failed fun tokenId here => ?_
  dsimp only at here
  split at here <;> cases here
  exact id

theorem not_costError_checkOutputValues {tx : Transaction} {e : ConsensusError}
    (failed : checkOutputValues tx = .error e) : ¬ CostError e := by
  refine not_costError_forM failed fun entry here => ?_
  dsimp only at here
  split at here <;> cases here
  exact id

theorem verifyScripts_of_costError {verifier : TxVerifier} {acc : TxLoop} {isCoinbase : Bool} {tx : Transaction}
    {e : ConsensusError} (failed : fullyValidate sr interpreter validator verifier utxoLookup acc isCoinbase tx =
      .error e) (cost : CostError e) :
    validator.skipScriptVerification = false ∧ isCoinbase = false ∧ ∃ inputBoxes dataInputBoxes,
      collectInputBoxes tx utxoLookup acc.createdInBlock = .ok inputBoxes ∧
      collectDataInputBoxes tx utxoLookup acc.createdInBlock = .ok dataInputBoxes ∧
      validateNoDataInputIntersection tx = .ok () ∧ (∃ fee, validateErgConservation tx inputBoxes = .ok fee) ∧
      validateTokenConservation tx inputBoxes isCoinbase = .ok () ∧ checkOutputValues tx = .ok () ∧
      verifyScripts sr interpreter validator verifier tx inputBoxes dataInputBoxes acc.totalCost = .error e := by
  rcases Except.bind_eq_error.mp failed with early | ⟨inputBoxes, inputs, failed⟩
  · exact absurd cost (not_costError_collectBoxes early fun _ _ => id)
  rcases Except.bind_eq_error.mp failed with early | ⟨dataInputBoxes, dataInputs, failed⟩
  · exact absurd cost (not_costError_collectBoxes early fun _ _ => id)
  rcases Except.bind_eq_error.mp failed with early | ⟨_, apart, failed⟩
  · exact absurd cost (not_costError_validateNoDataInputIntersection early)
  rcases Except.bind_eq_error.mp failed with early | ⟨fee, ergs, failed⟩
  · exact absurd cost (not_costError_validateErgConservation early)
  rcases Except.bind_eq_error.mp failed with early | ⟨_, tokens, failed⟩
  · exact absurd cost (not_costError_validateTokenConservation early)
  rcases Except.bind_eq_error.mp failed with early | ⟨_, values, failed⟩
  · exact absurd cost (not_costError_checkOutputValues early)
  rcases Except.bind_eq_error.mp failed with failed | ⟨_, -, pure⟩
  · split at failed
    · cases failed
    · next scripts =>
        rw [not_or, Bool.not_eq_true, Bool.not_eq_true] at scripts
        exact ⟨scripts.1, scripts.2, inputBoxes, dataInputBoxes, inputs, dataInputs, apart, ⟨fee, ergs⟩, tokens, values,
          failed⟩
  · cases pure

theorem made_of_costError {e : ConsensusError} (failed : validator.validateTransactions sr interpreter blockTxs height
    preHeader lastHeaders utxoLookup = .error e) (cost : CostError e) :
    ∃ call, Made sr interpreter validator blockTxs height preHeader lastHeaders utxoLookup call ∧
      call.verify sr interpreter validator ⟨height, preHeader, lastHeaders⟩ = .error e := by
  unfold validateTransactions at failed
  rcases Except.bind_eq_error.mp failed with failed | ⟨_, -, pure⟩
  · obtain ⟨front, ⟨tx, idx⟩, back, acc, split, before, failed⟩ := exists_of_foldlM_eq_error failed
    rcases Except.bind_eq_error.mp failed with early | ⟨_, distinct, failed⟩
    · exact absurd cost (not_costError_checkDoubleSpend early)
    rcases Except.bind_eq_error.mp failed with early | ⟨_, unspent, failed⟩
    · exact absurd cost (not_costError_checkSpentInBlock early)
    rcases Except.bind_eq_error.mp failed with failed | ⟨_, -, pure⟩
    · cases above : validator.isBelowCheckpoint height with
      | true =>
          rw [above] at failed
          cases failed
      | false =>
          rw [above] at failed
          obtain ⟨full, notCoinbase, inputBoxes, dataInputBoxes, inputs, dataInputs, apart, ergs, tokens, values, here⟩ :=
            verifyScripts_of_costError failed cost
          rw [notCoinbase] at tokens
          refine ⟨⟨acc, tx, inputBoxes, dataInputBoxes⟩, ?_, here⟩
          exact {
            full, above, distinct, unspent, inputs, dataInputs, apart, ergs, tokens, values
            reached := ⟨front, idx, back, split, of_decide_eq_false notCoinbase, before⟩ }
    · cases pure
  · cases pure

theorem Made.rejects {call : ScriptCall}
    (made : Made sr interpreter validator blockTxs height preHeader lastHeaders utxoLookup call) {e : ConsensusError}
    (failed : call.verify sr interpreter validator ⟨height, preHeader, lastHeaders⟩ = .error e) :
    validator.validateTransactions sr interpreter blockTxs height preHeader lastHeaders utxoLookup = .error e := by
  obtain ⟨front, idx, back, split, later, before⟩ := made.reached
  obtain ⟨fee, ergs⟩ := made.ergs
  have fully : fullyValidate sr interpreter validator ⟨height, preHeader, lastHeaders⟩ utxoLookup call.acc (idx = 0)
      call.tx = .error e := by
    rw [fullyValidate, made.inputs, Except.ok_bind, made.dataInputs, Except.ok_bind, made.apart, Except.ok_bind, ergs,
      Except.ok_bind, decide_eq_false later, made.tokens, Except.ok_bind, made.values, Except.ok_bind, made.full]
    exact Except.bind_eq_error.mpr (.inl failed)
  have here : validator.validateTransaction sr interpreter ⟨height, preHeader, lastHeaders⟩
      (validator.isBelowCheckpoint height) utxoLookup call.acc (call.tx, idx) = .error e := by
    rw [validateTransaction, made.distinct, Except.ok_bind, made.unspent, Except.ok_bind, made.above]
    exact Except.bind_eq_error.mpr (.inl fully)
  rw [validateTransactions, split, List.foldlM_append, before, Except.ok_bind, List.foldlM_cons, here]
  rfl

/-- The voted limit alone decides, and costs are counted in full, exactly when the fixed limit never comes first. -/
theorem votedLimit_iff (u64 : validator.parameters.maxBlockCost < 2 ^ 64) :
    (∀ e, CostError e → (validator.validateTransactions sr interpreter blockTxs height preHeader lastHeaders utxoLookup =
        .error e ↔
      ∃ call, Made sr interpreter validator blockTxs height preHeader lastHeaders utxoLookup call ∧
        call.verify sr interpreter validator ⟨height, preHeader, lastHeaders⟩ = .error e)) ∧
    ((∀ call, Made sr interpreter validator blockTxs height preHeader lastHeaders utxoLookup call →
        call.Fair sr interpreter validator ⟨height, preHeader, lastHeaders⟩) ↔
      ∀ call, Made sr interpreter validator blockTxs height preHeader lastHeaders utxoLookup call →
        call.FixedLimitIdle sr interpreter validator ⟨height, preHeader, lastHeaders⟩) :=
  ⟨fun _ cost => ⟨fun failed => made_of_costError failed cost, fun ⟨_, made, failed⟩ => made.rejects failed⟩,
    forall₂_congr fun _ _ => ScriptCall.fair_iff sr interpreter validator _ u64⟩

end Blocks

/-! ### Scripts of one price -/

def pricedInterpreter (price : Nat) : Interpreter :=
  { sampleInterpreter with verify := fun _ _ _ _ => .ok ⟨true, price, none⟩ }

def pricedValidator (maxBlockCost : Nat) : FullBlockValidator := .withParameters ⟨maxBlockCost⟩

abbrev verifier31 : TxVerifier := ⟨1690001, header31, []⟩

abbrev MadeIn (price maxBlockCost : Nat) : ScriptCall → Prop :=
  Made spendCodec (pricedInterpreter price) (pricedValidator maxBlockCost) chainedTxs 1690001 header31 [] onlyBox1

def FairAt (price maxBlockCost : Nat) : Prop := ∀ call, MadeIn price maxBlockCost call →
  call.Fair spendCodec (pricedInterpreter price) (pricedValidator maxBlockCost) verifier31

theorem charged_free {outcomes : List InputOutcome} (free : ∀ outcome ∈ outcomes, ∀ cost,
    outcome = .met cost ∨ outcome = .unmet cost → cost = 0) : (charged outcomes).sum = 0 := by
  induction outcomes with
  | nil => rfl
  | cons outcome rest ih =>
      rw [List.forall_mem_cons] at free
      cases outcome with
      | rent => exact ih free.2
      | failed => rfl
      | met cost =>
          rw [charged, List.sum_cons, free.1 cost (.inl rfl), ih free.2]
      | unmet cost =>
          rw [charged, List.sum_singleton]
          exact free.1 cost (.inr rfl)

theorem outcomeOf_priced {price : Nat} (tx : Transaction) (inputBoxes : List ErgoBox)
    (dataInputs : Option (List ErgoBox)) (entry : (Input × ErgoBox) × Nat) :
    outcomeOf spendCodec (pricedInterpreter price) verifier31 tx inputBoxes dataInputs entry = .rent ∨
      outcomeOf spendCodec (pricedInterpreter price) verifier31 tx inputBoxes dataInputs entry = .met price := by
  unfold outcomeOf
  exact ite_eq_or_eq ..

theorem freeScripts_fair : FairAt 0 1000000 := by
  refine (votedLimit_iff (by decide)).2.mpr fun call made => ⟨fun _ beyond => .inl beyond, fun _ _ => ?_⟩
  have free : (charged (call.outcomes spendCodec (pricedInterpreter 0) verifier31)).sum = 0 := by
    refine charged_free fun outcome member cost kind => ?_
    unfold ScriptCall.outcomes outcomes at member
    split at member
    · rw [List.mem_singleton.mp member] at kind
      simp at kind
    · obtain ⟨entry, -, rfl⟩ := List.mem_map.mp member
      rcases outcomeOf_priced call.tx call.inputBoxes _ entry with rent | met
      · rw [rent] at kind
        rcases kind with same | same <;> cases same
      · rw [met] at kind
        rcases kind with same | same <;> cases same
        rfl
  obtain ⟨front, idx, back, split, -, -⟩ := made.reached
  have member : (call.tx, idx) ∈ chainedTxs.txs.zipIdx := by simp [split]
  have bases : ∀ tx ∈ chainedTxs.txs, baseCostOf spendCodec tx < 2 ^ 64 := by decide
  rw [ScriptCall.cost, free, Nat.add_zero]
  exact bases call.tx (List.fst_mem_of_mem_zipIdx member)

def secondCall : ScriptCall where
  acc := ⟨0, [⟨.filled 1, Sample.sampleBox 1⟩], createdBoxesOf (spendTx 1 2), [.filled 1],
    ErgoBoxMap.empty.insertAll [Sample.sampleBox 2]⟩
  tx := spendTx 2 3
  inputBoxes := [Sample.sampleBox 2]
  dataInputBoxes := []

theorem costlyScript_not_fair : ¬ FairAt 1500000 2000000 := by
  intro fair
  have made : MadeIn 1500000 2000000 secondCall := {
    full := rfl
    above := by decide
    reached := ⟨[(spendTx 1 2, 0)], 1, [], rfl, by decide, rfl⟩
    distinct := by decide
    unspent := by decide
    inputs := rfl
    dataInputs := rfl
    apart := rfl
    ergs := ⟨0, by decide⟩
    tokens := rfl
    values := by decide }
  have whole : secondCall.cost spendCodec (pricedInterpreter 1500000) verifier31 = 1502104 := by decide +kernel
  have ended : secondCall.loopEnd spendCodec (pricedInterpreter 1500000) verifier31 = .overLimit := by
    rw [ScriptCall.loopEnd_overLimit_iff _ _ _ (by rw [whole]; decide), whole]
    exact ⟨by decide, by decide⟩
  obtain ⟨e, failed, cost⟩ := ScriptCall.exists_costError _ _ (pricedValidator 2000000) _ ended
  have exceeding := (fair secondCall made).limit e failed cost
  rw [ScriptCall.Exceeding, whole] at exceeding
  exact absurd exceeding (by decide)

end ErgoNode.Proof.Validation
