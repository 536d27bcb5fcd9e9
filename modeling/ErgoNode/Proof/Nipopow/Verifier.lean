import ErgoNode.Consensus.Nipopow
import ErgoNode.Proof.Sample
import Mathlib.Data.List.MinMax
import Mathlib.Data.Int.ConditionallyCompleteOrder
import Mathlib.Order.ConditionallyCompleteLattice.Basic

/-!
# What a verifier keeps

The verifier takes part in what it is given only through the proofs that pass: valid ones that start
with its genesis. Of these it keeps the best, and it counts the others too.
-/

namespace ErgoNode.Proof.Nipopow

/-! ### One proof -/

def passes (genesisId : Option BlockId) (proof : NipopowProof) : Bool :=
  proof.isValid && proof.genesisId == genesisId

def keepBetter (best : Option NipopowProof) (proof : NipopowProof) : Option NipopowProof :=
  match best with
  | none => some proof
  | some currentBest => if proof.isBetterThan currentBest then some proof else some currentBest

section One
variable {proof : NipopowProof} {verifier : NipopowVerifier} {genesisId : Option BlockId}

theorem passes_iff : passes genesisId proof ↔ proof.isValid = true ∧ proof.genesisId = genesisId := by
  simp [passes]

theorem isValid_iff_validate : proof.isValid ↔ proof.validate = .ok () := by
  unfold NipopowProof.isValid
  cases proof.validate <;> simp [Except.isOk, Except.toBool]

theorem genesisId_of_isValid (valid : proof.isValid) : ∃ id, proof.genesisId = some id := by
  rw [isValid_iff_validate, NipopowProof.validate] at valid
  cases shape : proof.prefixHeaders with
  | nil => simp [shape] at valid
  | cons first rest => exact ⟨first.id, by simp [NipopowProof.genesisId, shape]⟩

theorem headersChain_cons {id : BlockId} (starts : proof.genesisId = some id) :
    ∃ header rest, proof.headersChain = header :: rest ∧ header.id = id := by
  unfold NipopowProof.genesisId at starts
  cases shape : proof.prefixHeaders with
  | nil => simp [shape] at starts
  | cons first rest =>
      rw [shape] at starts
      refine ⟨first.header, rest.map PoPowHeader.header ++ proof.suffixHead.header :: proof.suffixTail, ?_,
        Option.some.inj starts⟩
      simp [NipopowProof.headersChain, shape]

theorem process_snd : (verifier.process proof).2 =
    { verifier with
      proofsProcessed := verifier.proofsProcessed + 1
      genesisId := if proof.isValid then verifier.genesisId.or proof.genesisId else verifier.genesisId
      bestProof := if passes (verifier.genesisId.or proof.genesisId) proof then keepBetter verifier.bestProof proof
        else verifier.bestProof } := by
  cases checked : proof.validate with
  | error message =>
      have invalid : proof.isValid = false := by simp [NipopowProof.isValid, checked, Except.isOk, Except.toBool]
      simp [NipopowVerifier.process, checked, passes, invalid]
  | ok _ =>
      have valid : proof.isValid = true := isValid_iff_validate.mpr checked
      obtain ⟨id, starts⟩ := genesisId_of_isValid valid
      cases expected : verifier.genesisId with
      | none =>
          cases held : verifier.bestProof with
          | none => simp [NipopowVerifier.process, checked, passes, valid, starts, expected, held, keepBetter]
          | some best =>
              by_cases better : proof.isBetterThan best <;>
                simp [NipopowVerifier.process, checked, passes, valid, starts, expected, held, keepBetter, better]
      | some genesis =>
          by_cases same : id = genesis
          · cases held : verifier.bestProof with
            | none => simp [NipopowVerifier.process, checked, passes, valid, starts, expected, held, keepBetter, same]
            | some best =>
                by_cases better : proof.isBetterThan best <;>
                  simp [NipopowVerifier.process, checked, passes, valid, starts, expected, held, keepBetter, better,
                    same]
          · simp [NipopowVerifier.process, checked, passes, valid, starts, expected, same]

end One

/-! ### Runs -/

def processAll (verifier : NipopowVerifier) (proofs : List NipopowProof) : NipopowVerifier :=
  proofs.foldl (fun verifier proof => (verifier.process proof).2) verifier

@[simp] theorem processAll_nil (verifier : NipopowVerifier) : processAll verifier [] = verifier := rfl

@[simp] theorem processAll_append_singleton (verifier : NipopowVerifier) (proofs : List NipopowProof)
    (proof : NipopowProof) :
    processAll verifier (proofs ++ [proof]) = ((processAll verifier proofs).process proof).2 := by
  simp [processAll]

section Best
variable {proofs order : List NipopowProof} {proof best other : NipopowProof} {genesis : BlockId}

def IdsDetermine (proofs : List NipopowProof) : Prop :=
  ∀ p ∈ proofs, ∀ q ∈ proofs, ∀ a ∈ p.headersChain, ∀ b ∈ q.headersChain, a.id = b.id → a = b

def chainScore (proof : NipopowProof) : Int64 := proof.score ((proof.headersChain.head?.map Header.height).getD 0)

/-- Two chains from one genesis branch there, so that each is measured by a score of its own. -/
theorem isBetterThan_iff (determined : IdsDetermine proofs) (here : proof ∈ proofs) (there : other ∈ proofs)
    (passed : passes (some genesis) proof) (otherPassed : passes (some genesis) other) :
    proof.isBetterThan other ↔ chainScore other < chainScore proof := by
  rw [passes_iff] at passed otherPassed
  obtain ⟨first, rest, chain, id⟩ := headersChain_cons passed.2
  obtain ⟨otherFirst, otherRest, otherChain, otherId⟩ := headersChain_cons otherPassed.2
  have same : otherFirst = first := by
    refine determined other there proof here otherFirst ?_ first ?_ (otherId.trans id.symm)
    · simp [otherChain]
    · simp [chain]
  have branches : (other.headersChain.find? fun h => (proof.headersChain.map Header.id).contains h.id) = some first := by
    rw [otherChain, same, List.find?_cons_of_pos]
    simp [chain]
  unfold NipopowProof.isBetterThan
  rw [if_neg (by simp [passed.1]), if_neg (by simp [otherPassed.1])]
  dsimp only
  rw [branches]
  simp [chainScore, chain, otherChain, same]

theorem bestProof_processAll (determined : IdsDetermine proofs) :
    (processAll (.withGenesis genesis) proofs).genesisId = some genesis ∧
      (processAll (.withGenesis genesis) proofs).bestProof =
        (proofs.filter (passes (some genesis))).argmax fun proof => (chainScore proof).toInt := by
  induction proofs using List.reverseRecOn with
  | nil => exact ⟨rfl, rfl⟩
  | append_singleton proofs proof ih =>
      have earlier : IdsDetermine proofs := fun p here q there =>
        determined p (List.mem_append_left _ here) q (List.mem_append_left _ there)
      obtain ⟨expected, kept⟩ := ih earlier
      rw [processAll_append_singleton, process_snd, List.filter_append, List.filter_singleton, expected, Option.some_or]
      refine ⟨ite_self _, ?_⟩
      dsimp only
      by_cases passed : passes (some genesis) proof
      · rw [if_pos passed, passed, kept, Bool.cond_true, List.argmax_concat]
        cases chosen : (proofs.filter (passes (some genesis))).argmax fun proof => (chainScore proof).toInt with
        | none => rfl
        | some best =>
            obtain ⟨member, bestPassed⟩ := List.mem_filter.mp (List.argmax_mem chosen)
            have better := isBetterThan_iff determined (by simp) (List.mem_append_left _ member) passed bestPassed
            rw [Int64.lt_iff_toInt_lt] at better
            simp only [keepBetter, better]
      · rw [if_neg passed, eq_false_of_ne_true passed, kept, Bool.cond_false, List.append_nil]

theorem mem_passed (determined : IdsDetermine proofs)
    (kept : (processAll (.withGenesis genesis) proofs).bestProof = some best) :
    best ∈ proofs ∧ passes (some genesis) best ∧
      ∀ proof ∈ proofs, passes (some genesis) proof → chainScore proof ≤ chainScore best := by
  rw [(bestProof_processAll determined).2] at kept
  obtain ⟨member, passed⟩ := List.mem_filter.mp (List.argmax_mem kept)
  refine ⟨member, passed, fun proof here proofPassed => Int64.le_iff_toInt_le.mpr ?_⟩
  have highest := List.le_of_mem_argmax (List.mem_filter.mpr ⟨here, proofPassed⟩) kept
  exact highest

/-- The best proof is valid and has the expected genesis, and no such proof that was processed is better; in
whatever order the proofs are processed, the best one has the same score. -/
theorem bestProof_spec (determined : IdsDetermine proofs)
    (kept : (processAll (.withGenesis genesis) proofs).bestProof = some best) :
    best.isValid ∧ best.genesisId = some genesis ∧
      (∀ proof ∈ proofs, proof.isValid → proof.genesisId = some genesis → ¬ proof.isBetterThan best) ∧
      ∀ order, order.Perm proofs → ∃ other, (processAll (.withGenesis genesis) order).bestProof = some other ∧
        chainScore other = chainScore best := by
  obtain ⟨member, passed, highest⟩ := mem_passed determined kept
  obtain ⟨valid, starts⟩ := passes_iff.mp passed
  refine ⟨valid, starts, fun proof here proofValid proofStarts => ?_, fun order perm => ?_⟩
  · have proofPassed := passes_iff.mpr ⟨proofValid, proofStarts⟩
    rw [isBetterThan_iff determined here member proofPassed passed]
    exact Int64.not_lt.mpr (highest proof here proofPassed)
  · have reordered : IdsDetermine order := fun p here q there =>
      determined p (perm.mem_iff.mp here) q (perm.mem_iff.mp there)
    obtain ⟨other, chosen⟩ : ∃ other, (processAll (.withGenesis genesis) order).bestProof = some other := by
      rw [(bestProof_processAll reordered).2]
      refine Option.ne_none_iff_exists'.mp fun none => ?_
      rw [List.argmax_eq_none] at none
      exact absurd (List.mem_filter.mpr ⟨perm.mem_iff.mpr member, passed⟩) (none ▸ List.not_mem_nil)
    obtain ⟨otherMember, otherPassed, otherHighest⟩ := mem_passed reordered chosen
    refine ⟨other, chosen, Int64.le_antisymm (highest other (perm.mem_iff.mp otherMember) otherPassed) ?_⟩
    exact otherHighest best (perm.mem_iff.mpr member) passed

end Best

/-! ### Samples -/

section Samples
open Sample

def proofTo (last : Header) : NipopowProof := ⟨30, 1, [⟨header11, []⟩], ⟨last, [header11.id]⟩, []⟩

def longerProof : NipopowProof := ⟨30, 2, [⟨header11, []⟩], ⟨header12, [header11.id]⟩, [header13]⟩

theorem longerProof_best : longerProof.isValid ∧ longerProof.genesisId = some header11.id ∧
    (∀ proof ∈ [proofTo header23, longerProof, proofTo header12], proof.isValid →
      proof.genesisId = some header11.id → ¬ proof.isBetterThan longerProof) ∧
    ∀ order, order.Perm [proofTo header23, longerProof, proofTo header12] → ∃ other,
      (processAll (.withGenesis header11.id) order).bestProof = some other ∧ chainScore other = chainScore longerProof :=
  bestProof_spec (by unfold IdsDetermine; decide) (by decide)

end Samples

end ErgoNode.Proof.Nipopow
