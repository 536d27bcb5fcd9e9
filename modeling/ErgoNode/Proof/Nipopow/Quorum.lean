import ErgoNode.Proof.Nipopow.Verifier

/-!
# The quorum of a verifier

The quorum is of proofs that were processed, and a proof that is turned down is processed as well. It is
one of proofs that pass as long as the first proofs all do.
-/

namespace ErgoNode.Proof.Nipopow

section Quorum
variable {genesisId : Option BlockId} {minProofs : Int32} {proofs before : List NipopowProof} {proof : NipopowProof}

def unused (genesisId : Option BlockId) (minProofs : Int32) : NipopowVerifier := ⟨genesisId, none, 0, minProofs⟩

def expectedGenesis (genesisId : Option BlockId) (proofs : List NipopowProof) : Option BlockId :=
  genesisId.or ((proofs.find? NipopowProof.isValid).bind NipopowProof.genesisId)

theorem expectedGenesis_append_singleton : expectedGenesis genesisId (proofs ++ [proof]) =
    if proof.isValid then (expectedGenesis genesisId proofs).or proof.genesisId else expectedGenesis genesisId proofs := by
  unfold expectedGenesis
  rw [List.find?_append]
  cases found : proofs.find? NipopowProof.isValid with
  | some first =>
      obtain ⟨id, starts⟩ := genesisId_of_isValid (List.find?_some found)
      cases genesisId <;> simp [starts]
  | none => by_cases valid : proof.isValid <;> simp [valid]

theorem isSome_keepBetter (best : Option NipopowProof) : (keepBetter best proof).isSome := by
  cases best with
  | none => rfl
  | some current =>
      rw [keepBetter]
      split <;> rfl

theorem exists_passes_append_singleton :
    (∃ other ∈ proofs ++ [proof], passes (expectedGenesis genesisId (proofs ++ [proof])) other) ↔
      (∃ other ∈ proofs, passes (expectedGenesis genesisId proofs) other) ∨
        passes ((expectedGenesis genesisId proofs).or proof.genesisId) proof := by
  rw [expectedGenesis_append_singleton]
  by_cases valid : proof.isValid
  · rw [if_pos valid]
    cases expected : expectedGenesis genesisId proofs with
    | none =>
        have passed : passes proof.genesisId proof := passes_iff.mpr ⟨valid, rfl⟩
        exact ⟨fun _ => .inr passed, fun _ => ⟨proof, by simp, passed⟩⟩
    | some id => simp [or_and_right, exists_or]
  · have failed (id : Option BlockId) : ¬ passes id proof := fun passed => valid (passes_iff.mp passed).1
    rw [if_neg valid]
    simp [failed]

theorem processAll_unused (proofs : List NipopowProof) :
    (processAll (unused genesisId minProofs) proofs).genesisId = expectedGenesis genesisId proofs ∧
      (processAll (unused genesisId minProofs) proofs).proofsProcessed = Int32.ofNat proofs.length ∧
      (processAll (unused genesisId minProofs) proofs).minProofs = minProofs ∧
      ((processAll (unused genesisId minProofs) proofs).bestProof.isSome ↔
        ∃ proof ∈ proofs, passes (expectedGenesis genesisId proofs) proof) := by
  induction proofs using List.reverseRecOn with
  | nil => simp [unused, expectedGenesis]
  | append_singleton proofs proof ih =>
      obtain ⟨genesis, processed, least, best⟩ := ih
      rw [processAll_append_singleton, process_snd]
      dsimp only
      rw [genesis, processed, least]
      refine ⟨expectedGenesis_append_singleton.symm, ?_, rfl, ?_⟩
      · rw [List.length_append, List.length_singleton, Int32.ofNat_add]
        rfl
      · rw [exists_passes_append_singleton]
        by_cases passed : passes ((expectedGenesis genesisId proofs).or proof.genesisId) proof
        · simp [passed, isSome_keepBetter]
        · simp [passed, best]

theorem passes_expectedGenesis_of_prefix (prefixed : before <+: proofs) (member : proof ∈ before) :
    passes (expectedGenesis genesisId before) proof ↔ passes (expectedGenesis genesisId proofs) proof := by
  by_cases valid : proof.isValid
  · obtain ⟨first, found⟩ := Option.isSome_iff_exists.mp (List.find?_isSome.mpr ⟨proof, member, valid⟩)
    obtain ⟨after, rfl⟩ := prefixed
    simp [expectedGenesis, found]
  · simp [passes, valid]

/-- A released quorum is one of proofs that pass. -/
def Backed (verifier : NipopowVerifier) (proofs : List NipopowProof) : Prop :=
  verifier.hasQuorum ∨ verifier.getHeadersToApply.isSome →
    verifier.minProofs.toInt ≤ proofs.countP (passes verifier.genesisId)

theorem isSome_getHeadersToApply {verifier : NipopowVerifier} :
    verifier.getHeadersToApply.isSome ↔ verifier.hasQuorum := by
  unfold NipopowVerifier.getHeadersToApply
  by_cases quorum : verifier.hasQuorum
  · have held : verifier.bestProof.isSome := (Bool.and_eq_true_iff.mp quorum).2
    simp [quorum, held]
  · simp [quorum]

theorem hasQuorum_processAll : (processAll (unused genesisId minProofs) proofs).hasQuorum ↔
    minProofs.toInt ≤ (Int32.ofNat proofs.length).toInt ∧
      0 < proofs.countP (passes (expectedGenesis genesisId proofs)) := by
  obtain ⟨-, processed, least, best⟩ := @processAll_unused genesisId minProofs proofs
  rw [NipopowVerifier.hasQuorum, Bool.and_eq_true, best, processed, least, List.countP_pos_iff, decide_eq_true_iff,
    ge_iff_le, Int32.le_iff_toInt_le]

theorem backed_processAll_iff (prefixed : before <+: proofs) :
    Backed (processAll (unused genesisId minProofs) before) before ↔
      (minProofs.toInt ≤ (Int32.ofNat before.length).toInt →
        0 < before.countP (passes (expectedGenesis genesisId proofs)) →
          minProofs.toInt ≤ before.countP (passes (expectedGenesis genesisId proofs))) := by
  have same : before.countP (passes (expectedGenesis genesisId before)) =
      before.countP (passes (expectedGenesis genesisId proofs)) :=
    List.countP_congr fun _ member => passes_expectedGenesis_of_prefix prefixed member
  unfold Backed
  rw [isSome_getHeadersToApply, or_self, hasQuorum_processAll, (processAll_unused before).1,
    (processAll_unused before).2.2.1, same, and_imp]

/-- Enough of the first proofs are there and all pass, or none ever passes, or no more than one is asked
for. -/
def EarlyPass (genesisId : Option BlockId) (minProofs : Int32) (proofs : List NipopowProof) : Prop :=
  minProofs.toInt ≤ 1 ∨ proofs.length < minProofs.toInt ∨
    (∀ proof ∈ proofs.take minProofs.toInt.toNat, passes (expectedGenesis genesisId proofs) proof) ∨
      ∀ proof ∈ proofs, ¬ passes (expectedGenesis genesisId proofs) proof

theorem toInt_ofNat_length {n : Nat} (few : n < 2 ^ 31) : (Int32.ofNat n).toInt = n :=
  Int32.toInt_ofNat_of_lt few

theorem backed_of_earlyPass (early : EarlyPass genesisId minProofs proofs) (prefixed : before <+: proofs) :
    Backed (processAll (unused genesisId minProofs) before) before := by
  rw [backed_processAll_iff prefixed]
  intro reached some
  have inRange : minProofs.toInt < 2 ^ 31 := Int32.toInt_lt minProofs
  have enough : minProofs.toInt ≤ before.length := by
    by_contra fewer
    rw [toInt_ofNat_length (by omega)] at reached
    exact fewer reached
  rcases early with one | short | first | none
  · omega
  · have long := prefixed.length_le
    omega
  · have start : proofs.take minProofs.toInt.toNat <+: before := by
      refine List.prefix_of_prefix_length_le (List.take_prefix _ _) prefixed ?_
      rw [List.length_take]
      omega
    have all : (proofs.take minProofs.toInt.toNat).countP (passes (expectedGenesis genesisId proofs)) =
        (proofs.take minProofs.toInt.toNat).length := List.countP_eq_length.mpr first
    have counted := start.sublist.countP_le (p := passes (expectedGenesis genesisId proofs))
    have long := prefixed.length_le
    rw [all, List.length_take] at counted
    omega
  · obtain ⟨proof, member, passed⟩ := List.countP_pos_iff.mp some
    exact absurd passed (none proof (prefixed.subset member))

theorem earlyPass_of_backed (few : proofs.length < 2 ^ 31)
    (backed : ∀ before, before <+: proofs → Backed (processAll (unused genesisId minProofs) before) before) :
    EarlyPass genesisId minProofs proofs := by
  by_contra late
  simp only [EarlyPass, not_or, not_le, not_lt, not_forall, exists_prop, not_not] at late
  obtain ⟨several, long, ⟨failing, inside, failed⟩, proof, member, passed⟩ := late
  -- none of the first proofs passes, or the quorum they make is not backed
  have early : (proofs.take minProofs.toInt.toNat).countP (passes (expectedGenesis genesisId proofs)) = 0 := by
    have length : (proofs.take minProofs.toInt.toNat).length = minProofs.toInt.toNat := by
      rw [List.length_take]
      omega
    have fewer : (proofs.take minProofs.toInt.toNat).countP (passes (expectedGenesis genesisId proofs)) <
        (proofs.take minProofs.toInt.toNat).length :=
      lt_of_le_of_ne List.countP_le_length fun all => failed (List.countP_eq_length.mp all failing inside)
    have here := (backed_processAll_iff (List.take_prefix _ _)).mp (backed _ (List.take_prefix minProofs.toInt.toNat _))
    rw [toInt_ofNat_length (by omega)] at here
    omega
  -- so the first proof that passes comes when the quorum is long reached
  obtain ⟨first, found⟩ := Option.isSome_iff_exists.mp (List.find?_isSome.mpr ⟨proof, member, passed⟩)
  obtain ⟨firstPassed, front, rest, rfl, none⟩ := List.find?_eq_some_iff_append.mp found
  have prefixed : front ++ [first] <+: front ++ first :: rest := ⟨rest, by simp⟩
  have here := (backed_processAll_iff prefixed).mp (backed _ prefixed)
  have one : (front ++ [first]).countP (passes (expectedGenesis genesisId (front ++ first :: rest))) = 1 := by
    rw [List.countP_append, List.countP_singleton, if_pos firstPassed, List.countP_eq_zero.mpr]
    intro other there
    simpa using none other there
  have reached : minProofs.toInt ≤ front.length := by
    by_contra fewer
    have inside : first ∈ (front ++ first :: rest).take minProofs.toInt.toNat := by
      refine List.mem_take_iff_getElem.mpr ⟨front.length, ?_, by simp⟩
      rw [List.length_append, List.length_cons]
      omega
    exact absurd firstPassed (List.countP_eq_zero.mp early first inside)
  rw [one, List.length_append, List.length_singleton, toInt_ofNat_length (by simp at few; omega)] at here
  omega

/-- When enough of the first proofs pass, or none passes at all, every quorum is one of proofs that pass;
without that, a run that the counter can count has one that is not. -/
theorem quorum_backed (genesisId : Option BlockId) (minProofs : Int32) (proofs : List NipopowProof) :
    (EarlyPass genesisId minProofs proofs →
      ∀ before, before <+: proofs → Backed (processAll (unused genesisId minProofs) before) before) ∧
    (proofs.length < 2 ^ 31 →
      (∀ before, before <+: proofs → Backed (processAll (unused genesisId minProofs) before) before) →
        EarlyPass genesisId minProofs proofs) :=
  ⟨fun early _ prefixed => backed_of_earlyPass early prefixed, earlyPass_of_backed⟩

end Quorum

/-! ### Samples -/

section Samples
open Sample

def halfEmptyProofs : List NipopowProof := [proofTo header12, { proofTo header13 with prefixHeaders := [] }]

/-- Two proofs make the quorum, one of them invalid. -/
theorem halfEmptyProofs_unbacked :
    ¬ Backed (processAll (.withParams 2) halfEmptyProofs) halfEmptyProofs := by
  intro backed
  have two := backed (.inl (by decide))
  exact absurd two (by decide)

end Samples
end ErgoNode.Proof.Nipopow
