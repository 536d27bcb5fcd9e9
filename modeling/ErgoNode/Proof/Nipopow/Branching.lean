import ErgoNode.Proof.Nipopow.Verifier
import Mathlib.Data.List.Chain
import Mathlib.Data.List.Perm.Subperm

/-!
# Where two proofs branch

Of the headers two proofs have in common the first is taken for the branching point. The headers from
there up to the last common one are counted with the diverging ones, those that each proof has kept.
-/

namespace ErgoNode.Proof.Nipopow

section Branching
variable {proof other : NipopowProof} {low high : Nat} {first last : Header} {headers : List Header}

def common (proof : NipopowProof) (header : Header) : Bool := (proof.headersChain.map Header.id).contains header.id

def firstCommon (proof other : NipopowProof) : Option Header := other.headersChain.find? (common proof)

def lastCommon (proof other : NipopowProof) : Option Header := other.headersChain.reverse.find? (common proof)

def above (height : Nat) (headers : List Header) : List Header := headers.filter fun h => h.height > height

def between (low high : Nat) (headers : List Header) : List Header :=
  headers.filter fun h => h.height > low ∧ h.height ≤ high

/-! ### Heights -/

theorem allNeighbours_iff {α : Type} {ok : α → α → Bool} {list : List α} :
    NipopowProof.allNeighbours ok list ↔ list.IsChain fun a b => ok a b := by
  induction list with
  | nil => simp [NipopowProof.allNeighbours]
  | cons a rest ih =>
      cases rest with
      | nil => simp [NipopowProof.allNeighbours]
      | cons b rest => rw [NipopowProof.allNeighbours, Bool.and_eq_true, ih, List.isChain_cons_cons]

theorem hasValidHeights_of_isValid (valid : proof.isValid) : proof.hasValidHeights := by
  by_contra unordered
  rw [isValid_iff_validate, NipopowProof.validate] at valid
  simp only [unordered, Bool.false_eq_true, not_false_eq_true, if_true] at valid
  repeat' split at valid
  all_goals cases valid

theorem heights_of_isValid (valid : proof.isValid) : proof.headersChain.Pairwise fun a b => a.height < b.height := by
  have chain := allNeighbours_iff.mp (hasValidHeights_of_isValid valid)
  simp only [decide_eq_true_eq] at chain
  exact List.pairwise_map.mp chain.pairwise

def HeightsFit (proof : NipopowProof) : Prop := ∀ header ∈ proof.headersChain, header.height < 2 ^ 32

theorem length_headersChain_le (valid : proof.isValid) (fit : HeightsFit proof) : proof.headersChain.length ≤ 2 ^ 32 := by
  have distinct : (proof.headersChain.map Header.height).Nodup :=
    (List.pairwise_map.mpr (heights_of_isValid valid)).imp Nat.ne_of_lt
  have inRange : proof.headersChain.map Header.height ⊆ List.range (2 ^ 32) := by
    intro height member
    obtain ⟨header, there, rfl⟩ := List.mem_map.mp member
    exact List.mem_range.mpr (fit header there)
  have shorter := (List.subperm_of_subset distinct inRange).length_le
  rwa [List.length_map, List.length_range] at shorter

theorem first_le_last (valid : other.isValid) (lowest : firstCommon proof other = some first)
    (highest : lastCommon proof other = some last) : first.height ≤ last.height := by
  obtain ⟨-, front, rest, chain, early⟩ := List.find?_eq_some_iff_append.mp lowest
  have member : last ∈ other.headersChain := List.mem_reverse.mp (List.mem_of_find?_eq_some highest)
  have shared : common proof last := List.find?_some highest
  have ordered := heights_of_isValid valid
  rw [chain] at member ordered
  rcases List.mem_append.mp member with before | here
  · have unshared := early last before
    rw [shared] at unshared
    cases unshared
  · rcases List.mem_cons.mp here with rfl | after
    · exact le_refl _
    · exact ((List.pairwise_cons.mp (List.pairwise_append.mp ordered).2.1).1 last after).le

/-! ### Verdicts -/

def sharedPart (proof other this : NipopowProof) : List Header :=
  match firstCommon proof other, lastCommon proof other with
  | some first, some last => between first.height last.height this.headersChain
  | _, _ => []

def divergingPart (proof other this : NipopowProof) : List Header :=
  match lastCommon proof other with
  | some last => above last.height this.headersChain
  | none => this.headersChain

theorem length_above (le : low ≤ high) :
    (above low headers).length = (between low high headers).length + (above high headers).length := by
  induction headers with
  | nil => rfl
  | cons header rest ih =>
      simp only [above, between, List.filter_cons] at ih ⊢
      by_cases higher : header.height > high
      · have notBelow : ¬ header.height ≤ high := by omega
        have aboveLow : header.height > low := by omega
        simp [higher, notBelow, aboveLow, ih]
        omega
      · by_cases aboveLow : header.height > low
        · have below : header.height ≤ high := by omega
          simp [higher, aboveLow, below, ih]
          omega
        · simp [higher, aboveLow, ih]

theorem bestArgFrom_zeros {levels : List Nat} {m : Int32} {best : Int64} (zeros : ∀ level ∈ levels, level = 0)
    (positive : 0 ≤ best) (left level : Nat) : bestArgFrom levels m left (level + 1) best = best := by
  have none (level : Nat) : levels.filter (fun l => l ≥ level + 1) = [] := by
    refine List.filter_eq_nil_iff.mpr fun l member => ?_
    rw [zeros l member]
    simp
  induction left generalizing level with
  | zero => rfl
  | succ left ih =>
      have score : (1 : Int64) <<< Int64.ofNat (level + 1) * Int64.ofNat ([] : List Nat).length = 0 := by simp
      have kept : max best (0 : Int64) = best := by
        change (if best ≤ 0 then 0 else best) = best
        split
        · next small => exact Int64.le_antisymm positive small
        · rfl
      rw [bestArgFrom, none]
      dsimp only
      rw [score, kept, ih, ite_self]

theorem score_eq (valid : proof.isValid) (fit : HeightsFit proof) (height : Nat) :
    proof.score height = Int64.ofNat (above height proof.headersChain).length := by
  have fewer : (above height proof.headersChain).length < 2 ^ 63 := by
    have whole := length_headersChain_le valid fit
    have part : (above height proof.headersChain).length ≤ proof.headersChain.length := List.length_filter_le ..
    omega
  have positive : 0 ≤ Int64.ofNat (above height proof.headersChain).length := by
    rw [Int64.le_iff_toInt_le, Int64.toInt_ofNat_of_lt fewer]
    exact Int.natCast_nonneg _
  have length : (proof.divergingLevels height).length = (above height proof.headersChain).length := List.length_map _
  unfold NipopowProof.score bestArg
  split
  · next empty =>
      rw [List.isEmpty_iff] at empty
      rw [← length, empty]
      rfl
  · rw [length]
    refine bestArgFrom_zeros (fun level member => ?_) positive 256 0
    obtain ⟨_, -, rfl⟩ := List.mem_map.mp member
    rfl

theorem score_lt_score (valid : proof.isValid) (otherValid : other.isValid) (fit : HeightsFit proof)
    (otherFit : HeightsFit other) (height : Nat) : proof.score height > other.score height ↔
      (above height other.headersChain).length < (above height proof.headersChain).length := by
  have fewer {proof : NipopowProof} (valid : proof.isValid) (fit : HeightsFit proof) :
      (above height proof.headersChain).length < 2 ^ 63 := by
    have whole := length_headersChain_le valid fit
    have part : (above height proof.headersChain).length ≤ proof.headersChain.length := List.length_filter_le ..
    omega
  rw [score_eq valid fit, score_eq otherValid otherFit, gt_iff_lt, Int64.lt_iff_toInt_lt,
    Int64.toInt_ofNat_of_lt (fewer valid fit), Int64.toInt_ofNat_of_lt (fewer otherValid otherFit), Int.ofNat_lt]

/-- The headers that both proofs keep above the first common one do not tip the comparison of the diverging
parts. -/
def Untipped (proof other : NipopowProof) : Prop :=
  (sharedPart proof other other).length + (divergingPart proof other other).length <
      (sharedPart proof other proof).length + (divergingPart proof other proof).length ↔
    (divergingPart proof other other).length < (divergingPart proof other proof).length

theorem untipped_of_equal (equal : (sharedPart proof other proof).length = (sharedPart proof other other).length) :
    Untipped proof other := by
  unfold Untipped
  omega

theorem isSome_firstCommon : (firstCommon proof other).isSome ↔ (lastCommon proof other).isSome := by
  unfold firstCommon lastCommon
  rw [List.find?_isSome, List.find?_isSome]
  simp

/-- Two proofs with a common header are compared by their headers above the first one. -/
theorem isBetterThan_iff_counts (valid : proof.isValid) (otherValid : other.isValid) (fit : HeightsFit proof)
    (otherFit : HeightsFit other) (meet : (lastCommon proof other).isSome) : proof.isBetterThan other ↔
      (sharedPart proof other other).length + (divergingPart proof other other).length <
        (sharedPart proof other proof).length + (divergingPart proof other proof).length := by
  obtain ⟨last, highest⟩ := Option.isSome_iff_exists.mp meet
  obtain ⟨first, lowest⟩ := Option.isSome_iff_exists.mp (isSome_firstCommon.mpr meet)
  have branches : (other.headersChain.find? fun h => (proof.headersChain.map Header.id).contains h.id) = some first :=
    lowest
  have le := first_le_last otherValid lowest highest
  unfold NipopowProof.isBetterThan sharedPart divergingPart
  rw [if_neg (by simp [valid]), if_neg (by simp [otherValid])]
  dsimp only
  rw [branches, lowest, highest]
  dsimp only [Option.map]
  rw [decide_eq_true_iff, score_lt_score valid otherValid fit otherFit, length_above le, length_above le]

theorem isBetterThan_of_apart (valid : proof.isValid) (otherValid : other.isValid)
    (apart : lastCommon proof other = none) : proof.isBetterThan other ↔ other.tipHeight < proof.tipHeight := by
  have unmet : ¬ (firstCommon proof other).isSome := by simp [isSome_firstCommon, apart]
  have branches : (other.headersChain.find? fun h => (proof.headersChain.map Header.id).contains h.id) = none :=
    Option.not_isSome_iff_eq_none.mp unmet
  unfold NipopowProof.isBetterThan
  rw [if_neg (by simp [valid]), if_neg (by simp [otherValid])]
  dsimp only
  rw [branches]
  exact decide_eq_true_iff

theorem tipHeight_eq : some proof.tipHeight = proof.headersChain.getLast?.map Header.height := by
  unfold NipopowProof.tipHeight NipopowProof.headersChain
  rw [List.getLast?_append, List.getLast?_cons]
  rfl

end Branching

/-! ### Replacing what is shared -/

section Replaced
variable {proof other proof' other' : NipopowProof}

/-- The same headers diverge from the last common one, if there is one at all. -/
structure SameDiverging (proof other proof' other' : NipopowProof) : Prop where
  meet : (lastCommon proof other).isSome ↔ (lastCommon proof' other').isSome
  this : divergingPart proof other proof = divergingPart proof' other' proof'
  that : divergingPart proof other other = divergingPart proof' other' other'

/-- Two pairs of valid proofs with the same diverging parts get the same verdict exactly when in both pairs, or
in neither, the shared headers tip the comparison. -/
theorem verdict_eq_iff (valid : proof.isValid) (otherValid : other.isValid) (valid' : proof'.isValid)
    (otherValid' : other'.isValid) (fit : HeightsFit proof) (otherFit : HeightsFit other) (fit' : HeightsFit proof')
    (otherFit' : HeightsFit other') (same : SameDiverging proof other proof' other') :
    proof.isBetterThan other = proof'.isBetterThan other' ↔ (Untipped proof other ↔ Untipped proof' other') := by
  rw [Bool.eq_iff_iff]
  by_cases meet : (lastCommon proof other).isSome
  · rw [isBetterThan_iff_counts valid otherValid fit otherFit meet,
      isBetterThan_iff_counts valid' otherValid' fit' otherFit' (same.meet.mp meet)]
    unfold Untipped
    rw [same.this, same.that]
    tauto
  · have apart : lastCommon proof other = none := Option.not_isSome_iff_eq_none.mp meet
    have apart' : lastCommon proof' other' = none := Option.not_isSome_iff_eq_none.mp fun met => meet (same.meet.mpr met)
    obtain ⟨-, this, that⟩ := same
    simp only [divergingPart, apart, apart'] at this that
    have tip : proof.tipHeight = proof'.tipHeight := by
      rw [← Option.some_inj, tipHeight_eq, tipHeight_eq, this]
    have otherTip : other.tipHeight = other'.tipHeight := by
      rw [← Option.some_inj, tipHeight_eq, tipHeight_eq, that]
    have untipped : Untipped proof other := untipped_of_equal (by simp [sharedPart, apart])
    have untipped' : Untipped proof' other' := untipped_of_equal (by simp [sharedPart, apart'])
    rw [isBetterThan_of_apart valid otherValid apart, isBetterThan_of_apart valid' otherValid' apart', tip, otherTip]
    exact iff_of_true Iff.rfl (iff_of_true untipped untipped')

end Replaced

/-! ### Samples -/

section Samples
open Sample

def header14 : Header := sampleHeader 14 13 4 easyBits
def header24 : Header := sampleHeader 24 13 4 easyBits

def fullProof (last : Header) : NipopowProof :=
  ⟨30, 1, [⟨header11, []⟩, ⟨header12, [header11.id]⟩, ⟨header13, [header11.id]⟩], ⟨last, [header11.id]⟩, []⟩

def thinnedProof (last : Header) : NipopowProof :=
  ⟨30, 1, [⟨header11, []⟩, ⟨header13, [header11.id]⟩], ⟨last, [header11.id]⟩, []⟩

/-- Both proofs leave the second header out. -/
theorem thinnedProof_sameVerdict : (fullProof header14).isBetterThan (fullProof header24) =
    (thinnedProof header14).isBetterThan (thinnedProof header24) :=
  (verdict_eq_iff (by decide) (by decide) (by decide) (by decide) (by unfold HeightsFit; decide)
    (by unfold HeightsFit; decide) (by unfold HeightsFit; decide) (by unfold HeightsFit; decide)
    ⟨by decide, by decide, by decide⟩).mpr (by unfold Untipped; decide)

theorem thinnedProof_tips : (fullProof header14).isValid ∧ (fullProof header24).isValid ∧
    (thinnedProof header24).isValid ∧
    SameDiverging (fullProof header14) (fullProof header24) (fullProof header14) (thinnedProof header24) ∧
    (fullProof header14).isBetterThan (fullProof header24) ≠ (fullProof header14).isBetterThan (thinnedProof header24) :=
  ⟨by decide, by decide, by decide, ⟨by decide, by decide, by decide⟩, by decide⟩

end Samples
end ErgoNode.Proof.Nipopow
