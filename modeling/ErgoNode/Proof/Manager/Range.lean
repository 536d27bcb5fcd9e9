import ErgoNode.Proof.Manager.Epochs

/-!
# The range of the parameters

An extension carries its parameters as signed numbers, and they are taken over as unsigned ones. They stay
below 2³¹ as long as none that counts is negative.
-/

namespace ErgoNode.Proof.Manager
open Lib VotedParameters

/-! ### What an extension votes for -/

section Fields
variable {params next parsed : Extension.ParameterTable} {field : ExtensionField} {fields : List ExtensionField}
variable {paramId : UInt8}

/-- Fields under other keys are passed over. -/
def IsVote (field : ExtensionField) : Prop :=
  field.key.1 = Extension.systemParamsPrefix ∧ field.key.2 < Extension.softForkParams

instance : DecidablePred IsVote := fun _ => inferInstanceAs (Decidable (_ ∧ _))

def VotesFit (fields : List ExtensionField) : Prop := ∀ field ∈ fields, IsVote field → field.value.length = 4

/-- Of several votes for one parameter the last counts. -/
def lastVote (fields : List ExtensionField) (paramId : UInt8) : Option Bytes :=
  (fields.filter fun field => field.key = (Extension.systemParamsPrefix, paramId)).getLast?.map ExtensionField.value

theorem addParameter_eq_ok : Extension.addParameter params field = .ok next ↔
    (IsVote field → field.value.length = 4) ∧
      next = if IsVote field then params.insert field.key.2 (Extension.i32FromBeBytes field.value) else params := by
  unfold Extension.addParameter IsVote
  dsimp only
  by_cases system : field.key.1 = Extension.systemParamsPrefix
  · rw [if_neg (not_not.mpr system)]
    by_cases fork : field.key.2 ≥ Extension.softForkParams
    · simp [fork, UInt8.not_lt.mpr fork, eq_comm]
    · have vote : field.key.2 < Extension.softForkParams := UInt8.not_le.mp fork
      by_cases four : field.value.length = 4
      · simp [system, fork, vote, four, eq_comm]
      · simp [system, fork, vote, four]
  · simp [system, eq_comm]

theorem lastVote_append_singleton : lastVote (fields ++ [field]) paramId =
    if field.key = (Extension.systemParamsPrefix, paramId) then some field.value else lastVote fields paramId := by
  unfold lastVote
  rw [List.filter_append, List.filter_singleton]
  by_cases same : field.key = (Extension.systemParamsPrefix, paramId) <;> simp [same]

theorem votesFit_append_singleton : VotesFit (fields ++ [field]) ↔
    VotesFit fields ∧ (IsVote field → field.value.length = 4) := by
  simp [VotesFit, or_imp, forall_and]

theorem lookup_added (below : paramId < Extension.softForkParams)
    (known : params.lookup paramId = (lastVote fields paramId).map Extension.i32FromBeBytes) :
    (if IsVote field then params.insert field.key.2 (Extension.i32FromBeBytes field.value) else params).lookup paramId =
      (lastVote (fields ++ [field]) paramId).map Extension.i32FromBeBytes := by
  rw [lastVote_append_singleton]
  by_cases same : field.key = (Extension.systemParamsPrefix, paramId)
  · have vote : IsVote field := by
      rw [IsVote, same]
      exact ⟨rfl, below⟩
    rw [if_pos vote, if_pos same, same, AList.lookup_insert]
    rfl
  · rw [if_neg same, ← known]
    split
    · next vote =>
        refine AList.lookup_insert_ne fun named => same ?_
        rw [Prod.ext_iff]
        exact ⟨vote.1, named.symm⟩
    · rfl

theorem foldlM_addParameter (fields : List ExtensionField) :
    (∀ parsed, fields.foldlM Extension.addParameter ∅ = .ok parsed → VotesFit fields ∧
      ∀ paramId < Extension.softForkParams,
        parsed.lookup paramId = (lastVote fields paramId).map Extension.i32FromBeBytes) ∧
    (VotesFit fields → ∃ parsed, fields.foldlM Extension.addParameter ∅ = .ok parsed) := by
  induction fields using List.reverseRecOn with
  | nil =>
      refine ⟨fun parsed done => ?_, fun _ => ⟨∅, rfl⟩⟩
      cases done
      exact ⟨nofun, fun _ _ => rfl⟩
  | append_singleton fields field ih =>
      obtain ⟨sound, complete⟩ := ih
      have split (parsed : Extension.ParameterTable) :
          (fields ++ [field]).foldlM Extension.addParameter ∅ = .ok parsed ↔
            ∃ params, fields.foldlM Extension.addParameter ∅ = .ok params ∧
              Extension.addParameter params field = .ok parsed := by
        rw [List.foldlM_append, Except.bind_ok_eq_ok]
        simp [List.foldlM_cons]
      refine ⟨fun parsed done => ?_, fun fit => ?_⟩
      · obtain ⟨params, first, last⟩ := (split parsed).mp done
        obtain ⟨fit, rfl⟩ := addParameter_eq_ok.mp last
        obtain ⟨earlier, known⟩ := sound params first
        exact ⟨votesFit_append_singleton.mpr ⟨earlier, fit⟩, fun _ below => lookup_added below (known _ below)⟩
      · obtain ⟨earlier, here⟩ := votesFit_append_singleton.mp fit
        obtain ⟨params, first⟩ := complete earlier
        exact ⟨_, (split _).mpr ⟨params, first, addParameter_eq_ok.mpr ⟨here, rfl⟩⟩⟩

end Fields

/-! ### Signs -/

def Negative (value : Bytes) : Prop := ∃ byte ∈ value.head?, 128 ≤ byte

/-- Widened to 64 bits a negative number is a large one. -/
theorem widened_bmod_lt_iff {n : Nat} (small : n < 2 ^ 32) :
    ((Int.ofNat n).bmod (2 ^ 32) % 2 ^ 64).toNat < 2 ^ 31 ↔ n < 2 ^ 31 := by
  have word : ((2 ^ 32 : Nat) : Int) = 4294967296 := by norm_num
  rw [Int.bmod_def, word, Int.ofNat_eq_natCast]
  split <;> omega

theorem widened_lt_iff {value : Bytes} (four : value.length = 4) :
    (Extension.i32FromBeBytes value % 2 ^ 64).toNat < 2 ^ 31 ↔ ¬ Negative value := by
  obtain ⟨a, b, c, d, rfl⟩ := List.length_eq_four.mp four
  have first := a.toNat_lt
  have second := b.toNat_lt
  have third := c.toNat_lt
  have fourth := d.toNat_lt
  have sign : Negative [a, b, c, d] ↔ 128 ≤ a.toNat := by
    simp [Negative, UInt8.le_iff_toNat_le]
  have number : BigEndian.read [a, b, c, d] = ((a.toNat * 256 + b.toNat) * 256 + c.toNat) * 256 + d.toNat := by
    simp only [BigEndian.read, List.foldl_cons, List.foldl_nil, Nat.zero_mul, Nat.zero_add]
  have small : BigEndian.read [a, b, c, d] < 2 ^ 32 := by omega
  have widened := widened_bmod_lt_iff small
  rw [sign]
  refine widened.trans ?_
  omega

/-! ### Runs -/

section Range
variable {params : VotedParameters} {vote : Nat × Extension}

def foldExtension (params : VotedParameters) (vote : Nat × Extension) : VotedParameters :=
  match vote.2.parseParameters with
  | .ok parsed => fromExtension vote.1 parsed params
  | .error _ => params

def InRange (params : VotedParameters) : Prop := ∀ field ∈ parameterFields, field.2 params < 2 ^ 31

/-- If its votes are read at all, none that counts for one of the parameters is negative. -/
def NoneNegative (extension : Extension) : Prop :=
  VotesFit extension.fields → ∀ field ∈ parameterFields, ∀ value ∈ lastVote extension.fields field.1, ¬ Negative value

theorem below_softFork {field : UInt8 × (VotedParameters → Nat)} (member : field ∈ parameterFields) :
    field.1 < Extension.softForkParams := by
  simp only [parameterFields, List.mem_cons, List.not_mem_nil, or_false] at member
  rcases member with rfl | rfl | rfl | rfl | rfl | rfl | rfl | rfl <;> decide

theorem lastVote_length {fields : List ExtensionField} {paramId : UInt8} {value : Bytes} (fit : VotesFit fields)
    (below : paramId < Extension.softForkParams) (last : value ∈ lastVote fields paramId) : value.length = 4 := by
  obtain ⟨field, found, rfl⟩ := Option.map_eq_some_iff.mp last
  obtain ⟨member, key⟩ := List.mem_filter.mp (List.mem_of_getLast? found)
  rw [decide_eq_true_iff] at key
  refine fit field member ?_
  rw [IsVote, key]
  exact ⟨rfl, below⟩

theorem inRange_foldExtension_iff (inRange : InRange params) :
    InRange (foldExtension params vote) ↔ NoneNegative vote.2 := by
  obtain ⟨sound, complete⟩ := foldlM_addParameter vote.2.fields
  unfold foldExtension
  cases parsing : vote.2.parseParameters with
  | error message =>
      refine iff_of_true inRange fun fit => ?_
      obtain ⟨parsed, done⟩ := complete fit
      rw [Extension.parseParameters, done] at parsing
      cases parsing
  | ok parsed =>
      obtain ⟨fit, known⟩ := sound parsed parsing
      unfold NoneNegative
      rw [forall_prop_of_true fit]
      refine forall₂_congr fun field member => ?_
      have below := below_softFork member
      dsimp only
      rw [field_fromExtension member, votedOr, known field.1 below]
      cases last : lastVote vote.2.fields field.1 with
      | none =>
          have kept := inRange field member
          simpa using kept
      | some value => simpa using widened_lt_iff (lastVote_length fit below last)

/-- The parameters stay in their range throughout exactly when no extension votes for a negative one. -/
theorem inRange_iff (votes : List (Nat × Extension)) :
    (∀ before, before <+: votes → InRange (before.foldl foldExtension VotedParameters.default)) ↔
      ∀ vote ∈ votes, NoneNegative vote.2 := by
  induction votes using List.reverseRecOn with
  | nil =>
      refine iff_of_true (fun before prefixed => ?_) nofun
      rw [List.prefix_nil.mp prefixed]
      unfold InRange
      decide
  | append_singleton votes vote ih =>
      have last : (∀ before, before <+: votes ++ [vote] → InRange (before.foldl foldExtension default)) ↔
          (∀ before, before <+: votes → InRange (before.foldl foldExtension default)) ∧
            InRange ((votes ++ [vote]).foldl foldExtension default) := by
        simp only [List.prefix_concat_iff, or_imp, forall_and, forall_eq]
        exact and_comm
      rw [last, ih, List.foldl_append, List.foldl_cons, List.foldl_nil, List.forall_mem_append, List.forall_mem_singleton]
      refine and_congr_right fun earlier => ?_
      exact inRange_foldExtension_iff (ih.mpr earlier votes (List.prefix_refl votes))

end Range

/-! ### Samples -/

def negativeVote : Extension := ⟨.zero, [⟨(0, 4), [255, 255, 255, 255]⟩]⟩

theorem negativeVote_not_inRange : ¬ ∀ before, before <+: [(1024, negativeVote)] →
    InRange (before.foldl foldExtension VotedParameters.default) := by
  intro inRange
  have cost := inRange _ (List.prefix_refl _) (ParamIds.maxBlockCost, (·.maxBlockCost)) (by simp [parameterFields])
  exact absurd cost (by decide)

end ErgoNode.Proof.Manager
