import ErgoNode.Proof.Nipopow.Branching
import ErgoNode.Proof.Nipopow.Interlinks
import ErgoNode.Proof.Nipopow.Scores

/-!
# Proofs of an honest chain

The headers of a chain carry the interlinks they should. Which proofs made of them are accepted, whatever the
levels of the headers: between a header and the next one of the proof there may be only lower ones.
-/

namespace ErgoNode.Proof.Nipopow
open Lib

/-! ### Accepted proofs -/

theorem suffix_iff {k : Int32} {length : Nat} :
    ¬ k < 1 ∧ length = k.toInt64.toUInt64.toNat ↔ 1 ≤ k.toInt ∧ k.toInt = length := by
  have value := BitVec.toInt_eq_toNat_cond k.toInt64.toBitVec
  have below := k.toInt64.toBitVec.isLt
  rw [Int64.toInt_toBitVec, Int32.toInt_toInt64] at value
  have positive : k < 1 ↔ k.toInt < 1 := Int32.lt_iff_toInt_lt
  have same : k.toInt64.toUInt64.toNat = k.toInt64.toBitVec.toNat := rfl
  rw [positive, same]
  split at value <;> omega

theorem isValid_iff {proof : NipopowProof} : proof.isValid ↔
    proof.prefixHeaders ≠ [] ∧ (¬ proof.k < 1 ∧ 1 + proof.suffixTail.length = proof.k.toInt64.toUInt64.toNat) ∧
      proof.hasValidHeights ∧ proof.hasValidConnections := by
  rw [isValid_iff_validate, NipopowProof.validate]
  by_cases empty : proof.prefixHeaders = []
  · simp [empty]
  · by_cases small : proof.k < 1
    · simp [empty, small]
    · by_cases length : 1 + proof.suffixTail.length = proof.k.toInt64.toUInt64.toNat
      · by_cases heights : proof.hasValidHeights <;> simp [empty, small, length, heights]
      · simp [empty, small, length]

/-! ### Neighbours -/

theorem isChain_gapless {α : Type} [LinearOrder α] {list : List α} (ascending : list.Pairwise (· < ·)) :
    list.IsChain fun a b => a < b ∧ ∀ c ∈ list, a < c → b ≤ c := by
  rw [List.isChain_iff_getElem]
  intro i inside
  have less := List.pairwise_iff_getElem.mp ascending
  refine ⟨less i (i + 1) (by omega) inside (Nat.lt_succ_self i), fun c member above => ?_⟩
  obtain ⟨k, within, rfl⟩ := List.mem_iff_getElem.mp member
  rcases Nat.lt_or_ge i k with later | earlier
  · rcases Nat.eq_or_lt_of_le later with next | beyond
    · exact (getElem_congr_idx next).le
    · exact (less (i + 1) k inside within beyond).le
  · rcases Nat.eq_or_lt_of_le earlier with same | before
    · exact absurd above (by simp [same])
    · exact absurd above (less k i within (by omega) before).asymm

theorem isChain_and {α : Type} {R S : α → α → Prop} {list : List α} :
    list.IsChain (fun a b => R a b ∧ S a b) ↔ list.IsChain R ∧ list.IsChain S := by
  simp only [List.isChain_iff_getElem, forall_and]

/-! ### Honest chains -/

structure LeveledHeader where
  header : Header
  level : Nat
  deriving DecidableEq

def LeveledHeader.block (h : LeveledHeader) : LeveledBlock := ⟨h.header.id, h.level⟩

def Follows (parent child : LeveledHeader) : Prop :=
  child.header.parentId = parent.header.id ∧ child.header.height = parent.header.height + 1

structure LeveledChain where
  genesis : LeveledHeader
  blocks : List LeveledHeader
  linked : (genesis :: blocks).IsChain Follows
  distinct : ((genesis :: blocks).map fun h => h.header.id).Nodup

namespace LeveledChain
variable (chain : LeveledChain)

abbrev Position : Type := Fin (chain.blocks.length + 1)

def nth (i : chain.Position) : LeveledHeader := (chain.genesis :: chain.blocks)[i]

def popowHeader (i : chain.Position) : PoPowHeader :=
  if i = 0 then ⟨chain.genesis.header, []⟩
  else headerAfter (chain.nth i).header chain.genesis.block ((chain.blocks.take (i - 1)).map LeveledHeader.block)

def Linked (i j : chain.Position) : Prop :=
  i < j ∧ (i = 0 ∨ ∀ between, i < between → between < j → (chain.nth between).level < (chain.nth i).level)

variable {chain} {i j : chain.Position}

theorem header_popowHeader : (chain.popowHeader i).header = (chain.nth i).header := by
  unfold popowHeader
  split
  · next zero => exact zero ▸ rfl
  · rfl

theorem height_nth (i : chain.Position) : (chain.nth i).header.height = chain.genesis.header.height + i := by
  obtain ⟨i, inside⟩ := i
  induction i with
  | zero => rfl
  | succ i ih =>
      have step := List.isChain_iff_getElem.mp chain.linked i (by simpa using inside)
      have below := ih (by omega)
      unfold nth at below ⊢
      dsimp only [Fin.getElem_fin] at below ⊢
      rw [step.2, below, Nat.add_assoc]

theorem id_inj : (chain.nth i).header.id = (chain.nth j).header.id ↔ i = j := by
  refine ⟨fun same => Fin.ext ?_, fun same => same ▸ rfl⟩
  have inside (k : chain.Position) : k.val < ((chain.genesis :: chain.blocks).map fun h => h.header.id).length := by
    rw [List.length_map]
    exact k.isLt
  refine (@List.Nodup.getElem_inj_iff _ _ chain.distinct _ (inside i) _ (inside j)).mp ?_
  rw [List.getElem_map, List.getElem_map]
  exact same

theorem parentId_eq_iff (later : i.val < j.val) :
    (chain.nth j).header.parentId = (chain.nth i).header.id ↔ i.val + 1 = j.val := by
  have inside := j.isLt
  have positive : j.val - 1 + 1 = j.val := by omega
  have step := List.isChain_iff_getElem.mp chain.linked (j.val - 1) (by rw [List.length_cons]; omega)
  have parent : (chain.nth j).header.parentId = (chain.nth ⟨j.val - 1, by omega⟩).header.id := by
    simpa only [nth, Fin.getElem_fin, positive] using step.1
  rw [parent, id_inj, Fin.ext_iff]
  dsimp only
  omega

/-- The interlinks after the genesis id go to the headers that only lower ones came after. -/
theorem id_mem_table_iff (later : i.val < j.val) : (chain.nth i).header.id ∈
      latestTable LeveledBlock.level LeveledBlock.id ((chain.blocks.take (j - 1)).map LeveledHeader.block) ↔
    0 < i.val ∧ 0 < (chain.nth i).level ∧
      ∀ between, i < between → between < j → (chain.nth between).level < (chain.nth i).level := by
  have inside := j.isLt
  rw [mem_latestTable_iff]
  simp only [List.length_map, List.length_take, List.getElem_map, List.getElem_take]
  constructor
  · rintro ⟨p, within, same, positive, lower⟩
    obtain ⟨i, real⟩ := i
    obtain rfl : p + 1 = i := Fin.ext_iff.mp (id_inj (i := ⟨p + 1, by omega⟩).mp same)
    refine ⟨Nat.succ_pos p, positive, fun between above below => ?_⟩
    rw [Fin.lt_def] at above below
    have bound := lower (between - 1) (by omega) (by dsimp only at above; omega)
    obtain ⟨q, real⟩ := between
    obtain ⟨q, rfl⟩ := Nat.exists_eq_succ_of_ne_zero (n := q) (by dsimp only at above; omega)
    exact bound
  · rintro ⟨notGenesis, positive, lower⟩
    obtain ⟨i, real⟩ := i
    obtain ⟨p, rfl⟩ := Nat.exists_eq_succ_of_ne_zero notGenesis.ne'
    refine ⟨p, by dsimp only at later; omega, rfl, positive, fun q within above => ?_⟩
    exact lower ⟨q + 1, by omega⟩ (Nat.succ_lt_succ above) (by rw [Fin.lt_def]; dsimp only; omega)

theorem connectsTo_iff (later : i.val < j.val) :
    (chain.popowHeader j).connectsTo (chain.popowHeader i).id ↔ chain.Linked i j := by
  have notGenesis : j ≠ 0 := fun zero => by simp [zero] at later
  have interlinks : (chain.popowHeader j).interlinks = chain.genesis.header.id ::
      (latestTable LeveledBlock.level LeveledBlock.id ((chain.blocks.take (j - 1)).map LeveledHeader.block)).reverse := by
    rw [popowHeader, if_neg notGenesis, headerAfter, interlinksAfter_eq]
    rfl
  have genesis : (chain.nth i).header.id = chain.genesis.header.id ↔ i = 0 := id_inj (j := 0)
  have listed : (chain.popowHeader j).connectsTo (chain.popowHeader i).id ↔
      (chain.nth j).header.parentId = (chain.nth i).header.id ∨
        (chain.nth i).header.id ∈ (chain.popowHeader j).interlinks := by
    unfold PoPowHeader.connectsTo PoPowHeader.id
    rw [header_popowHeader, header_popowHeader]
    simp
  rw [listed, parentId_eq_iff later, interlinks, List.mem_cons, List.mem_reverse, id_mem_table_iff later,
    genesis]
  constructor
  · rintro (parent | zero | ⟨-, -, lower⟩)
    · refine ⟨later, .inr fun between above below => ?_⟩
      rw [Fin.lt_def] at above below
      omega
    · exact ⟨later, .inl zero⟩
    · exact ⟨later, .inr lower⟩
  · rintro ⟨-, zero | lower⟩
    · exact .inr (.inl zero)
    · rcases Nat.eq_or_lt_of_le later with parent | apart
      · exact .inl parent
      · by_cases zero : i = 0
        · exact .inr (.inl zero)
        · have next := lower ⟨i + 1, by omega⟩ (Nat.lt_succ_self _) apart
          exact .inr (.inr ⟨Nat.pos_of_ne_zero fun same => zero (Fin.ext same), Nat.zero_lt_of_lt next, lower⟩)

/-! ### Proofs of a chain -/

variable {m k : Int32} {selected tail : List chain.Position} {head : chain.Position}

def proofOf (chain : LeveledChain) (m k : Int32) (selected : List chain.Position) (head : chain.Position)
    (tail : List chain.Position) : NipopowProof :=
  ⟨m, k, selected.map chain.popowHeader, chain.popowHeader head, tail.map fun i => (chain.nth i).header⟩

theorem headersChain_proofOf : (chain.proofOf m k selected head tail).headersChain =
    (selected ++ head :: tail).map fun i => (chain.nth i).header := by
  simp [NipopowProof.headersChain, proofOf, header_popowHeader, Function.comp_def]

theorem hasValidHeights_proofOf : (chain.proofOf m k selected head tail).hasValidHeights ↔
    (selected ++ [head]).IsChain (fun i j => i.val < j.val) ∧ (head :: tail).IsChain fun i j => i.val < j.val := by
  have lower (i j : chain.Position) :
      (chain.nth i).header.height < (chain.nth j).header.height ↔ i.val < j.val := by
    rw [height_nth, height_nth]
    omega
  rw [NipopowProof.hasValidHeights, allNeighbours_iff, headersChain_proofOf, List.map_map, List.isChain_map]
  simp only [Function.comp_apply, decide_eq_true_eq, lower]
  exact List.isChain_split

theorem hasValidConnections_proofOf : (chain.proofOf m k selected head tail).hasValidConnections ↔
    ((selected ++ [head]).IsChain fun i j => (chain.popowHeader j).connectsTo (chain.popowHeader i).id) ∧
      (head :: tail).IsChain fun i j => (chain.nth j).header.parentId = (chain.nth i).header.id := by
  unfold NipopowProof.hasValidConnections
  rw [Bool.and_eq_true, Bool.and_eq_true, allNeighbours_iff, allNeighbours_iff, List.isChain_append]
  simp only [proofOf, header_popowHeader]
  rw [List.isChain_map, ← List.map_cons (f := fun i => (chain.nth i).header), List.isChain_map]
  have last : (selected.map chain.popowHeader).getLast?.all
        (fun lastPrefix => (chain.popowHeader head).connectsTo lastPrefix.id) ↔
      ∀ i ∈ selected.getLast?, ∀ j ∈ [head].head?, (chain.popowHeader j).connectsTo (chain.popowHeader i).id := by
    rw [List.getLast?_map]
    cases selected.getLast? <;> simp
  rw [last]
  simp [and_assoc]

theorem linked_iff {list : List chain.Position} : list.IsChain (fun i j => i.val < j.val) ∧
      (list.IsChain fun i j => (chain.popowHeader j).connectsTo (chain.popowHeader i).id) ↔
    list.IsChain chain.Linked := by
  rw [← isChain_and]
  refine List.IsChain.iff fun i j => ⟨fun both => (connectsTo_iff both.1).mp both.2, fun linked => ?_⟩
  exact ⟨linked.1, (connectsTo_iff linked.1).mpr linked⟩

theorem parents_iff {list : List chain.Position} : list.IsChain (fun i j => i.val < j.val) ∧
      (list.IsChain fun i j => (chain.nth j).header.parentId = (chain.nth i).header.id) ↔
    list.IsChain fun i j => i.val + 1 = j.val := by
  rw [← isChain_and]
  refine List.IsChain.iff fun i j => ⟨fun both => (parentId_eq_iff both.1).mp both.2, fun next => ?_⟩
  have later : i.val < j.val := Nat.lt_of_succ_le next.le
  exact ⟨later, (parentId_eq_iff later).mpr next⟩

theorem isValid_proofOf_iff : (chain.proofOf m k selected head tail).isValid ↔
    selected ≠ [] ∧ k.toInt = tail.length + 1 ∧ (selected ++ [head]).IsChain chain.Linked ∧
      (head :: tail).IsChain fun i j => i.val + 1 = j.val := by
  have counted : ¬ k < 1 ∧ 1 + tail.length = k.toInt64.toUInt64.toNat ↔ k.toInt = tail.length + 1 := by
    rw [suffix_iff]
    omega
  rw [isValid_iff, hasValidHeights_proofOf, hasValidConnections_proofOf, ← linked_iff, ← parents_iff, ← counted]
  simp only [proofOf, ne_eq, List.map_eq_nil_iff, List.length_map]
  tauto

/-! ### Superchains -/

def superchain (chain : LeveledChain) (threshold : chain.Position → Nat) (head : chain.Position) :
    List chain.Position :=
  ((List.finRange _).take head).filter fun i => i = 0 ∨ threshold i ≤ (chain.nth i).level

def superchainProof (chain : LeveledChain) (m k : Int32) (threshold : chain.Position → Nat) (head : chain.Position) :
    NipopowProof :=
  chain.proofOf m k (chain.superchain threshold head) head ((List.finRange _).drop (head + 1))

variable {threshold : chain.Position → Nat}

theorem mem_superchain : i ∈ chain.superchain threshold head ↔
    i < head ∧ (i = 0 ∨ threshold i ≤ (chain.nth i).level) := by
  unfold superchain
  rw [List.mem_filter, List.mem_take_iff_getElem, decide_eq_true_eq]
  refine and_congr_left fun _ => ⟨?_, fun before => ⟨i, ?_, ?_⟩⟩
  · rintro ⟨p, inside, rfl⟩
    rw [List.getElem_finRange, Fin.lt_def]
    exact (lt_min_iff.mp inside).1
  · rw [List.length_finRange]
    exact lt_min before i.isLt
  · exact List.getElem_finRange ..

theorem ascending_superchain : (chain.superchain threshold head ++ [head]).Pairwise (· < ·) := by
  rw [List.pairwise_append]
  refine ⟨?_, List.pairwise_singleton .., fun i member j here => ?_⟩
  · exact ((List.pairwise_lt_finRange _).sublist (List.take_sublist ..)).filter _
  · rw [List.mem_singleton.mp here]
    exact (mem_superchain.mp member).1

theorem le_of_mem (member : i ∈ chain.superchain threshold head ++ [head]) : i ≤ head := by
  rcases List.mem_append.mp member with chosen | last
  · exact (mem_superchain.mp chosen).1.le
  · exact (List.mem_singleton.mp last).le

theorem linked_superchain (falling : Antitone threshold) :
    (chain.superchain threshold head ++ [head]).IsChain chain.Linked := by
  refine (isChain_gapless ascending_superchain).imp_of_mem_imp fun i j member there both => ?_
  obtain ⟨later, gap⟩ := both
  have notLast : i ∈ chain.superchain threshold head := by
    refine (List.mem_append.mp member).resolve_right fun last => ?_
    exact absurd later (List.mem_singleton.mp last ▸ (le_of_mem there).not_gt)
  obtain ⟨-, genesis | high⟩ := mem_superchain.mp notLast
  · exact ⟨later, .inl genesis⟩
  · refine ⟨later, .inr fun between above below => ?_⟩
    -- A header between the two was left out, so that it is below its threshold and that of the earlier one.
    have left : ¬ threshold between ≤ (chain.nth between).level := fun taken =>
      absurd below (gap between (List.mem_append_left _
        (mem_superchain.mpr ⟨below.trans_le (le_of_mem there), .inr taken⟩)) above).not_gt
    exact ((Nat.not_le.mp left).trans_le (falling above.le)).trans_le high

theorem consecutive_tail : (head :: (List.finRange (chain.blocks.length + 1)).drop (head + 1)).IsChain
    fun i j => i.val + 1 = j.val := by
  have rest : head :: (List.finRange (chain.blocks.length + 1)).drop (head + 1) = (List.finRange _).drop head := by
    have inside : head.val < (List.finRange (chain.blocks.length + 1)).length := by
      rw [List.length_finRange]
      exact head.isLt
    rw [List.drop_eq_getElem_cons inside, List.getElem_finRange]
    rfl
  rw [rest]
  refine List.IsChain.drop ?_ head
  simp [List.isChain_iff_getElem]

theorem isValid_superchainProof (positive : head ≠ 0) (falling : Antitone threshold)
    (suffix : k.toInt = chain.blocks.length + 1 - head) : (chain.superchainProof m k threshold head).isValid := by
  have genesis : 0 ∈ chain.superchain threshold head := mem_superchain.mpr ⟨Fin.pos_of_ne_zero positive, .inl rfl⟩
  refine isValid_proofOf_iff.mpr ⟨List.ne_nil_of_mem genesis, ?_, linked_superchain falling, consecutive_tail⟩
  have inside := head.isLt
  rw [suffix, List.length_drop, List.length_finRange]
  omega

theorem genesisId_superchainProof (positive : head ≠ 0) :
    (chain.superchainProof m k threshold head).genesisId = some chain.genesis.header.id := by
  obtain ⟨before, same⟩ := Nat.exists_eq_succ_of_ne_zero (Fin.val_ne_zero_iff.mpr positive)
  have first : chain.superchain threshold head = 0 :: (chain.superchain threshold head).tail := by
    unfold superchain
    rw [same, List.finRange_succ, List.take_succ_cons, List.filter_cons_of_pos (by simp), List.tail_cons]
  unfold superchainProof proofOf NipopowProof.genesisId
  rw [first]
  rfl

theorem heightsFit_proofOf (fit : chain.genesis.header.height + chain.blocks.length < 2 ^ 32) :
    HeightsFit (chain.proofOf m k selected head tail) := by
  intro header member
  rw [headersChain_proofOf, List.mem_map] at member
  obtain ⟨i, -, rfl⟩ := member
  have inside := i.isLt
  rw [height_nth]
  omega

theorem length_headersChain_superchainProof :
    (chain.superchainProof m k threshold head).headersChain.length =
      (chain.superchain threshold head).length + (chain.blocks.length + 1 - head) := by
  have inside := head.isLt
  unfold superchainProof
  rw [headersChain_proofOf, List.length_map, List.length_append, List.length_cons, List.length_drop,
    List.length_finRange]
  omega

end LeveledChain

theorem chainScore_of_isValid {proof : NipopowProof} (valid : proof.isValid) (fit : HeightsFit proof) :
    chainScore proof = Int64.ofNat (proof.headersChain.length - 1) := by
  unfold chainScore
  rw [score_eq valid fit]
  have ordered := heights_of_isValid valid
  cases shape : proof.headersChain with
  | nil => rfl
  | cons first rest =>
      rw [shape, List.pairwise_cons] at ordered
      have higher : above first.height rest = rest := List.filter_eq_self.mpr fun header member => by
        simpa using ordered.1 header member
      have kept : above first.height (first :: rest) = rest := by
        rw [above, List.filter_cons_of_neg (by simp)]
        exact higher
      rw [List.head?_cons, Option.map_some, Option.getD_some, kept, List.length_cons, Nat.add_sub_cancel]

section Superchains
open LeveledChain
variable {chain : LeveledChain} {m k : Int32} {threshold : chain.Position → Nat} {head : chain.Position}
  {selected tail : List chain.Position} {proofs : List NipopowProof}

end Superchains

/-! ### Samples -/

section Samples
open Sample

/-- Of the headers after the genesis header the second is of the first level. -/
def leveledChain : LeveledChain where
  genesis := ⟨header11, 0⟩
  blocks := [⟨header12, 0⟩, ⟨header13, 1⟩, ⟨header14, 0⟩]
  linked := by unfold Follows; decide
  distinct := by decide

end Samples
end ErgoNode.Proof.Nipopow
