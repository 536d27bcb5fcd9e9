import ErgoNode.Consensus.Nipopow
import ErgoNode.Lib.Latest
import Mathlib.Data.List.Nodup

/-!
# Interlinks along a chain

Read from the end, the interlinks of a block without the genesis id are the table of the latest blocks
of each level.
-/

namespace ErgoNode.Proof.Nipopow
open Lib

structure LeveledBlock where
  id : BlockId
  level : Nat
  deriving DecidableEq

def interlinksAfter (genesis : LeveledBlock) (blocks : List LeveledBlock) : List BlockId :=
  blocks.foldl (fun links block => updateInterlinks block.id block.level links false)
    (updateInterlinks genesis.id genesis.level [] true)

section Interlinks
variable {genesis : LeveledBlock} {blocks : List LeveledBlock}

theorem updateInterlinks_cons (block : LeveledBlock) (genesisId : BlockId) (table : List BlockId) :
    updateInterlinks block.id block.level (genesisId :: table.reverse) false =
      genesisId :: (overlay block.level block.id table).reverse := by
  unfold updateInterlinks overlay
  rw [if_neg Bool.false_ne_true, List.reverse_append, List.reverse_replicate]
  dsimp only
  rw [List.length_reverse]
  by_cases zero : block.level = 0
  · simp [zero]
  · rw [if_neg zero]
    by_cases longer : table.length > block.level
    · rw [if_pos longer, ← List.reverse_drop]
    · rw [if_neg longer, List.drop_of_length_le (Nat.not_lt.mp longer)]
      rfl

theorem interlinksAfter_eq : interlinksAfter genesis blocks =
    genesis.id :: (latestTable LeveledBlock.level LeveledBlock.id blocks).reverse := by
  unfold interlinksAfter
  induction blocks using List.reverseRecOn with
  | nil => rfl
  | append_singleton blocks block ih =>
      rw [List.foldl_append, ih, latestTable_append_singleton]
      exact updateInterlinks_cons block genesis.id _

/-- The interlinks start with the genesis id and have one more entry for each level up to the highest one
seen; counted from the end, the `i`-th of these is the id of the latest block of level `i` or more. -/
theorem interlinksAfter_spec (genesis : LeveledBlock) (blocks : List LeveledBlock) :
    (interlinksAfter genesis blocks).head? = some genesis.id ∧
      (interlinksAfter genesis blocks).length - 1 = (blocks.map LeveledBlock.level).foldl max 0 ∧
      ∀ i, 1 ≤ i → i < (interlinksAfter genesis blocks).length →
        ∃ before block after, blocks = before ++ block :: after ∧ i ≤ block.level ∧
          (∀ later ∈ after, later.level < i) ∧
          (interlinksAfter genesis blocks)[(interlinksAfter genesis blocks).length - i]? = some block.id := by
  have length : (latestTable LeveledBlock.level LeveledBlock.id blocks).length = highest LeveledBlock.level blocks :=
    length_latestTable
  rw [interlinksAfter_eq, List.length_cons, List.length_reverse, length]
  refine ⟨rfl, rfl, fun i positive inside => ?_⟩
  obtain ⟨j, rfl⟩ := Nat.exists_eq_add_of_le' positive
  have below : j < highest LeveledBlock.level blocks := Nat.lt_of_succ_lt_succ inside
  obtain ⟨block, found⟩ := Option.isSome_iff_exists.mp (isSome_latest.mpr below)
  obtain ⟨before, after, shape, high, lower⟩ := latest_eq_some_iff.mp found
  refine ⟨before, block, after, shape, high, lower, ?_⟩
  have position : highest LeveledBlock.level blocks + 1 - (j + 1) = highest LeveledBlock.level blocks - 1 - j + 1 := by
    omega
  rw [position, List.getElem?_cons_succ, List.getElem?_reverse (by omega), length]
  have index : highest LeveledBlock.level blocks - 1 - (highest LeveledBlock.level blocks - 1 - j) = j := by omega
  rw [index, getElem?_latestTable, found]
  rfl

end Interlinks

end ErgoNode.Proof.Nipopow

/-!
### Looking up interlinks

Interlinks are written with the highest level next to the genesis id and are read with the lowest one
there.
-/

namespace ErgoNode.Proof.Nipopow
open Lib

section Lookup
variable {genesis : LeveledBlock} {blocks : List LeveledBlock} {header : Header} {level : Nat}

def headerAfter (header : Header) (genesis : LeveledBlock) (blocks : List LeveledBlock) : PoPowHeader :=
  ⟨header, interlinksAfter genesis blocks⟩

abbrev latestBlock (blocks : List LeveledBlock) (level : Nat) : Option LeveledBlock :=
  latest LeveledBlock.level blocks level

abbrev highestLevel (blocks : List LeveledBlock) : Nat := highest LeveledBlock.level blocks

theorem latestBlock_eq_none (above : highestLevel blocks < level) : latestBlock blocks level = none := by
  obtain ⟨below, rfl⟩ := Nat.exists_eq_succ_of_ne_zero (Nat.ne_zero_of_lt above)
  refine Option.not_isSome_iff_eq_none.mp fun some => ?_
  exact Nat.not_le_of_lt above (isSome_latest.mp some)

/-- What is found at a level belongs to the level as far from the other end. -/
theorem interlinkAt_headerAfter (positive : 1 ≤ level) (inside : level ≤ highestLevel blocks) :
    (headerAfter header genesis blocks).interlinkAt level =
      (latestBlock blocks (highestLevel blocks + 1 - level)).map LeveledBlock.id := by
  obtain ⟨i, rfl⟩ := Nat.exists_eq_add_of_le' positive
  have length : (latestTable LeveledBlock.level LeveledBlock.id blocks).length = highestLevel blocks :=
    length_latestTable
  have position : highestLevel blocks - 1 - i + 1 = highestLevel blocks + 1 - (i + 1) := by omega
  rw [PoPowHeader.interlinkAt, headerAfter, interlinksAfter_eq, List.getElem?_cons_succ,
    List.getElem?_reverse (by omega), getElem?_latestTable, length, position]

theorem interlinkAt_eq_none (above : highestLevel blocks < level) :
    (headerAfter header genesis blocks).interlinkAt level = none := by
  have length : (latestTable LeveledBlock.level LeveledBlock.id blocks).length = highestLevel blocks :=
    length_latestTable
  rw [PoPowHeader.interlinkAt, headerAfter, interlinksAfter_eq, List.getElem?_eq_none]
  rw [List.length_cons, List.length_reverse, length]
  exact above

theorem interlinkAt_eq_latest_iff :
    (∀ level, 1 ≤ level →
        (headerAfter header genesis blocks).interlinkAt level = (latestBlock blocks level).map LeveledBlock.id) ↔
      ∀ level, 1 ≤ level → level ≤ highestLevel blocks →
        (latestBlock blocks (highestLevel blocks + 1 - level)).map LeveledBlock.id =
          (latestBlock blocks level).map LeveledBlock.id := by
  constructor
  · intro found level positive inside
    rw [← found level positive, interlinkAt_headerAfter positive inside]
  · intro symmetric level positive
    rcases Nat.lt_or_ge (highestLevel blocks) level with above | inside
    · rw [interlinkAt_eq_none above, latestBlock_eq_none above, Option.map_none]
    · rw [interlinkAt_headerAfter positive inside, symmetric level positive inside]

theorem symmetric_of_last (last : ∀ block ∈ latestBlock blocks 1, block.level = highestLevel blocks)
    (positive : 1 ≤ level) (inside : level ≤ highestLevel blocks) :
    latestBlock blocks (highestLevel blocks + 1 - level) = latestBlock blocks level := by
  obtain ⟨block, found⟩ := Option.isSome_iff_exists.mp (isSome_latest.mpr (positive.trans inside))
  have top := last block found
  rw [latestBlock, latestBlock, latest_of_le found positive (top ▸ inside), latest_of_le found (by omega) (by omega)]

theorem last_of_symmetric (distinct : (blocks.map LeveledBlock.id).Nodup)
    (symmetric : ∀ level, 1 ≤ level → level ≤ highestLevel blocks →
      (latestBlock blocks (highestLevel blocks + 1 - level)).map LeveledBlock.id =
        (latestBlock blocks level).map LeveledBlock.id) :
    ∀ block ∈ latestBlock blocks 1, block.level = highestLevel blocks := by
  intro block found
  obtain ⟨before, after, shape, low, -⟩ := latest_eq_some_iff.mp found
  have member : block ∈ blocks := shape ▸ List.mem_append_right before List.mem_cons_self
  have under : block.level ≤ highestLevel blocks := le_highest member
  have ends := symmetric 1 le_rfl (low.trans under)
  rw [Nat.add_sub_cancel, found, Option.map_some] at ends
  obtain ⟨top, atTop, same⟩ := Option.map_eq_some_iff.mp ends
  obtain ⟨before', after', shape', high, -⟩ := latest_eq_some_iff.mp atTop
  have member' : top ∈ blocks := shape' ▸ List.mem_append_right before' List.mem_cons_self
  rw [List.inj_on_of_nodup_map distinct member' member same] at high
  exact under.antisymm high

end Lookup

theorem interlinkAt_iff (header : Header) (genesis : LeveledBlock) (blocks : List LeveledBlock) :
    ((∀ level, 1 ≤ level →
        (headerAfter header genesis blocks).interlinkAt level = (latestBlock blocks level).map LeveledBlock.id) ↔
      ∀ level, 1 ≤ level → level ≤ highestLevel blocks →
        (latestBlock blocks (highestLevel blocks + 1 - level)).map LeveledBlock.id =
          (latestBlock blocks level).map LeveledBlock.id) ∧
    ((blocks.map LeveledBlock.id).Nodup →
      ((∀ level, 1 ≤ level →
          (headerAfter header genesis blocks).interlinkAt level = (latestBlock blocks level).map LeveledBlock.id) ↔
        ∀ block ∈ latestBlock blocks 1, block.level = highestLevel blocks)) := by
  refine ⟨interlinkAt_eq_latest_iff, fun distinct => interlinkAt_eq_latest_iff.trans ?_⟩
  refine ⟨last_of_symmetric distinct, fun last level positive inside => ?_⟩
  rw [symmetric_of_last last positive inside]

def descendingBlocks : List LeveledBlock := [⟨.filled 1, 2⟩, ⟨.filled 2, 1⟩]

theorem interlinkAt_descending : ¬ ∀ level, 1 ≤ level →
    (headerAfter genesisParentHeader ⟨.zero, 0⟩ descendingBlocks).interlinkAt level =
      (latestBlock descendingBlocks level).map LeveledBlock.id := by
  intro found
  exact absurd (found 1 le_rfl) (by decide)

end ErgoNode.Proof.Nipopow
