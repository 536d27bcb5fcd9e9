import ErgoNode.Chain.Types
import ErgoNode.Proof.Sample
import Mathlib.Logic.Function.Iterate

/-!
# The headers of a run

A table gives the header of each id. In a tree every header is one above its parent, so a header
has one ancestor at each height below it.
-/

namespace ErgoNode.Proof.History

structure HeaderTable where
  header : BlockId → Header
  id_header : ∀ id, (header id).id = id

def difficulty (table : HeaderTable) (id : BlockId) : Nat :=
  nbitsToDifficulty (table.header id).nBits

def height (table : HeaderTable) (id : BlockId) : Nat := (table.header id).height

def parent (table : HeaderTable) (id : BlockId) : BlockId := (table.header id).parentId

structure HeaderTree extends HeaderTable where
  root : BlockId
  height_parent : ∀ id, 0 < height toHeaderTable id →
    height toHeaderTable (parent toHeaderTable id) + 1 = height toHeaderTable id
  height_root : ∀ id, height toHeaderTable id = 1 → id = root

namespace HeaderTree
variable (tree : HeaderTree)

def ancestor (n : Nat) (id : BlockId) : BlockId := (parent tree.toHeaderTable)^[n] id

def pathWork : Nat → BlockId → Nat
  | 0, _ => 0
  | n + 1, id => difficulty tree.toHeaderTable id + pathWork n (parent tree.toHeaderTable id)

def totalWork (id : BlockId) : Nat := tree.pathWork (height tree.toHeaderTable id) id

def workAboveRoot (id : BlockId) : Nat :=
  tree.pathWork (max 1 (height tree.toHeaderTable id - 1)) id

variable {tree} {id : BlockId}

theorem workAboveRoot_of_low (low : height tree.toHeaderTable id ≤ 2) :
    tree.workAboveRoot id = difficulty tree.toHeaderTable id := by
  rw [workAboveRoot, Nat.max_eq_left (by omega)]
  rfl

theorem workAboveRoot_of_high (high : 2 < height tree.toHeaderTable id) :
    tree.workAboveRoot id = difficulty tree.toHeaderTable id +
      tree.workAboveRoot (parent tree.toHeaderTable id) := by
  have below := tree.height_parent id (by omega)
  have steps : max 1 (height tree.toHeaderTable id - 1) =
      max 1 (height tree.toHeaderTable (parent tree.toHeaderTable id) - 1) + 1 := by omega
  rw [workAboveRoot, workAboveRoot, steps]
  rfl

theorem totalWork_of_pos (positive : 0 < height tree.toHeaderTable id) :
    tree.totalWork id = difficulty tree.toHeaderTable id +
      tree.totalWork (parent tree.toHeaderTable id) := by
  rw [totalWork, totalWork, ← tree.height_parent id positive]
  rfl

theorem totalWork_root (one : height tree.toHeaderTable id = 1) :
    tree.totalWork id = difficulty tree.toHeaderTable tree.root := by
  have below := tree.height_parent id (by omega)
  have zero : height tree.toHeaderTable (parent tree.toHeaderTable id) = 0 := by omega
  rw [totalWork_of_pos (by omega), totalWork, zero, pathWork, tree.height_root id one, Nat.add_zero]

theorem totalWork_eq (high : 2 ≤ height tree.toHeaderTable id) :
    tree.totalWork id = tree.workAboveRoot id + difficulty tree.toHeaderTable tree.root := by
  obtain ⟨n, same⟩ : ∃ n, height tree.toHeaderTable id = n + 2 := ⟨_, (Nat.sub_add_cancel high).symm⟩
  induction n generalizing id with
  | zero =>
      have below := tree.height_parent id (by omega)
      rw [totalWork_of_pos (by omega), totalWork_root (by omega), workAboveRoot_of_low (by omega)]
  | succ n ih =>
      have below := tree.height_parent id (by omega)
      have lower := @ih (parent tree.toHeaderTable id) (by omega) (by omega)
      rw [totalWork_of_pos (by omega), workAboveRoot_of_high (by omega), lower, Nat.add_assoc]

theorem workAboveRoot_le {other : BlockId} (high : 2 ≤ height tree.toHeaderTable id)
    (positive : 0 < height tree.toHeaderTable other) (le : tree.totalWork id ≤ tree.totalWork other) :
    tree.workAboveRoot id ≤ tree.workAboveRoot other := by
  rw [totalWork_eq high] at le
  rcases Nat.lt_or_ge 1 (height tree.toHeaderTable other) with above | root
  · rw [totalWork_eq above] at le
    exact Nat.le_of_add_le_add_right le
  · rw [totalWork_root (by omega)] at le
    omega

theorem workAboveRoot_ancestor_le {n : Nat} (high : n + 2 ≤ height tree.toHeaderTable id) :
    tree.workAboveRoot (tree.ancestor n id) ≤ tree.workAboveRoot id := by
  induction n generalizing id with
  | zero => exact Nat.le_refl _
  | succ n ih =>
      have below := tree.height_parent id (by omega)
      have above : tree.workAboveRoot id = _ := workAboveRoot_of_high (by omega)
      have lower := @ih (parent tree.toHeaderTable id) (by omega)
      rw [ancestor, Function.iterate_succ_apply, above]
      exact Nat.le_trans lower (Nat.le_add_left _ _)

end HeaderTree

/-! ### The sample tree -/

def sampleHeaders : List Header :=
  [Sample.header11, Sample.header12, Sample.header13, Sample.header22, Sample.header23]

def sampleHeaderOf (id : BlockId) : Header :=
  (sampleHeaders.find? (·.id = id)).getD { Sample.sampleHeader 0 0 0 Sample.easyBits with id }

theorem sampleHeaderOf_cases (id : BlockId) :
    (sampleHeaderOf id ∈ sampleHeaders ∨ (sampleHeaderOf id).height = 0) ∧
      (sampleHeaderOf id).id = id := by
  rw [sampleHeaderOf]
  cases found : sampleHeaders.find? (·.id = id) with
  | none => exact ⟨.inr rfl, rfl⟩
  | some header =>
      exact ⟨.inl (List.mem_of_find?_eq_some found), by simpa using List.find?_some found⟩

def sampleTree : HeaderTree where
  header := sampleHeaderOf
  id_header id := (sampleHeaderOf_cases id).2
  root := Sample.header11.id
  height_parent id above := by
    have each : ∀ header ∈ sampleHeaders, (sampleHeaderOf header.parentId).height + 1 = header.height := by
      decide
    rcases (sampleHeaderOf_cases id).1 with known | zero
    · exact each _ known
    · exact absurd zero (Nat.ne_of_gt above)
  height_root id one := by
    have each : ∀ header ∈ sampleHeaders, header.height = 1 → header.id = Sample.header11.id := by
      decide
    rcases sampleHeaderOf_cases id with ⟨known | zero, same⟩
    · rw [← same]
      exact each _ known one
    · exact absurd (zero.symm.trans one) (by decide)

end ErgoNode.Proof.History
