import Mathlib.Data.Nat.Find
import Mathlib.Logic.Function.Iterate

/-!
# Forests with levels

Every node above the bottom is one level above its parent, so it has one ancestor on each level below
it. Two nodes over one bottom node share their ancestors up to the level of their last common one.
-/

namespace Lib

structure Forest (N : Type) where
  parent : N → N
  level : N → Nat
  level_parent : ∀ n, 0 < level n → level (parent n) + 1 = level n

namespace Forest
variable {N : Type} (forest : Forest N)

/-- The ancestor of a node on a level, for levels up to its own. -/
def on (k : Nat) (n : N) : N := forest.parent^[forest.level n - k] n

/-- A node is an ancestor of itself. -/
def IsAncestor (a n : N) : Prop := forest.level a ≤ forest.level n ∧ forest.on (forest.level a) n = a

structure LastCommon (fork a b : N) : Prop where
  left : forest.IsAncestor fork a
  right : forest.IsAncestor fork b
  last : ∀ c, forest.IsAncestor c a → forest.IsAncestor c b → forest.level c ≤ forest.level fork

instance [DecidableEq N] (a n : N) : Decidable (forest.IsAncestor a n) := inferInstanceAs (Decidable (_ ∧ _))

/-- The highest level on which two nodes have the same ancestor. -/
def forkLevel [DecidableEq N] (a b : N) : Nat :=
  Nat.findGreatest (fun k => forest.on k a = forest.on k b) (min (forest.level a) (forest.level b))

variable {forest} {a b n fork : N} {j k : Nat}

@[simp] theorem on_level (n : N) : forest.on (forest.level n) n = n := by
  rw [on, Nat.sub_self]
  rfl

theorem on_parent (low : k < forest.level n) : forest.on k (forest.parent n) = forest.on k n := by
  have below := forest.level_parent n (by omega)
  have steps : forest.level n - k = forest.level (forest.parent n) - k + 1 := by omega
  rw [on, on, steps, Function.iterate_succ_apply]

theorem level_on (low : k ≤ forest.level n) : forest.level (forest.on k n) = k := by
  induction same : forest.level n - k generalizing n with
  | zero =>
      obtain rfl : k = forest.level n := by omega
      rw [on_level]
  | succ m ih =>
      have below := forest.level_parent n (by omega)
      rw [← on_parent (by omega)]
      exact ih (by omega) (by omega)

theorem on_on (below : j ≤ k) (low : k ≤ forest.level n) : forest.on j (forest.on k n) = forest.on j n := by
  have steps : forest.level n - j = k - j + (forest.level n - k) := by omega
  rw [on, level_on low, on, on, steps, Function.iterate_add_apply]

theorem on_eq_of_le (below : j ≤ k) (left : k ≤ forest.level a) (right : k ≤ forest.level b)
    (meet : forest.on k a = forest.on k b) : forest.on j a = forest.on j b := by
  rw [← on_on below left, ← on_on below right, meet]

theorem isAncestor_on (low : k ≤ forest.level n) : forest.IsAncestor (forest.on k n) n := by
  rw [IsAncestor, level_on low]
  exact ⟨low, rfl⟩

variable [DecidableEq N]

theorem forkLevel_le : forest.forkLevel a b ≤ forest.level a ∧ forest.forkLevel a b ≤ forest.level b :=
  Nat.le_min.mp (Nat.findGreatest_le _)

theorem le_forkLevel (left : k ≤ forest.level a) (right : k ≤ forest.level b)
    (meet : forest.on k a = forest.on k b) : k ≤ forest.forkLevel a b :=
  Nat.le_findGreatest (Nat.le_min.mpr ⟨left, right⟩) meet

theorem on_forkLevel (bottom : forest.on 0 a = forest.on 0 b) :
    forest.on (forest.forkLevel a b) a = forest.on (forest.forkLevel a b) b :=
  Nat.findGreatest_spec (P := fun k => forest.on k a = forest.on k b) (Nat.zero_le _) bottom

theorem lastCommon_forkLevel (bottom : forest.on 0 a = forest.on 0 b) :
    forest.LastCommon (forest.on (forest.forkLevel a b) b) a b where
  left := by
    rw [← on_forkLevel bottom]
    exact isAncestor_on forkLevel_le.1
  right := isAncestor_on forkLevel_le.2
  last c left right := by
    rw [level_on forkLevel_le.2]
    exact le_forkLevel left.1 right.1 (left.2.trans right.2.symm)

theorem LastCommon.level_eq (common : forest.LastCommon fork a b) (bottom : forest.on 0 a = forest.on 0 b) :
    forest.level fork = forest.forkLevel a b := by
  have spec := lastCommon_forkLevel bottom
  have above := common.last _ spec.left spec.right
  have below := spec.last _ common.left common.right
  rw [level_on forkLevel_le.2] at above below
  exact Nat.le_antisymm below above

end Forest
end Lib
