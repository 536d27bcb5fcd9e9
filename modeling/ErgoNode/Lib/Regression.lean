import Mathlib.Algebra.BigOperators.Group.List.Basic
import Mathlib.Algebra.BigOperators.Ring.List
import Mathlib.Algebra.Order.BigOperators.Group.List
import Mathlib.Tactic.Ring
import Mathlib.Tactic.Linarith

/-!
# Sums of a linear regression

The slope of a regression is a quotient of two sums over all pairs of points. Both are positive where the
points rise.
-/

namespace Lib.Regression

section Ring
variable {K : Type} [CommRing K]

/-- As many times the sum of the products as there are points, less the product of the sums. -/
def spread (points : List (K × K)) : K :=
  points.length * (points.map fun p => p.1 * p.2).sum - (points.map Prod.fst).sum * (points.map Prod.snd).sum

theorem sum_differences (p : K × K) (points : List (K × K)) :
    (points.map fun q => (q.1 - p.1) * (q.2 - p.2)).sum =
      (points.map fun q => q.1 * q.2).sum - (points.map Prod.fst).sum * p.2 - p.1 * (points.map Prod.snd).sum +
        points.length * (p.1 * p.2) := by
  induction points with
  | nil => simp
  | cons q rest ih =>
      simp only [List.map_cons, List.sum_cons, List.length_cons, Nat.cast_add, Nat.cast_one, ih]
      ring

theorem spread_cons (p : K × K) (points : List (K × K)) :
    spread (p :: points) = spread points + (points.map fun q => (q.1 - p.1) * (q.2 - p.2)).sum := by
  rw [sum_differences]
  simp only [spread, List.map_cons, List.sum_cons, List.length_cons, Nat.cast_add, Nat.cast_one]
  ring

theorem spread_map {L : Type} [CommRing L] (f : K →+* L) (points : List (K × K)) :
    spread (points.map fun p => (f p.1, f p.2)) = f (spread points) := by
  simp [spread, map_list_sum, List.map_map, Function.comp_def]

end Ring

section Order
variable {K : Type} [CommRing K] [LinearOrder K] [IsStrictOrderedRing K]

theorem spread_nonneg {points : List (K × K)} (rising : points.Pairwise fun p q => p.1 < q.1 ∧ p.2 < q.2) :
    0 ≤ spread points := by
  induction points with
  | nil => simp [spread]
  | cons p rest ih =>
      obtain ⟨above, later⟩ := List.pairwise_cons.mp rising
      rw [spread_cons]
      apply add_nonneg (ih later)
      apply List.sum_nonneg
      intro product member
      obtain ⟨q, mem, rfl⟩ := List.mem_map.mp member
      exact mul_nonneg (sub_nonneg.mpr (above q mem).1.le) (sub_nonneg.mpr (above q mem).2.le)

theorem spread_pos {points : List (K × K)} (rising : points.Pairwise fun p q => p.1 < q.1 ∧ p.2 < q.2)
    (two : 2 ≤ points.length) : 0 < spread points := by
  match points, two with
  | p :: q :: rest, _ =>
    obtain ⟨above, later⟩ := List.pairwise_cons.mp rising
    have first := above q List.mem_cons_self
    have others := spread_nonneg rising.of_cons
    have nonneg : 0 ≤ (rest.map fun r => (r.1 - p.1) * (r.2 - p.2)).sum := by
      apply List.sum_nonneg
      intro product member
      obtain ⟨r, mem, rfl⟩ := List.mem_map.mp member
      have beyond := above r (List.mem_cons_of_mem q mem)
      exact mul_nonneg (sub_nonneg.mpr beyond.1.le) (sub_nonneg.mpr beyond.2.le)
    have positive : 0 < (q.1 - p.1) * (q.2 - p.2) := mul_pos (sub_pos.mpr first.1) (sub_pos.mpr first.2)
    rw [spread_cons, List.map_cons, List.sum_cons]
    linarith

end Order
end Lib.Regression
