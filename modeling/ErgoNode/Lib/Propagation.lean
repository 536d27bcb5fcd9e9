import Mathlib.Algebra.BigOperators.Group.Finset.Sigma
import Mathlib.Algebra.BigOperators.Group.Finset.Piecewise
import Mathlib.Data.Finset.Lattice.Fold

/-!
# Sums over a dependency graph

Every node of a graph has a value of its own, and its weight is to be that value plus the weights of
its children. When a node enters or leaves, the weights of its ancestors are corrected by one delta
for every path that leads up to them.
-/

namespace Lib.Propagation
open Finset
variable {A : Type}

/-! ### Graphs without cycles -/

def Within (parents : A → Finset A) : Nat → A → Prop
  | 0, _ => False
  | n + 1, x => ∀ p ∈ parents x, Within parents n p

section Within
variable {nodes : Finset A} {parents parents' : A → Finset A} {m n : Nat} {x a : A}

theorem Within.mono (within : Within parents m a) (le : m ≤ n) : Within parents n a := by
  induction m generalizing n a with
  | zero => exact within.elim
  | succ m ih =>
      obtain ⟨n, rfl⟩ := Nat.exists_eq_add_of_le' (Nat.zero_lt_of_lt le)
      intro p member
      exact ih (within p member) (Nat.le_of_succ_le_succ le)

theorem Within.of_subset (within : Within parents n a) (fewer : ∀ c, parents' c ⊆ parents c) :
    Within parents' n a := by
  induction n generalizing a with
  | zero => exact within.elim
  | succ n ih =>
      intro p member
      exact ih (within p (fewer a member))

theorem Within.enter [DecidableEq A] (within : Within parents m a) (start : Within parents' n x)
    (more : ∀ c ≠ x, parents' c ⊆ insert x (parents c)) : ∃ k, Within parents' k a := by
  refine ⟨m + n, ?_⟩
  induction m generalizing a with
  | zero => exact within.elim
  | succ m ih =>
      by_cases same : a = x
      · subst same
        exact start.mono (Nat.le_add_left n (m + 1))
      · rw [Nat.add_right_comm]
        intro p member
        rcases Finset.mem_insert.mp (more a same member) with rfl | old
        · exact start.mono (Nat.le_add_left n m)
        · exact ih (within p old)

/-- From the children to their parents: in a finite graph without cycles what holds of a node
once it holds of its children holds of every node. -/
theorem descend {P : A → Prop} (acyclic : ∀ a ∈ nodes, ∃ n, Within parents n a)
    (step : ∀ a ∈ nodes, (∀ c ∈ nodes, a ∈ parents c → P c) → P a) : ∀ a ∈ nodes, P a := by
  classical
  let depth (a : A) : Nat := if h : ∃ n, Within parents n a then Nat.find h else 0
  have deeper : ∀ c ∈ nodes, ∀ a ∈ parents c, depth a < depth c := by
    intro c member a above
    have ends := acyclic c member
    have spec := Nat.find_spec ends
    simp only [depth, dif_pos ends]
    cases found : Nat.find ends with
    | zero => exact (found ▸ spec : Within parents 0 c).elim
    | succ n =>
        rw [found] at spec
        have short := spec a above
        rw [dif_pos ⟨n, short⟩]
        exact Nat.lt_succ_of_le (Nat.find_min' _ short)
  have bounded : ∀ k, ∀ a ∈ nodes, nodes.sup depth - depth a < k → P a := by
    intro k
    induction k with
    | zero => exact fun a _ impossible => absurd impossible (Nat.not_lt_zero _)
    | succ k ih =>
        intro a member small
        refine step a member fun c child above => ih c child ?_
        have less := deeper c child a above
        have most := Finset.le_sup (f := depth) child
        omega
  exact fun a member => bounded _ a member (Nat.lt_succ_self _)

end Within

/-! ### Weights -/

variable {M : Type} [DecidableEq A]

/-- The weights add up: each node weighs its own value and what its children weigh. -/
def Balanced [AddCommMonoid M] (nodes : Finset A) (parents : A → Finset A) (own weight : A → M) : Prop :=
  ∀ a ∈ nodes, weight a = own a + ∑ c ∈ nodes with a ∈ parents c, weight c

theorem Balanced.congr [AddCommMonoid M] {nodes : Finset A} {parents parents' : A → Finset A}
    {own own' weight weight' : A → M} (balanced : Balanced nodes parents own weight)
    (same : ∀ a ∈ nodes, parents' a = parents a ∧ own' a = own a ∧ weight' a = weight a) :
    Balanced nodes parents' own' weight' := by
  intro a member
  rw [(same a member).2.1, (same a member).2.2, balanced a member]
  congr 1
  have kept : nodes.filter (fun c => a ∈ parents' c) = nodes.filter (fun c => a ∈ parents c) :=
    filter_congr fun c here => by rw [(same c here).1]
  rw [kept]
  exact sum_congr rfl fun c here => ((same c (mem_filter.mp here).1).2.2).symm

/-- What the nodes gain when `delta` goes to the parents of `x`, to their parents, and so on, at most
`n` steps up. -/
def spread [AddCommMonoid M] (parents : A → Finset A) (delta : M) : Nat → A → A → M
  | 0, _, _ => 0
  | n + 1, x, a => ∑ p ∈ parents x, ((if a = p then delta else 0) + spread parents delta n p a)

section Spread
variable [AddCommMonoid M] {nodes : Finset A} {parents : A → Finset A} {delta : M} {n : Nat} {x : A}

theorem spread_eq (closed : ∀ c, parents c ⊆ nodes) (within : Within parents n x) (a : A) :
    spread parents delta n x a =
      (if a ∈ parents x then delta else 0) + ∑ c ∈ nodes with a ∈ parents c, spread parents delta n x c := by
  induction n generalizing x with
  | zero => exact within.elim
  | succ n ih =>
      have below : ∀ p ∈ parents x, spread parents delta n p a =
          (∑ c ∈ nodes with a ∈ parents c, if c = p then delta else 0) +
            ∑ c ∈ nodes with a ∈ parents c, spread parents delta n p c := by
        intro p member
        rw [ih (within p member)]
        congr 1
        rw [sum_ite_eq']
        simp [closed x member]
      have here : (∑ p ∈ parents x, if a = p then delta else 0) = if a ∈ parents x then delta else 0 :=
        sum_ite_eq _ _ _
      calc spread parents delta (n + 1) x a
          = (∑ p ∈ parents x, if a = p then delta else 0) + ∑ p ∈ parents x, spread parents delta n p a :=
            sum_add_distrib
        _ = (if a ∈ parents x then delta else 0) + ∑ p ∈ parents x, ∑ c ∈ nodes with a ∈ parents c,
              ((if c = p then delta else 0) + spread parents delta n p c) := by
            rw [here]
            congr 1
            apply sum_congr rfl
            intro p member
            rw [below p member, sum_add_distrib]
        _ = _ := by
            rw [sum_comm]
            rfl

/-- Spreading makes up for what the parents of `x` are short of. -/
theorem balanced_spread {own weight : A → M} (closed : ∀ c, parents c ⊆ nodes) (within : Within parents n x)
    (short : ∀ a ∈ nodes, weight a + (if a ∈ parents x then delta else 0) =
      own a + ∑ c ∈ nodes with a ∈ parents c, weight c) :
    Balanced nodes parents own fun a => weight a + spread parents delta n x a := by
  intro a member
  dsimp only
  rw [sum_add_distrib, spread_eq closed within a, ← add_assoc, short a member, add_assoc]

theorem spread_eq_zero {a : A} (childless : ∀ c, a ∉ parents c) : spread parents delta n x a = 0 := by
  induction n generalizing x with
  | zero => rfl
  | succ n ih =>
      apply sum_eq_zero
      intro p member
      rw [ih, add_zero]
      apply if_neg
      rintro rfl
      exact childless x member

end Spread

theorem spread_neg [AddCommGroup M] {parents : A → Finset A} {delta : M} {n : Nat} {x a : A} :
    spread parents (-delta) n x a = -spread parents delta n x a := by
  induction n generalizing x with
  | zero => exact neg_zero.symm
  | succ n ih =>
      rw [spread, spread, ← sum_neg_distrib]
      apply sum_congr rfl
      intro p _
      rw [ih]
      split <;> simp [add_comm]

theorem Balanced.insert [AddCommMonoid M] {nodes : Finset A} {parents parents' : A → Finset A}
    {own weight : A → M} {n : Nat} {x : A} (balanced : Balanced nodes parents own weight)
    (fresh : x ∉ nodes) (entered : weight x = own x)
    (same : ∀ a ∈ nodes, ∀ c ∈ nodes, a ∈ parents' c ↔ a ∈ parents c) (loopless : x ∉ parents' x)
    (childless : ∑ c ∈ nodes with x ∈ parents' c, weight c = 0)
    (closed : ∀ c, parents' c ⊆ insert x nodes) (within : Within parents' n x) :
    Balanced (Insert.insert x nodes) parents' own fun a => weight a + spread parents' (own x) n x a := by
  apply balanced_spread closed within
  intro a member
  rw [sum_filter, sum_insert fresh, ← sum_filter]
  rcases mem_insert.mp member with rfl | old
  · rw [if_neg loopless, if_neg loopless, childless, entered, zero_add]
  · have kept : nodes.filter (fun c => a ∈ parents' c) = nodes.filter (fun c => a ∈ parents c) :=
      filter_congr fun c here => same a old c here
    rw [kept, balanced a old, entered, add_comm (ite _ _ _), add_assoc]

theorem Balanced.erase [AddCommGroup M] {nodes : Finset A} {parents parents' : A → Finset A}
    {own weight : A → M} {n : Nat} {x : A} (balanced : Balanced nodes parents own weight) (present : x ∈ nodes)
    (same : ∀ a ∈ nodes.erase x, ∀ c ∈ nodes, a ∈ parents' c ↔ a ∈ parents c)
    (closed : ∀ c, parents' c ⊆ nodes.erase x) (within : Within parents' n x) :
    Balanced (nodes.erase x) parents' own fun a => weight a + spread parents' (-weight x) n x a := by
  apply balanced_spread closed within
  intro a member
  have before := balanced a (mem_of_mem_erase member)
  have kept : nodes.filter (fun c => a ∈ parents' c) = nodes.filter (fun c => a ∈ parents c) :=
    filter_congr fun c here => same a member c here
  rw [← kept, sum_filter, ← add_sum_erase nodes _ present, ← sum_filter] at before
  rw [before]
  split <;> simp [add_comm, add_left_comm]

end Lib.Propagation
