import Mathlib.Data.List.MinMax

/-!
# First maxima of a growing list

`List.argmax` is the first element of maximal value. A list that grows keeps it as long as nothing
new is above it, and an element of strictly maximal value is it.
-/

namespace Lib
variable {α β : Type} [LinearOrder β] {f : α → β} {items more : List α} {best : α}

section Argmax
variable [DecidableEq α]

theorem argmax_append_of_le (chosen : items.argmax f = some best) (le : ∀ a ∈ more, f a ≤ f best) :
    (items ++ more).argmax f = some best := by
  obtain ⟨member, maximal, first⟩ := List.argmax_eq_some_iff.mp chosen
  refine List.argmax_eq_some_iff.mpr ⟨List.mem_append_left _ member, ?_, ?_⟩
  · intro a here
    rcases List.mem_append.mp here with old | new
    · exact maximal a old
    · exact le a new
  · intro a here equal
    rw [List.idxOf_append_of_mem member]
    by_cases old : a ∈ items
    · rw [List.idxOf_append_of_mem old]
      exact first a old equal
    · rw [List.idxOf_append_of_notMem old]
      exact (List.idxOf_lt_length_of_mem member).le.trans (Nat.le_add_right _ _)

theorem argmax_eq_of_lt (member : best ∈ items) (lt : ∀ a ∈ items, a ≠ best → f a < f best) :
    items.argmax f = some best := by
  have strict : ∀ a ∈ items, f best ≤ f a → a = best := by
    intro a here le
    by_contra other
    exact (lt a here other).not_ge le
  refine List.argmax_eq_some_iff.mpr ⟨member, ?_, ?_⟩
  · intro a here
    by_cases same : a = best
    · rw [same]
    · exact (lt a here same).le
  · intro a here equal
    rw [strict a here equal]

end Argmax

/-! ### Keeping the best so far -/

def better (f : α → β) (best a : α) : α := if f best < f a then a else best

section Better
variable {front : List α} {a last : α}

theorem le_better (f : α → β) (best a : α) : f best ≤ f (better f best a) ∧ f a ≤ f (better f best a) := by
  unfold better
  split
  · next lt => exact ⟨lt.le, le_rfl⟩
  · next le => exact ⟨le_rfl, not_lt.mp le⟩

theorem le_foldl_better (f : α → β) (best : α) (items : List α) : f best ≤ f (items.foldl (better f) best) := by
  induction items generalizing best with
  | nil => exact le_rfl
  | cons a rest ih => exact (le_better f best a).1.trans (ih _)

theorem le_foldl_better_of_mem (member : a ∈ items) : f a ≤ f (items.foldl (better f) best) := by
  induction items generalizing best with
  | nil => cases member
  | cons first rest ih =>
      rcases List.mem_cons.mp member with rfl | later
      · exact (le_better f best a).2.trans (le_foldl_better f _ rest)
      · exact ih later

theorem foldl_better_cases (f : α → β) (best : α) (items : List α) :
    items.foldl (better f) best = best ∨ items.foldl (better f) best ∈ items := by
  induction items generalizing best with
  | nil => exact .inl rfl
  | cons first rest ih =>
      rw [List.foldl_cons]
      rcases ih (better f best first) with same | member
      · rw [same]
        unfold better
        split
        · exact .inr List.mem_cons_self
        · exact .inl rfl
      · exact .inr (List.mem_cons_of_mem _ member)

theorem foldl_better_of_le (le : ∀ a ∈ items, f a ≤ f best) : items.foldl (better f) best = best := by
  induction items with
  | nil => rfl
  | cons first rest ih =>
      have same : better f best first = best := if_neg (not_lt.mpr (le first List.mem_cons_self))
      rw [List.foldl_cons, same]
      exact ih fun a member => le a (List.mem_cons_of_mem _ member)

theorem foldl_better_of_lt (above : f best < f last) (lower : ∀ a ∈ front, f a < f last) :
    (front ++ [last]).foldl (better f) best = last := by
  have before : f (front.foldl (better f) best) < f last := by
    rcases foldl_better_cases f best front with old | member
    · rw [old]
      exact above
    · exact lower _ member
  rw [List.foldl_append, List.foldl_cons, List.foldl_nil, better, if_pos before]

/-- Offering every element comes to offering the last one exactly when the last one is above everything
else or nothing is above the best so far. -/
theorem foldl_better_concat_iff (other : last ∉ front) :
    (front ++ [last]).foldl (better f) best = better f best last ↔
      (f best < f last ∧ ∀ a ∈ front, f a < f last) ∨ ∀ a ∈ front ++ [last], f a ≤ f best := by
  constructor
  · intro same
    by_cases above : f best < f last
    · have taken : better f best last = last := if_pos above
      refine .inl ⟨above, fun a member => lt_of_le_of_ne ?_ ?_⟩
      · rw [← taken, ← same]
        exact le_foldl_better_of_mem (List.mem_append_left _ member)
      · -- an earlier element as good as the last one stays the best
        intro equal
        rw [taken, List.foldl_append, List.foldl_cons, List.foldl_nil] at same
        have kept : better f (front.foldl (better f) best) last = front.foldl (better f) best :=
          if_neg (not_lt.mpr (equal ▸ le_foldl_better_of_mem member))
        rw [kept] at same
        rcases foldl_better_cases f best front with old | inFront
        · rw [← old, same] at above
          exact absurd above (lt_irrefl _)
        · rw [same] at inFront
          exact absurd inFront other
    · have light : better f best last = best := if_neg above
      rw [light] at same
      refine .inr fun a member => ?_
      rw [← same]
      exact le_foldl_better_of_mem member
  · intro decided
    rcases decided with ⟨above, lower⟩ | light
    · rw [foldl_better_of_lt above lower, better, if_pos above]
    · rw [foldl_better_of_le light, better, if_neg (not_lt.mpr (light last (by simp)))]

theorem foldl_better_concat_iff_of_le (other : last ∉ front) (rises : ∀ a ∈ front, f a ≤ f last) :
    (front ++ [last]).foldl (better f) best = better f best last ↔
      (f best < f last → ∀ a ∈ front, f a < f last) := by
  rw [foldl_better_concat_iff other]
  constructor
  · intro decided above
    rcases decided with ⟨-, lower⟩ | light
    · exact lower
    · exact absurd above (not_lt.mpr (light last (by simp)))
  · intro decides
    by_cases above : f best < f last
    · exact .inl ⟨above, decides above⟩
    · refine .inr fun a member => ?_
      rcases List.mem_append.mp member with inFront | single
      · exact (rises a inFront).trans (not_lt.mp above)
      · rw [List.mem_singleton.mp single]
        exact not_lt.mp above

end Better
end Lib
