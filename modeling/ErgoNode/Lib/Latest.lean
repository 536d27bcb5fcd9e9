import Mathlib.Data.List.Infix
import Mathlib.Order.MinMax

/-!
# The latest element of a rank

Elements of various ranks arrive one after the other. A table holds for each rank the latest element
of at least that rank: a new element of rank `n` goes over the first `n` entries of the table.
-/

namespace Lib
variable {α β : Type} (rank : α → Nat) (value : α → β)

def latest (items : List α) (n : Nat) : Option α := (items.filter fun a => n ≤ rank a).getLast?

def highest (items : List α) : Nat := (items.map rank).foldl max 0

def overlay (n : Nat) (b : β) (table : List β) : List β := List.replicate n b ++ table.drop n

def latestTable (items : List α) : List β := items.foldl (fun table a => overlay (rank a) (value a) table) []

variable {rank value} {items : List α} {a : α} {n i : Nat}

theorem latest_append_singleton : latest rank (items ++ [a]) n = if n ≤ rank a then some a else latest rank items n := by
  unfold latest
  rw [List.filter_append, List.filter_singleton]
  by_cases high : n ≤ rank a <;> simp [high]

theorem highest_append_singleton : highest rank (items ++ [a]) = max (highest rank items) (rank a) := by
  simp [highest]

theorem latest_eq_some_iff : latest rank items n = some a ↔
    ∃ before after, items = before ++ a :: after ∧ n ≤ rank a ∧ ∀ b ∈ after, rank b < n := by
  induction items using List.reverseRecOn with
  | nil => simp [latest]
  | append_singleton items last ih =>
      rw [latest_append_singleton]
      by_cases high : n ≤ rank last
      · rw [if_pos high]
        constructor
        · rintro ⟨⟩
          exact ⟨items, [], rfl, high, List.forall_mem_nil _⟩
        · rintro ⟨before, after, shape, -, lower⟩
          cases after using List.reverseRecOn with
          | nil => exact congrArg some (List.head_eq_of_cons_eq (List.append_inj_right' shape rfl))
          | append_singleton after final =>
              rw [← List.cons_append, ← List.append_assoc] at shape
              have same := List.head_eq_of_cons_eq (List.append_inj_right' shape rfl)
              exact absurd (lower final (by simp)) (Nat.not_lt.mpr (same ▸ high))
      · rw [if_neg high, ih]
        constructor
        · rintro ⟨before, after, rfl, here, lower⟩
          refine ⟨before, after ++ [last], by simp, here, fun b member => ?_⟩
          rcases List.mem_append.mp member with old | new
          · exact lower b old
          · exact List.mem_singleton.mp new ▸ Nat.not_le.mp high
        · rintro ⟨before, after, shape, here, lower⟩
          cases after using List.reverseRecOn with
          | nil =>
              have same := List.head_eq_of_cons_eq (List.append_inj_right' shape rfl)
              exact absurd (same ▸ here) high
          | append_singleton after final =>
              rw [← List.cons_append, ← List.append_assoc] at shape
              exact ⟨before, after, List.append_inj_left' shape rfl, here,
                fun b member => lower b (List.mem_append_left _ member)⟩

theorem isSome_latest : (latest rank items (n + 1)).isSome ↔ n < highest rank items := by
  induction items using List.reverseRecOn with
  | nil => simp [latest, highest]
  | append_singleton items last ih =>
      rw [latest_append_singleton, highest_append_singleton, lt_max_iff, ← ih]
      by_cases high : n + 1 ≤ rank last
      · rw [if_pos high]
        exact ⟨fun _ => .inr high, fun _ => rfl⟩
      · rw [if_neg high]
        exact ⟨.inl, fun either => either.resolve_right high⟩

theorem le_highest (member : a ∈ items) : rank a ≤ highest rank items := by
  induction items using List.reverseRecOn with
  | nil => cases member
  | append_singleton items last ih =>
      rw [highest_append_singleton]
      rcases List.mem_append.mp member with old | new
      · exact (ih old).trans (le_max_left ..)
      · exact List.mem_singleton.mp new ▸ le_max_right ..

theorem latest_of_le {m : Nat} (found : latest rank items n = some a) (le : n ≤ m) (high : m ≤ rank a) :
    latest rank items m = some a := by
  obtain ⟨before, after, shape, -, lower⟩ := latest_eq_some_iff.mp found
  exact latest_eq_some_iff.mpr ⟨before, after, shape, high, fun b member => (lower b member).trans_le le⟩

theorem getElem?_overlay (b : β) (table : List β) : (overlay n b table)[i]? = if i < n then some b else table[i]? := by
  unfold overlay
  by_cases low : i < n
  · rw [if_pos low, List.getElem?_append_left (by simpa using low), List.getElem?_replicate, if_pos low]
  · rw [if_neg low, List.getElem?_append_right (by simpa using low), List.getElem?_drop, List.length_replicate,
      Nat.add_sub_of_le (Nat.not_lt.mp low)]

theorem latestTable_append_singleton :
    latestTable rank value (items ++ [a]) = overlay (rank a) (value a) (latestTable rank value items) := by
  simp [latestTable]

theorem getElem?_latestTable : (latestTable rank value items)[i]? = (latest rank items (i + 1)).map value := by
  induction items using List.reverseRecOn with
  | nil => rfl
  | append_singleton items last ih =>
      rw [latestTable_append_singleton, getElem?_overlay, latest_append_singleton, ih]
      by_cases high : i < rank last
      · rw [if_pos high, if_pos (Nat.succ_le_of_lt high)]
        rfl
      · rw [if_neg high, if_neg fun above => high (Nat.lt_of_succ_le above)]

theorem length_latestTable : (latestTable rank value items).length = highest rank items := by
  refine eq_of_forall_lt_iff fun i => ?_
  have filled : (latestTable rank value items)[i]?.isSome ↔ i < highest rank items := by
    rw [getElem?_latestTable, Option.isSome_map, isSome_latest]
  rw [← filled]
  simp

/-- The table holds the elements that only lower ones came after. -/
theorem mem_latestTable_iff {b : β} : b ∈ latestTable rank value items ↔
    ∃ i, ∃ inside : i < items.length, value items[i] = b ∧ 0 < rank items[i] ∧
      ∀ j, ∀ within : j < items.length, i < j → rank items[j] < rank items[i] := by
  rw [List.mem_iff_getElem?]
  simp only [getElem?_latestTable, Option.map_eq_some_iff, latest_eq_some_iff]
  constructor
  · rintro ⟨n, a, ⟨before, after, rfl, high, lower⟩, same⟩
    have inside : before.length < (before ++ a :: after).length := by simp
    have here : (before ++ a :: after)[before.length] = a := by simp
    refine ⟨before.length, inside, by rw [here]; exact same, by rw [here]; omega, fun j within later => ?_⟩
    have there : (before ++ a :: after)[j] ∈ after := by
      rw [List.getElem_append_right later.le, List.getElem_cons, dif_neg (by omega)]
      exact List.getElem_mem ..
    have bound := lower _ there
    rw [here]
    omega
  · rintro ⟨i, inside, same, positive, lower⟩
    refine ⟨rank items[i] - 1, items[i], ⟨items.take i, items.drop (i + 1), ?_, by omega, fun c member => ?_⟩, same⟩
    · rw [List.getElem_cons_drop, List.take_append_drop]
    · obtain ⟨k, within, rfl⟩ := List.mem_iff_getElem.mp member
      rw [List.getElem_drop]
      rw [List.length_drop] at within
      have bound := lower (i + 1 + k) (by omega) (by omega)
      omega

end Lib
