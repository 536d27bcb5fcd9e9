import Mathlib.Data.List.Sort

/-!
# Ordered sets

A set that is iterated in the order of a key. Elements with one key count as equal: an element is
not entered beside another one with its key, and any element with its key takes it out.
-/

namespace Lib
variable {A K : Type} [LinearOrder K]

structure SortedSet (key : A → K) where
  items : List A
  sorted : items.Pairwise fun a b => key a < key b

namespace SortedSet
variable {key : A → K} {a b x : A}

def enter (key : A → K) (a : A) : List A → List A
  | [] => [a]
  | b :: rest =>
      if key a < key b then a :: b :: rest
      else if key b < key a then b :: enter key a rest
      else b :: rest

theorem mem_of_mem_enter {items : List A} (member : x ∈ enter key a items) : x = a ∨ x ∈ items := by
  induction items with
  | nil => exact .inl (List.mem_singleton.mp member)
  | cons b rest ih =>
      rw [enter] at member
      split at member
      · simpa using member
      · split at member
        · cases member with
          | head => exact .inr List.mem_cons_self
          | tail _ later => exact (ih later).imp_right (List.mem_cons_of_mem b)
        · exact .inr member

theorem sorted_enter {items : List A} (sorted : items.Pairwise fun a b => key a < key b) :
    (enter key a items).Pairwise fun a b => key a < key b := by
  induction sorted with
  | nil => simp [enter]
  | @cons b rest first later ih =>
      rw [enter]
      split
      · next before =>
        refine .cons ?_ (.cons first later)
        intro c member
        cases member with
        | head => exact before
        | tail _ member => exact lt_trans before (first c member)
      · split
        · next after =>
          refine .cons ?_ ih
          intro c member
          rcases mem_of_mem_enter member with same | member
          · exact same ▸ after
          · exact first c member
        · exact .cons first later

theorem mem_enter {items : List A} (sorted : items.Pairwise fun a b => key a < key b)
    (fresh : ∀ b ∈ items, key b ≠ key a) : x ∈ enter key a items ↔ x = a ∨ x ∈ items := by
  refine ⟨mem_of_mem_enter, ?_⟩
  induction items with
  | nil => simp [enter]
  | cons b rest ih =>
      have others := ih sorted.of_cons fun c member => fresh c (List.mem_cons_of_mem b member)
      rw [enter]
      split
      · exact List.mem_cons.mpr
      · next upper =>
        rw [if_pos (lt_of_le_of_ne (not_lt.mp upper) (fresh b List.mem_cons_self))]
        rintro (same | member)
        · exact List.mem_cons_of_mem b (others (.inl same))
        · cases member with
          | head => exact List.mem_cons_self
          | tail _ member => exact List.mem_cons_of_mem b (others (.inr member))

def empty : SortedSet key := ⟨[], .nil⟩

variable (set : SortedSet key)

def insert (a : A) : SortedSet key := ⟨enter key a set.items, sorted_enter set.sorted⟩

def erase (a : A) : SortedSet key where
  items := set.items.filter fun b => key b ≠ key a
  sorted := set.sorted.filter _

def last? : Option A := set.items.getLast?

instance : Membership A (SortedSet key) := ⟨fun set a => a ∈ set.items⟩

instance [DecidableEq A] : Decidable (a ∈ set) := inferInstanceAs (Decidable (a ∈ set.items))

theorem mem_items : a ∈ set.items ↔ a ∈ set := Iff.rfl

@[simp] theorem not_mem_empty : ¬ a ∈ (empty : SortedSet key) := List.not_mem_nil

@[simp] theorem mem_erase : x ∈ set.erase a ↔ x ∈ set ∧ key x ≠ key a := by
  change x ∈ set.items.filter _ ↔ _
  rw [List.mem_filter, decide_eq_true_iff, mem_items]

variable {set}

theorem mem_insert (fresh : ∀ b ∈ set, key b ≠ key a) : x ∈ set.insert a ↔ x = a ∨ x ∈ set :=
  mem_enter set.sorted fresh

theorem ext_mem {other : SortedSet key} (same : ∀ a, a ∈ set ↔ a ∈ other) : set = other := by
  have irreflexive : Std.Irrefl fun a b => key a < key b := ⟨fun a => lt_irrefl (key a)⟩
  have equal := set.sorted.eq_of_mem_iff other.sorted fun {a} => same a
  cases set
  cases other
  congr

theorem mem_last? (last : set.last? = some a) : a ∈ set := List.mem_of_getLast? last

theorem last?_isSome (member : a ∈ set) : ∃ b, set.last? = some b :=
  ⟨_, List.getLast?_eq_some_getLast (List.ne_nil_of_mem member)⟩

theorem mem_before_iff {before after : List A} (split : set.items = before ++ b :: after) (member : a ∈ set) :
    a ∈ before ↔ key a < key b := by
  have sorted := set.sorted
  rw [split, List.pairwise_append, List.pairwise_cons] at sorted
  obtain ⟨-, ⟨later, -⟩, earlier⟩ := sorted
  constructor
  · intro here
    exact earlier a here b List.mem_cons_self
  · intro lower
    have placed : a ∈ before ++ b :: after := split ▸ member
    rcases List.mem_append.mp placed with here | rest
    · exact here
    · cases rest with
      | head => exact absurd lower (lt_irrefl _)
      | tail _ rest => exact absurd lower (lt_asymm (later a rest))

theorem length_le {key : A → Nat} (set : SortedSet key) {bound : Nat} (below : ∀ a ∈ set, key a < bound) :
    set.items.length ≤ bound := by
  have distinct : (set.items.map key).Nodup := List.pairwise_map.mpr (set.sorted.imp Nat.ne_of_lt)
  have inside : set.items.map key ⊆ List.range bound := by
    intro k member
    obtain ⟨a, inSet, rfl⟩ := List.mem_map.mp member
    exact List.mem_range.mpr (below a inSet)
  have le := (List.subperm_of_subset distinct inside).length_le
  rwa [List.length_map, List.length_range] at le

end SortedSet
end Lib
