import Mathlib.Algebra.GroupWithZero.Nat
import Mathlib.Data.List.AList

/-!
# Hash maps

What an insertion and an erasure do to the list of all entries, for sums and other views that go
through them.
-/

namespace Lib

abbrev Table (K V : Type) := AList fun _ : K => V

/-- The order in which a hash map hands out its entries; nothing is promised about it. -/
structure Iteration (K V : Type) where
  entries : Table K V → List (K × V)
  perm : ∀ table, (entries table).Perm (table.entries.map fun entry => (entry.1, entry.2))

end Lib

namespace Lib.Entries
variable {K V : Type} [DecidableEq K] {map : AList fun _ : K => V} {k j : K} {v w : V}

theorem mem_iff : k ∈ map ↔ ∃ v, map.lookup k = some v := by
  rw [← AList.lookup_isSome, Option.isSome_iff_exists]

theorem mem_keys_iff : k ∈ map.keys ↔ ∃ v, map.lookup k = some v := by
  rw [← AList.mem_keys, mem_iff]

theorem lookup_insert_iff : (map.insert k v).lookup j = some w ↔
    (j = k ∧ w = v) ∨ (j ≠ k ∧ map.lookup j = some w) := by
  by_cases same : j = k
  · subst same
    simp [eq_comm]
  · simp [same, AList.lookup_insert_ne]

theorem forall_lookup_insert {P : V → Prop} (new : P v) (old : ∀ j w, map.lookup j = some w → P w) :
    ∀ j w, (map.insert k v).lookup j = some w → P w := by
  intro j w there
  rcases lookup_insert_iff.mp there with ⟨-, rfl⟩ | ⟨-, kept⟩
  · exact new
  · exact old j w kept

theorem apart_insert {B : Type} {mark : V → B} (new : ∀ j w, map.lookup j = some w → mark w = mark v → j = k)
    (old : ∀ i j u w, map.lookup i = some u → map.lookup j = some w → mark u = mark w → i = j) (i j : K) (u w : V)
    (there : (map.insert k v).lookup i = some u) (here : (map.insert k v).lookup j = some w)
    (same : mark u = mark w) : i = j := by
  rcases lookup_insert_iff.mp there with ⟨rfl, rfl⟩ | ⟨-, first⟩
  · rcases lookup_insert_iff.mp here with ⟨rfl, rfl⟩ | ⟨-, second⟩
    · rfl
    · exact (new j w second same.symm).symm
  · rcases lookup_insert_iff.mp here with ⟨rfl, rfl⟩ | ⟨-, second⟩
    · exact new i u first same
    · exact old i j u w first second same

theorem lookup_erase_iff : (map.erase k).lookup j = some w ↔ j ≠ k ∧ map.lookup j = some w := by
  by_cases same : j = k
  · subst same
    simp
  · simp [same, AList.lookup_erase_ne]

theorem mem_values : v ∈ map.entries.map Sigma.snd ↔ ∃ k, map.lookup k = some v := by
  simp only [List.mem_map, Sigma.exists, exists_eq_right]
  exact exists_congr fun k => (map.mem_lookup_iff (a := k) (b := v)).symm

theorem perm_erase (found : map.lookup k = some v) : map.entries.Perm (⟨k, v⟩ :: (map.erase k).entries) := by
  have member : k ∈ map.entries.keys := mem_iff.mpr ⟨v, found⟩
  obtain ⟨w, before, after, -, split, erased⟩ := List.exists_of_kerase member
  have same : map.lookup k = some w := AList.mem_lookup_iff.mpr (by simp [split])
  rw [found] at same
  cases same
  change map.entries.Perm (⟨k, v⟩ :: map.entries.kerase k)
  rw [erased, split]
  exact List.perm_middle

theorem length_erase_le : (map.erase k).entries.length ≤ map.entries.length :=
  (List.kerase_sublist k map.entries).length_le

theorem perm_push {lists : AList fun _ : K => List V} :
    ((lists.insert k ((lists.lookup k).getD [] ++ [v])).entries.flatMap Sigma.snd).Perm
      (lists.entries.flatMap Sigma.snd ++ [v]) := by
  rw [AList.entries_insert, List.flatMap_cons]
  cases found : lists.lookup k with
  | none =>
      have absent : k ∉ lists.entries.keys := AList.lookup_eq_none.mp found
      rw [List.kerase_of_notMem_keys absent]
      exact List.perm_append_comm
  | some held =>
      have split := (perm_erase found).flatMap_right Sigma.snd
      rw [List.flatMap_cons] at split
      rw [Option.getD_some, List.append_assoc]
      refine (List.Perm.append_left held List.perm_append_comm).trans ?_
      rw [← List.append_assoc]
      exact split.symm.append_right [v]

theorem sum_insert {f : V → Nat} (fresh : k ∉ map) :
    (((map.insert k v).entries.map Sigma.snd).map f).sum = f v + ((map.entries.map Sigma.snd).map f).sum := by
  rw [AList.entries_insert_of_notMem fresh]
  rfl

theorem sum_erase {f : V → Nat} (found : map.lookup k = some v) :
    ((map.entries.map Sigma.snd).map f).sum = f v + (((map.erase k).entries.map Sigma.snd).map f).sum :=
  (((perm_erase found).map Sigma.snd).map f).sum_nat

theorem length_insert : (map.insert k v).entries.length =
    if k ∈ map then map.entries.length else map.entries.length + 1 := by
  have length (map : AList fun _ : K => V) : map.entries.length = map.keys.length := (List.length_map _).symm
  rw [length, AList.keys_insert, length, List.length_cons]
  split
  · next present =>
      rw [AList.mem_keys] at present
      exact List.length_erase_add_one present
  · next absent =>
      rw [AList.mem_keys] at absent
      rw [List.erase_of_not_mem absent]

theorem length_foldl_insert_le {list : List (K × V)} :
    (list.foldl (fun table entry => table.insert entry.1 entry.2) map).entries.length ≤
      map.entries.length + list.length := by
  induction list generalizing map with
  | nil => exact Nat.le_refl _
  | cons entry rest ih =>
      have grown : (map.insert entry.1 entry.2).entries.length ≤ map.entries.length + 1 := by
        rw [length_insert]
        split <;> omega
      rw [List.foldl_cons, List.length_cons]
      exact Nat.le_trans ih (by omega)

theorem length_eq_of_lookup {other : AList fun _ : K => V} (same : ∀ k, map.lookup k = other.lookup k) :
    map.entries.length = other.entries.length := by
  have keys : map.keys.Perm other.keys := by
    rw [List.perm_ext_iff_of_nodup map.keys_nodup other.keys_nodup]
    intro k
    rw [mem_keys_iff, mem_keys_iff, same]
  simpa [AList.keys, List.keys] using keys.length_eq

def retain (keep : K → V → Bool) (map : AList fun _ : K => V) : AList fun _ : K => V :=
  ⟨map.entries.filter fun entry => keep entry.1 entry.2, map.nodupKeys.sublist List.filter_sublist⟩

theorem lookup_retain {keep : K → V → Bool} :
    (retain keep map).lookup k = some v ↔ map.lookup k = some v ∧ keep k v := by
  have found (map : AList fun _ : K => V) : map.lookup k = some v ↔ ⟨k, v⟩ ∈ map.entries := AList.mem_lookup_iff
  rw [found, found, retain, List.mem_filter]

theorem length_retain_lt_iff {keep : K → V → Bool} :
    (retain keep map).entries.length < map.entries.length ↔ ∃ k v, map.lookup k = some v ∧ ¬ keep k v := by
  rw [retain, List.length_filter_lt_length_iff_exists, Sigma.exists]
  exact exists_congr fun k => exists_congr fun v => and_congr_left fun _ => AList.mem_lookup_iff.symm

theorem lookup_foldl_insert {list : List (K × V)} (distinct : (list.map Prod.fst).Nodup) :
    (list.foldl (fun table entry => table.insert entry.1 entry.2) map).lookup k = some v ↔
      (k, v) ∈ list ∨ (k ∉ list.map Prod.fst ∧ map.lookup k = some v) := by
  induction list generalizing map with
  | nil => simp
  | cons entry rest ih =>
      obtain ⟨fresh, later⟩ := List.nodup_cons.mp distinct
      rw [List.foldl_cons, ih later, lookup_insert_iff, List.mem_cons, List.map_cons, List.mem_cons, Prod.ext_iff]
      constructor
      · rintro (found | ⟨missing, ⟨rfl, rfl⟩ | ⟨other, kept⟩⟩)
        · exact .inl (.inr found)
        · exact .inl (.inl ⟨rfl, rfl⟩)
        · exact .inr ⟨not_or.mpr ⟨other, missing⟩, kept⟩
      · rintro ((⟨rfl, rfl⟩ | found) | ⟨missing, kept⟩)
        · exact .inr ⟨fresh, .inl ⟨rfl, rfl⟩⟩
        · exact .inl found
        · exact .inr ⟨(not_or.mp missing).2, .inr ⟨(not_or.mp missing).1, kept⟩⟩

section Perm
variable {list : List (K × V)} (perm : list.Perm (map.entries.map fun entry => (entry.1, entry.2)))
include perm

omit [DecidableEq K] in
theorem nodup_of_perm : (list.map Prod.fst).Nodup := by
  have keys : (map.entries.map fun entry => (entry.1, entry.2)).map Prod.fst = map.keys := by
    rw [List.map_map]
    rfl
  rw [(perm.map Prod.fst).nodup_iff, keys]
  exact map.keys_nodup

theorem mem_of_perm : (k, v) ∈ list ↔ map.lookup k = some v := by
  rw [perm.mem_iff, List.mem_map]
  constructor
  · rintro ⟨entry, there, same⟩
    cases same
    exact AList.mem_lookup_iff.mpr there
  · intro found
    exact ⟨⟨k, v⟩, AList.mem_lookup_iff.mp found, rfl⟩

theorem lookup_of_perm : (list.foldl (fun table entry => table.insert entry.1 entry.2) (∅ : AList fun _ : K => V)).lookup k =
    map.lookup k := by
  apply Option.ext
  intro v
  rw [lookup_foldl_insert (nodup_of_perm perm), mem_of_perm perm, AList.lookup_empty]
  simp

end Perm
end Lib.Entries
