import Mathlib.Data.List.Basic
import Mathlib.Data.List.Nodup
import Mathlib.Data.List.Perm.Subperm
import Mathlib.Tactic.Tauto

/-!
# Least recently used caches

A set of keys with a bound on its size: a key that is put again moves to the front, and what no
longer fits falls off the end.
-/

namespace Lib

structure LruCache (K : Type) (capacity : Nat) where
  keys : List K
  nodup : keys.Nodup
  bound : keys.length ≤ capacity

namespace LruCache
variable {K : Type} {capacity : Nat}

def empty : LruCache K capacity := ⟨[], List.nodup_nil, Nat.zero_le _⟩

instance : Membership K (LruCache K capacity) := ⟨fun cache k => k ∈ cache.keys⟩

/-- The key is among the `room` keys that were put last. -/
def Recent (cache : LruCache K capacity) (room : Nat) (k : K) : Prop := k ∈ cache.keys.take room

theorem Recent.mem {cache : LruCache K capacity} {k : K} {room : Nat} (recent : cache.Recent room k) : k ∈ cache :=
  List.mem_of_mem_take recent

theorem Recent.mono {cache : LruCache K capacity} {k : K} {room more : Nat} (recent : cache.Recent room k)
    (le : room ≤ more) : cache.Recent more k :=
  List.take_subset_take_left _ le recent

variable [DecidableEq K] (cache : LruCache K capacity) {k other : K}

instance (k : K) : Decidable (k ∈ cache) := inferInstanceAs (Decidable (k ∈ cache.keys))

def put (k : K) : LruCache K capacity where
  keys := (k :: cache.keys.erase k).take capacity
  nodup := ((cache.nodup.erase k).cons (cache.nodup.not_mem_erase)).sublist (List.take_sublist _ _)
  bound := List.length_take_le _ _

def pop (k : K) : LruCache K capacity where
  keys := cache.keys.erase k
  nodup := cache.nodup.erase k
  bound := Nat.le_trans List.length_erase_le cache.bound

variable {cache}

theorem mem_of_put (member : other ∈ cache.put k) : other = k ∨ other ∈ cache := by
  rcases List.mem_cons.mp (List.mem_of_mem_take member) with same | old
  · exact .inl same
  · exact .inr (List.mem_of_mem_erase old)

theorem mem_pop : other ∈ cache.pop k ↔ other ≠ k ∧ other ∈ cache := cache.nodup.mem_erase_iff

theorem not_mem_put_of_full {front : List K} {last : K} (keys : cache.keys = front ++ [last])
    (full : front.length + 1 = capacity) (new : k ∉ cache) : last ∉ cache.put k := by
  have apart : last ≠ k := by
    rintro rfl
    exact new (keys ▸ List.mem_append_right _ (List.mem_singleton.mpr rfl) : last ∈ cache.keys)
  have once : last ∉ front := by
    have nodup := cache.nodup
    rw [keys, List.nodup_append] at nodup
    exact fun member => nodup.2.2 last member last (List.mem_singleton.mpr rfl) rfl
  have kept : (cache.put k).keys = k :: front := by
    change (k :: cache.keys.erase k).take capacity = k :: front
    rw [List.erase_of_not_mem (show k ∉ cache.keys from new), keys]
    subst full
    rw [List.take_succ_cons, List.take_left' rfl]
  change last ∉ (cache.put k).keys
  rw [kept]
  exact List.not_mem_cons_of_ne_of_not_mem apart once

/-! ### How long a key stays -/

theorem exists_prefix_put {front base : List K} (prefixed : front <+: cache.keys) (among : front ⊆ base)
    (inside : k ∈ base) (fits : base.length ≤ capacity) :
    ∃ grown, grown <+: (cache.put k).keys ∧ ∀ other, other ∈ grown ↔ other = k ∨ other ∈ front := by
  have nodup : front.Nodup := cache.nodup.sublist prefixed.sublist
  have within : k :: front.erase k ⊆ base :=
    List.cons_subset.mpr ⟨inside, fun other member => among (List.mem_of_mem_erase member)⟩
  have short := (List.subperm_of_subset ((nodup.erase k).cons nodup.not_mem_erase) within).length_le
  have kept : front.erase k <+: cache.keys.erase k := by
    obtain ⟨rest, same⟩ := prefixed
    rw [← same, List.erase_append]
    split
    · exact List.prefix_append _ _
    · next absent =>
        rw [List.erase_of_not_mem absent]
        exact List.prefix_append _ _
  refine ⟨k :: front.erase k, ?_, fun other => ?_⟩
  · exact List.prefix_take_iff.mpr ⟨List.cons_prefix_cons.mpr ⟨rfl, kept⟩, Nat.le_trans short fits⟩
  · rw [List.mem_cons, nodup.mem_erase_iff]
    tauto

theorem recent_put {room : Nat} (positive : 0 < room) (fits : room ≤ capacity) : (cache.put k).Recent room k := by
  obtain ⟨room, rfl⟩ := Nat.exists_eq_succ_of_ne_zero (Nat.ne_of_gt positive)
  rw [Recent, put, List.take_take, Nat.min_eq_left fits, List.take_succ_cons]
  exact List.mem_cons_self

theorem mem_take_erase {keys : List K} {room : Nat} (recent : other ∈ keys.take room) (apart : other ≠ k) :
    other ∈ (keys.erase k).take room := by
  induction keys generalizing room with
  | nil => simp at recent
  | cons first rest ih =>
      cases room with
      | zero => simp at recent
      | succ room =>
          rw [List.take_succ_cons, List.mem_cons] at recent
          by_cases same : first = k
          · subst same
            rw [List.erase_cons_head]
            exact List.take_subset_take_left _ (Nat.le_succ room) (recent.resolve_left apart)
          · rw [List.erase_cons_tail (by simpa using same), List.take_succ_cons, List.mem_cons]
            exact recent.imp_right ih

theorem Recent.put {room : Nat} (recent : cache.Recent room other) (fits : room < capacity) (k : K) :
    (cache.put k).Recent (room + 1) other := by
  by_cases same : other = k
  · subst same
    exact recent_put (Nat.succ_pos room) fits
  · rw [Recent, LruCache.put, List.take_take, Nat.min_eq_left fits, List.take_succ_cons]
    exact List.mem_cons_of_mem _ (mem_take_erase recent same)

def putAll (cache : LruCache K capacity) (keys : List K) : LruCache K capacity := keys.foldl put cache

theorem putAll_cons (k : K) (keys : List K) : cache.putAll (k :: keys) = (cache.put k).putAll keys := rfl

theorem putAll_append (first second : List K) : cache.putAll (first ++ second) = (cache.putAll first).putAll second :=
  List.foldl_append

theorem Recent.putAll {room : Nat} (recent : cache.Recent room other) {keys : List K}
    (fits : room + keys.length ≤ capacity) : (cache.putAll keys).Recent (room + keys.length) other := by
  induction keys generalizing cache room with
  | nil => exact recent
  | cons k rest ih =>
      rw [List.length_cons] at fits ⊢
      have next := @ih (cache.put k) (room + 1) (recent.put (by omega) k) (by omega)
      rw [Nat.add_right_comm] at next
      exact next

theorem recent_putAll {keys : List K} (member : k ∈ keys) (fits : keys.length ≤ capacity) :
    (cache.putAll keys).Recent keys.length k := by
  induction keys generalizing cache with
  | nil => simp at member
  | cons first rest ih =>
      rw [List.length_cons] at fits
      by_cases later : k ∈ rest
      · exact (@ih (cache.put first) later (by omega)).mono (Nat.le_succ _)
      · cases (List.mem_cons.mp member).resolve_right later
        have now : (cache.put k).Recent 1 k := recent_put Nat.one_pos (by omega)
        have next : ((cache.put k).putAll rest).Recent (1 + rest.length) k := now.putAll (by omega)
        rwa [Nat.add_comm] at next

theorem mem_of_putAll {keys : List K} (member : other ∈ cache.putAll keys) : other ∈ keys ∨ other ∈ cache := by
  induction keys generalizing cache with
  | nil => exact .inr member
  | cons first rest ih =>
      rcases ih member with later | now
      · exact .inl (List.mem_cons_of_mem _ later)
      · rcases mem_of_put now with rfl | before
        · exact .inl List.mem_cons_self
        · exact .inr before

end LruCache
end Lib
