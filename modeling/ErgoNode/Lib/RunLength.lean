import Mathlib.Algebra.Order.Ring.Nat
import Mathlib.Data.List.SplitBy
import Mathlib.Data.List.TakeWhile

/-!
# Run-length encoding

Runs that are longer than what a count can say are cut into several.
-/

namespace Lib.RunLength

structure Run (α : Type) where
  count : Nat
  value : α
  positive : 0 < count

def Run.expand {α : Type} (run : Run α) : List α := List.replicate run.count run.value

section Chunks
variable {α : Type} [DecidableEq α] {more n : Nat} {a : α} {list rest : List α}

/-- The runs of a list, of at most `more + 1` elements each. -/
def chunks (more : Nat) : List α → List (Run α)
  | [] => []
  | a :: rest =>
      let further := min (rest.takeWhile (· == a)).length more
      ⟨further + 1, a, further.succ_pos⟩ :: chunks more (rest.drop further)
termination_by list => list.length
decreasing_by
  rw [List.length_drop, List.length_cons]
  omega

theorem takeWhile_eq_replicate (a : α) (list : List α) :
    list.takeWhile (· == a) = List.replicate (list.takeWhile (· == a)).length a := by
  refine List.eq_replicate_of_mem fun b member => ?_
  simpa using List.mem_takeWhile_imp member

theorem take_eq_replicate (le : n ≤ (list.takeWhile (· == a)).length) : list.take n = List.replicate n a := by
  obtain ⟨rest, shape⟩ := List.takeWhile_prefix (l := list) (· == a)
  rw [← shape, List.take_append_of_le_length le, takeWhile_eq_replicate, List.take_replicate, Nat.min_eq_left le]

theorem expand_chunks (more : Nat) (list : List α) : (chunks more list).flatMap Run.expand = list := by
  fun_induction chunks more list with
  | case1 => rfl
  | case2 a rest further ih =>
      have front : rest.take further = List.replicate further a := take_eq_replicate (Nat.min_le_left ..)
      rw [List.flatMap_cons, ih, Run.expand, List.replicate_succ, ← front, List.cons_append, List.take_append_drop]

theorem count_le_of_mem {run : Run α} (member : run ∈ chunks more list) : run.count ≤ more + 1 := by
  fun_induction chunks more list with
  | case1 => cases member
  | case2 a rest further ih =>
      rcases List.mem_cons.mp member with rfl | later
      · exact Nat.succ_le_succ (Nat.min_le_right ..)
      · exact ih later

/-! ### The number of runs -/

theorem takeWhile_replicate_append (other : ∀ b ∈ rest.head?, b ≠ a) (n : Nat) :
    (List.replicate n a ++ rest).takeWhile (· == a) = List.replicate n a := by
  induction n with
  | zero =>
      cases rest with
      | nil => rfl
      | cons b rest => simp [other b rfl]
  | succ n ih => simp [List.replicate_succ, ih]

theorem length_chunks_replicate (other : ∀ b ∈ rest.head?, b ≠ a) (n : Nat) :
    (chunks more (List.replicate n a ++ rest)).length = (n + more) / (more + 1) + (chunks more rest).length := by
  induction n using Nat.strongRecOn with
  | _ n ih =>
      cases n with
      | zero => simp
      | succ n =>
          have back : (List.replicate n a ++ rest).drop (min n more) = List.replicate (n - min n more) a ++ rest := by
            have within : min n more ≤ (List.replicate n a).length := by
              rw [List.length_replicate]
              exact Nat.min_le_left ..
            rw [List.drop_append_of_le_length within, List.drop_replicate]
          rw [List.replicate_succ, List.cons_append, chunks, takeWhile_replicate_append other, List.length_replicate,
            List.length_cons, back, ih _ (by omega)]
          rcases Nat.le_total n more with short | long
          · rw [Nat.min_eq_left short, Nat.sub_self, Nat.zero_add, Nat.div_eq_of_lt (Nat.lt_succ_self more)]
            have one : (n + 1 + more) / (more + 1) = 1 := Nat.div_eq_of_lt_le (by omega) (by omega)
            omega
          · have step : n + 1 + more = n - more + more + (more + 1) := by omega
            rw [Nat.min_eq_right long, step, Nat.add_div_right _ more.succ_pos, Nat.succ_eq_add_one]
            omega

theorem splitBy_replicate (a : α) (n : Nat) :
    (List.replicate (n + 1) a).splitBy (· == ·) = [List.replicate (n + 1) a] := by
  apply List.splitBy_of_isChain (by simp)
  exact List.isChain_replicate_of_rel _ (beq_self_eq_true a)

theorem exists_run (a : α) (rest : List α) : ∃ n back, a :: rest = List.replicate (n + 1) a ++ back ∧
    ∀ b ∈ back.head?, b ≠ a := by
  refine ⟨(rest.takeWhile (· == a)).length, rest.dropWhile (· == a), ?_, ?_⟩
  · rw [List.replicate_succ, ← takeWhile_eq_replicate, List.cons_append, List.takeWhile_append_dropWhile]
  · intro b first
    have stopped := List.head?_dropWhile_not (· == a) rest
    rw [Option.mem_def.mp first] at stopped
    simpa using stopped

theorem length_chunks (more : Nat) (list : List α) :
    (chunks more list).length = ((list.splitBy (· == ·)).map fun run => (run.length + more) / (more + 1)).sum := by
  induction size : list.length using Nat.strongRecOn generalizing list with
  | _ size' ih =>
      cases list with
      | nil => simp [chunks]
      | cons a rest =>
          obtain ⟨n, back, shape, other⟩ := exists_run a rest
          have shorter : back.length < size' := by
            rw [← size, shape, List.length_append, List.length_replicate]
            omega
          have apart : ∀ x ∈ (List.replicate (n + 1) a).getLast?, ∀ b ∈ back.head?, (x == b) = false := by
            intro x last b first
            rw [List.eq_of_mem_replicate (List.mem_of_mem_getLast? last)]
            exact beq_false_of_ne (other b first).symm
          rw [shape, length_chunks_replicate other, List.splitBy_append apart, splitBy_replicate, ih _ shorter back rfl,
            List.map_append, List.sum_append, List.map_singleton, List.sum_singleton, List.length_replicate]

end Chunks
end Lib.RunLength
