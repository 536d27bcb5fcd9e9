import ErgoNode.Node.Validation
import ErgoNode.Proof.History.Effect
import ErgoNode.Proof.Sample

/-!
# The headers a block is validated with

They are read by height from an index that all branches share, so they are the ancestors of the block only
as long as the index names these at their heights.
-/

namespace ErgoNode.Proof.Validation
open Lib Node

variable {sr : SigmaRust} {db : Database} {header : Header}

/-! ### Ancestors -/

def ancestors (sr : SigmaRust) (db : Database) : Nat → Header → List Header
  | 0, _ => []
  | n + 1, header =>
      if header.height ≤ 1 then []
      else match (HeaderStore.get sr db header.parentId).toOption.join with
        | some parent => parent :: ancestors sr db n parent
        | none => []

def padded (headers : List Header) : List Header :=
  headers ++ List.replicate (10 - headers.length) genesisParentHeader

/-- In a tree of stored headers each one has its parent stored one height below it, down to height 1. -/
inductive Rooted (sr : SigmaRust) (db : Database) : Header → Prop
  | root {header : Header} (first : header.height = 1) : Rooted sr db header
  | child {header parent : Header} (stored : HeaderStore.get sr db header.parentId = .ok (some parent))
      (above : header.height = parent.height + 1) (rooted : Rooted sr db parent) : Rooted sr db header

theorem Rooted.positive (rooted : Rooted sr db header) : 0 < header.height := by
  cases rooted with
  | root first => omega
  | child stored above rooted => omega

theorem Rooted.ancestors_succ {parent : Header} (stored : HeaderStore.get sr db header.parentId = .ok (some parent))
    (above : header.height = parent.height + 1) (rooted : Rooted sr db parent) (n : Nat) :
    ancestors sr db (n + 1) header = parent :: ancestors sr db n parent := by
  have positive := rooted.positive
  rw [ancestors, if_neg (by omega), stored]
  rfl

theorem Rooted.ancestors_heights (rooted : Rooted sr db header) (n : Nat) :
    (ancestors sr db n header).map Header.height =
      (List.range' (header.height - min n (header.height - 1)) (min n (header.height - 1))).reverse := by
  induction rooted generalizing n with
  | root first => cases n <;> simp [ancestors, first]
  | @child header parent stored above rooted ih =>
      cases n with
      | zero => simp [ancestors]
      | succ n =>
          have positive := rooted.positive
          have count : min (n + 1) (header.height - 1) = min n (parent.height - 1) + 1 := by omega
          have start : header.height - (min n (parent.height - 1) + 1) = parent.height - min n (parent.height - 1) := by
            omega
          have top : parent.height - min n (parent.height - 1) + 1 * min n (parent.height - 1) = parent.height := by omega
          rw [Rooted.ancestors_succ stored above rooted, List.map_cons, ih, count, start, List.range'_concat,
            List.reverse_append, top]
          rfl

/-! ### Reading by height -/

def readAt (sr : SigmaRust) (db : Database) (height : Nat) : Option Header :=
  (HeaderStore.getByHeight sr db height).toOption.join

theorem readAt_eq_some {height : Nat} : readAt sr db height = some header ↔
    HeaderStore.getByHeight sr db height = .ok (some header) := by
  unfold readAt
  rcases HeaderStore.getByHeight sr db height with error | found
  · simp [Except.toOption]
  · cases found <;> simp [Except.toOption]

theorem Rooted.lastHeaders_eq (rooted : Rooted sr db header) : lastHeaders sr db header.height =
    padded (((ancestors sr db 10 header).map Header.height).filterMap (readAt sr db)) := by
  have positive := rooted.positive
  have range : List.range' (if header.height > 10 then header.height - 10 else 1)
      (header.height - if header.height > 10 then header.height - 10 else 1) =
      List.range' (header.height - min 10 (header.height - 1)) (min 10 (header.height - 1)) := by
    split
    · congr 1 <;> omega
    · congr 1 <;> omega
  rw [rooted.ancestors_heights, ← range]
  rfl

theorem filterMap_map_of_read {headers : List Header}
    (read : ∀ header ∈ headers, readAt sr db header.height = some header) :
    (headers.map Header.height).filterMap (readAt sr db) = headers := by
  rw [List.filterMap_map]
  exact (List.filterMap_congr read).trans List.filterMap_some

theorem read_of_filterMap_map {headers : List Header}
    (same : (headers.map Header.height).filterMap (readAt sr db) = headers) :
    ∀ header ∈ headers, readAt sr db header.height = some header := by
  induction headers with
  | nil => simp
  | cons header rest ih =>
      rw [List.map_cons] at same
      cases here : readAt sr db header.height with
      | none =>
          -- what is left is too short
          rw [List.filterMap_cons_none here] at same
          have short := List.length_filterMap_le (readAt sr db) (rest.map Header.height)
          rw [same, List.length_map, List.length_cons] at short
          omega
      | some found =>
          rw [List.filterMap_cons_some here, List.cons.injEq] at same
          obtain ⟨rfl, same⟩ := same
          exact List.forall_mem_cons.mpr ⟨here, ih same⟩

/-- Padding with a value that the longer list does not hold is not taken for one of its entries. -/
theorem eq_of_padded {T : Type} {pad : T} {n : Nat} {shorter longer : List T} (fits : longer.length ≤ n)
    (short : shorter.length ≤ longer.length) (other : pad ∉ longer)
    (same : shorter ++ List.replicate (n - shorter.length) pad = longer ++ List.replicate (n - longer.length) pad) :
    shorter = longer := by
  induction shorter generalizing longer n with
  | nil =>
      cases longer with
      | nil => rfl
      | cons head rest =>
          have positive : n - ([] : List T).length = (n - 1) + 1 := by
            rw [List.length_cons] at fits
            simp only [List.length_nil]
            omega
          rw [List.nil_append, positive, List.replicate_succ, List.cons_append, List.cons.injEq] at same
          exact absurd (same.1 ▸ List.mem_cons_self) other
  | cons first shorter ih =>
      cases longer with
      | nil => simp at short
      | cons head rest =>
          obtain ⟨n, rfl⟩ : ∃ m, n = m + 1 := ⟨n - 1, by rw [List.length_cons] at fits; omega⟩
          simp only [List.length_cons, List.cons_append, Nat.add_sub_add_right, List.cons.injEq] at same fits short
          rw [same.1, ih (Nat.le_of_succ_le_succ fits) (Nat.le_of_succ_le_succ short)
            (fun member => other (List.mem_cons_of_mem _ member)) same.2]

/-- The headers that a block of a tree is validated with are its ten nearest ancestors, padded, exactly when
the height index reads as each of these at its height. -/
theorem lastHeaders_iff (rooted : Rooted sr db header) :
    lastHeaders sr db header.height = padded (ancestors sr db 10 header) ↔
      ∀ ancestor ∈ ancestors sr db 10 header,
        HeaderStore.getByHeight sr db ancestor.height = .ok (some ancestor) := by
  simp only [← readAt_eq_some]
  rw [rooted.lastHeaders_eq]
  constructor
  · intro same
    have heights := rooted.ancestors_heights 10
    have count : (ancestors sr db 10 header).length = min 10 (header.height - 1) := by
      simpa using congrArg List.length heights
    refine read_of_filterMap_map (eq_of_padded (n := 10) ?_ ?_ ?_ same)
    · omega
    · exact (List.length_filterMap_le _ _).trans_eq (List.length_map ..)
    · intro member
      have low : genesisParentHeader.height ∈ (ancestors sr db 10 header).map Header.height := List.mem_map_of_mem member
      rw [heights, List.mem_reverse, List.mem_range'_1] at low
      have zero : genesisParentHeader.height = 0 := rfl
      have positive := rooted.positive
      omega
  · intro read
    rw [filterMap_map_of_read read]

section Samples
open Sample
open ErgoNode.Proof.History (HeaderCall)

def threeStored : OnDatabase ErgoNode.History :=
  ((HeaderCall.exec chainCodec (.appendHeadersBatched [(header11, []), (header12, [0]), (header13, [0, 0])])).exec
    ⟨.empty, .new⟩).2

def siblingStored : OnDatabase ErgoNode.History := ((HeaderCall.exec chainCodec (.appendHeader header22)).exec threeStored).2

theorem threeStored_lastHeaders :
    lastHeaders chainCodec threeStored.db 3 = padded (ancestors chainCodec threeStored.db 10 header13) := by
  have rooted : Rooted chainCodec threeStored.db header13 := .child rfl rfl (.child rfl rfl (.root rfl))
  exact (lastHeaders_iff rooted).mpr (by decide)

/-- With header 22 stored after it, header 12 is not read at height 2 any more. -/
theorem siblingStored_lastHeaders : Rooted chainCodec siblingStored.db header13 ∧
    lastHeaders chainCodec siblingStored.db 3 ≠ padded (ancestors chainCodec siblingStored.db 10 header13) :=
  ⟨.child rfl rfl (.child rfl rfl (.root rfl)), by decide⟩

end Samples

end ErgoNode.Proof.Validation
