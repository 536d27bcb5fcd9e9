import Mathlib.Algebra.BigOperators.Group.List.Basic
import Mathlib.Algebra.Order.BigOperators.Group.List
import Mathlib.Data.List.Sort

/-!
# Lists sent as numbered entries

Entries that each stand for some copies of one value are sent under their numbers and put in the order of
these when they are read. A number is taken modulo the word it is kept in.
-/

namespace Lib.Keyed

section Sorted
variable {φ : Type} {key : φ → Nat} {entries sorted : List φ} {k : Nat}

def keyLe (key : φ → Nat) (a b : φ) : Bool := key a ≤ key b

theorem keyLe_trans (a b c : φ) (ab : keyLe key a b) (bc : keyLe key b c) : keyLe key a c := by
  simp only [keyLe, decide_eq_true_eq] at ab bc ⊢
  exact ab.trans bc

theorem keyLe_total (a b : φ) : keyLe key a b || keyLe key b a := by
  simpa [keyLe] using Nat.le_total (key a) (key b)

def byKey (key : φ → Nat) (entries : List φ) : List φ := entries.mergeSort (keyLe key)

theorem byKey_perm (key : φ → Nat) (entries : List φ) : (byKey key entries).Perm entries :=
  List.mergeSort_perm ..

theorem pairwise_byKey (key : φ → Nat) (entries : List φ) : (byKey key entries).Pairwise fun a b => key a ≤ key b :=
  (List.pairwise_mergeSort keyLe_trans keyLe_total entries).imp of_decide_eq_true

theorem filter_byKey (key : φ → Nat) (entries : List φ) (k : Nat) :
    (byKey key entries).filter (fun e => key e = k) = entries.filter fun e => key e = k := by
  have alike : (entries.filter fun e => key e = k).Pairwise fun a b => keyLe key a b := by
    refine List.pairwise_of_forall_mem_list fun a ha b hb => ?_
    have left : key a = k := by simpa using (List.mem_filter.mp ha).2
    have right : key b = k := by simpa using (List.mem_filter.mp hb).2
    exact decide_eq_true (left.trans right.symm).le
  have kept := (List.sublist_mergeSort keyLe_trans keyLe_total alike List.filter_sublist).filter fun e => key e = k
  have same : ((entries.filter fun e => key e = k).filter fun e => key e = k) = entries.filter fun e => key e = k :=
    List.filter_eq_self.mpr fun e member => (List.mem_filter.mp member).2
  rw [same] at kept
  exact (kept.eq_of_length ((byKey_perm key entries).filter _).length_eq.symm).symm

theorem split_sorted (ordered : sorted.Pairwise fun a b => key a ≤ key b) (k : Nat) :
    sorted = sorted.filter (fun e => key e < k) ++ (sorted.filter (fun e => key e = k) ++
      sorted.filter (fun e => k < key e)) := by
  induction sorted with
  | nil => rfl
  | cons e rest ih =>
      obtain ⟨first, later⟩ := List.pairwise_cons.mp ordered
      specialize ih later
      rcases Nat.lt_trichotomy (key e) k with below | here | above
      · rw [List.filter_cons_of_pos (by simpa using below), List.filter_cons_of_neg (by simpa using below.ne),
          List.filter_cons_of_neg (by simpa using below.le)]
        exact congrArg (e :: ·) ih
      · have none : rest.filter (fun f => key f < k) = [] := by
          refine List.filter_eq_nil_iff.mpr fun f member => ?_
          simpa [here] using first f member
        rw [none, List.nil_append] at ih
        rw [List.filter_cons_of_neg (by simpa using here.ge), none, List.filter_cons_of_pos (by simpa using here),
          List.filter_cons_of_neg (by simpa using here.le)]
        exact congrArg (e :: ·) ih
      · have none : ∀ f ∈ e :: rest, k < key f := by
          intro f member
          rcases List.mem_cons.mp member with rfl | inRest
          · exact above
          · exact above.trans_le (first f inRest)
        rw [List.filter_eq_nil_iff.mpr fun f member => by simpa using (none f member).le,
          List.filter_eq_nil_iff.mpr fun f member => by simpa using (none f member).ne',
          List.filter_eq_self.mpr fun f member => by simpa using none f member]
        rfl

end Sorted

/-! ### Copies -/

section Copies
variable {φ α : Type} {key count : φ → Nat} {value : φ → α} {entries fields : List φ} {word : Nat}

def expand (count : φ → Nat) (value : φ → α) (entries : List φ) : List α :=
  entries.flatMap fun e => List.replicate (count e) (value e)

/-- The entries are numbered from zero on, modulo the word, and none of them is empty. -/
structure Numbered (key count : φ → Nat) (word : Nat) (entries : List φ) : Prop where
  key_eq : ∀ i e, entries[i]? = some e → key e = i % word
  positive : ∀ e ∈ entries, 0 < count e

def RoundTrips (key count : φ → Nat) (value : φ → α) (entries : List φ) : Prop :=
  ∀ fields : List φ, fields.Perm entries → expand count value (byKey key fields) = expand count value entries

theorem expand_append (left right : List φ) :
    expand count value (left ++ right) = expand count value left ++ expand count value right :=
  List.flatMap_append

theorem expand_perm (count : φ → Nat) (value : φ → α) {left right : List φ} (perm : left.Perm right) :
    (expand count value left).Perm (expand count value right) :=
  perm.flatMap_right _

theorem byKey_eq_of_few (numbered : Numbered key count word entries) (few : entries.length ≤ word)
    (perm : fields.Perm entries) : byKey key fields = entries := by
  have key_eq : ∀ i e, entries[i]? = some e → key e = i := by
    intro i e there
    have inside := (List.getElem?_eq_some_iff.mp there).1
    rw [numbered.key_eq i e there, Nat.mod_eq_of_lt (inside.trans_le few)]
  have ordered : entries.Pairwise fun a b => key a ≤ key b := by
    refine List.pairwise_iff_getElem.mpr fun i j hi hj less => ?_
    rw [key_eq i _ (List.getElem?_eq_getElem hi), key_eq j _ (List.getElem?_eq_getElem hj)]
    exact less.le
  have sent := (byKey_perm key fields).trans perm
  refine List.Perm.eq_of_pairwise (fun a b left right le ge => ?_) (pairwise_byKey key fields) ordered sent
  obtain ⟨i, here⟩ := List.getElem?_of_mem (sent.subset left)
  obtain ⟨j, there⟩ := List.getElem?_of_mem right
  have same : i = j := by
    rw [← key_eq i a here, ← key_eq j b there]
    exact le.antisymm ge
  rw [same, there] at here
  exact (Option.some.inj here).symm

theorem roundTrips_of_constant {a : α} (constant : ∀ b ∈ expand count value entries, b = a) :
    RoundTrips key count value entries := by
  intro fields perm
  have same := expand_perm count value ((byKey_perm key fields).trans perm)
  rw [List.eq_replicate_of_mem constant] at same ⊢
  exact List.perm_replicate.mp same

theorem mem_expand {b : α} : b ∈ expand count value entries → ∃ e ∈ entries, value e = b := by
  intro member
  obtain ⟨e, there, copy⟩ := List.mem_flatMap.mp member
  exact ⟨e, there, (List.eq_of_mem_replicate copy).symm⟩

theorem expand_byKey (count : φ → Nat) (value : φ → α) {a : α} {k : Nat} (perm : fields.Perm entries)
    (below : ∀ e ∈ entries, key e < k → value e = a) : ∃ back, expand count value (byKey key fields) =
      List.replicate (expand count value (entries.filter fun e => key e < k)).length a ++
        (expand count value (fields.filter fun e => key e = k) ++ back) := by
  have sent := (byKey_perm key fields).trans perm
  have front : expand count value ((byKey key fields).filter fun e => key e < k) =
      List.replicate (expand count value (entries.filter fun e => key e < k)).length a := by
    refine List.eq_replicate_iff.mpr ⟨(expand_perm count value (sent.filter _)).length_eq, fun b member => ?_⟩
    obtain ⟨e, there, rfl⟩ := mem_expand member
    obtain ⟨inSent, less⟩ := List.mem_filter.mp there
    exact below e (sent.subset inSent) (by simpa using less)
  have parts := congrArg (expand count value) (split_sorted (pairwise_byKey key fields) k)
  rw [expand_append, expand_append, front, filter_byKey] at parts
  exact ⟨_, parts⟩

theorem mem_expand_of_pos (value : φ → α) {e : φ} (there : e ∈ entries) (positive : 0 < count e) :
    value e ∈ expand count value entries :=
  List.mem_flatMap.mpr ⟨e, there, List.mem_replicate.mpr ⟨positive.ne', rfl⟩⟩

theorem head?_expand (value : φ → α) {e : φ} (positive : 0 < count e) (rest : List φ) (back : List α) :
    (expand count value (e :: rest) ++ back).head? = some (value e) := by
  obtain ⟨n, some⟩ := Nat.exists_eq_succ_of_ne_zero positive.ne'
  rw [expand, List.flatMap_cons, some, List.replicate_succ]
  rfl

section Many
variable {a : α} {k : Nat} (numbered : Numbered key count word entries) (many : word < entries.length)
  (inside : k < word)
include numbered many inside

theorem length_below (value : φ → α) (some : 0 < k) : (expand count value (entries.take k)).length <
    (expand count value (entries.filter fun e => key e < k)).length := by
  have early : (entries.take k).filter (fun e => key e < k) = entries.take k := by
    refine List.filter_eq_self.mpr fun e member => ?_
    obtain ⟨i, there⟩ := List.getElem?_of_mem member
    rw [List.getElem?_take] at there
    split at there
    · next less =>
        rw [decide_eq_true_eq, numbered.key_eq i e there, Nat.mod_eq_of_lt (less.trans inside)]
        exact less
    · cases there
  have again : entries[word] ∈ (entries.drop k).filter fun e => key e < k := by
    refine List.mem_filter.mpr ⟨?_, ?_⟩
    · refine List.mem_of_getElem? (i := word - k) ?_
      rw [List.getElem?_drop, Nat.add_sub_cancel' inside.le, List.getElem?_eq_getElem many]
    · rw [decide_eq_true_eq, numbered.key_eq word _ (List.getElem?_eq_getElem many), Nat.mod_self]
      exact some
  have longer := List.length_pos_of_mem (mem_expand_of_pos value again (numbered.positive _ (List.getElem_mem many)))
  have parts : entries.filter (fun e => key e < k) = entries.take k ++ (entries.drop k).filter fun e => key e < k := by
    rw [← early, ← List.filter_append, List.take_append_drop]
  rw [parts, expand_append, List.length_append]
  exact Nat.lt_add_of_pos_right longer

variable (returns : RoundTrips key count value entries) (first : ∀ e ∈ entries.head?, value e = a)
  (below : ∀ e ∈ entries, key e < k → value e = a)
include returns first below

theorem value_getElem : value entries[k] = a := by
  have present : k < entries.length := inside.trans many
  rcases Nat.eq_zero_or_pos k with rfl | some
  · exact first _ (by rw [List.head?_eq_getElem?, List.getElem?_eq_getElem present]; rfl)
  · obtain ⟨back, sent⟩ := expand_byKey count value (List.Perm.refl entries) below
    have longer := length_below numbered many inside value some
    have head := head?_expand value (numbered.positive _ (List.getElem_mem present)) (entries.drop (k + 1)) []
    rw [List.append_nil, ← List.drop_eq_getElem_cons present, List.head?_eq_getElem?] at head
    have parts : expand count value (entries.take k) ++ expand count value (entries.drop k) =
        expand count value entries := by
      rw [← expand_append, List.take_append_drop]
    rw [returns entries (List.Perm.refl entries), ← parts] at sent
    have there := congrArg (fun list => list[(expand count value (entries.take k)).length]?) sent
    simp only [List.getElem?_append_right le_rfl, Nat.sub_self, head] at there
    rw [List.getElem?_append_left (by simpa using longer), List.getElem?_replicate_of_lt longer] at there
    exact Option.some.inj there

theorem value_of_key : ∀ e ∈ entries, key e = k → value e = a := by
  classical
  intro f inEntries here
  by_contra other
  have present : k < entries.length := inside.trans many
  have value_k := value_getElem numbered many inside returns first below
  have key_k : key entries[k] = k := by
    rw [numbered.key_eq k _ (List.getElem?_eq_getElem present), Nat.mod_eq_of_lt inside]
  -- the entries of the value may be sent before all others or after them
  have before : (entries.filter (fun e => value e = a) ++ entries.filter fun e => !decide (value e = a)).Perm entries :=
    List.filter_append_perm ..
  obtain ⟨back, sent⟩ := expand_byKey count value before below
  obtain ⟨back', sent'⟩ := expand_byKey count value (List.perm_append_comm.trans before) below
  rw [returns _ before] at sent
  rw [returns _ (List.perm_append_comm.trans before), sent, List.filter_append, List.filter_append] at sent'
  have same := congrArg List.head? (List.append_cancel_left sent')
  have left : entries[k] ∈ (entries.filter fun e => value e = a).filter fun e => key e = k := by
    simp [value_k, key_k]
  have right : f ∈ (entries.filter fun e => !decide (value e = a)).filter fun e => key e = k := by
    simp [inEntries, other, here]
  obtain ⟨e, rest, shape⟩ := List.exists_cons_of_ne_nil (List.ne_nil_of_mem left)
  obtain ⟨e', rest', shape'⟩ := List.exists_cons_of_ne_nil (List.ne_nil_of_mem right)
  have inLeft : e ∈ (entries.filter fun e => value e = a).filter fun e => key e = k := by
    rw [shape]
    exact List.mem_cons_self
  have inRight : e' ∈ (entries.filter fun e => !decide (value e = a)).filter fun e => key e = k := by
    rw [shape']
    exact List.mem_cons_self
  simp only [List.mem_filter, decide_eq_true_eq, Bool.not_eq_true', decide_eq_false_iff_not] at inLeft inRight
  rw [shape, shape', List.cons_append, List.cons_append, head?_expand value (numbered.positive e inLeft.1.1),
    head?_expand value (numbered.positive e' inRight.1.1), inLeft.1.2] at same
  exact inRight.1.2 (Option.some.inj same).symm

end Many

theorem roundTrips_iff (numbered : Numbered key count word entries) (positive : 0 < word) :
    RoundTrips key count value entries ↔ entries.length ≤ word ∨ ∃ a, ∀ b ∈ expand count value entries, b = a := by
  constructor
  · intro returns
    rcases Nat.lt_or_ge word entries.length with many | few
    · right
      have some : 0 < entries.length := Nat.zero_lt_of_lt many
      refine ⟨value entries[0], fun b member => ?_⟩
      obtain ⟨e, there, rfl⟩ := mem_expand member
      have upTo (k : Nat) (le : k ≤ word) : ∀ f ∈ entries, key f < k → value f = value entries[0] := by
        induction k with
        | zero => exact fun f _ less => absurd less (Nat.not_lt_zero _)
        | succ k ih =>
            have below := ih (Nat.le_of_succ_le le)
            intro f inEntries less
            rcases Nat.lt_succ_iff_lt_or_eq.mp less with earlier | here
            · exact below f inEntries earlier
            · refine value_of_key numbered many le returns ?_ below f inEntries here
              intro g head
              rw [List.head?_eq_getElem?, List.getElem?_eq_getElem some] at head
              rw [Option.mem_some.mp head]
      obtain ⟨i, here⟩ := List.getElem?_of_mem there
      refine upTo word le_rfl e there ?_
      rw [numbered.key_eq i e here]
      exact Nat.mod_lt i positive
    · exact .inl few
  · rintro (few | ⟨a, constant⟩)
    · intro fields perm
      rw [byKey_eq_of_few numbered few perm]
    · exact roundTrips_of_constant constant

end Copies

end Lib.Keyed
