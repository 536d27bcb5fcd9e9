import Mathlib.Data.Sigma.Basic
import Mathlib.Logic.Function.Basic
import Mathlib.Data.List.Basic

/-!
# Stores with atomic batches

A store maps addresses to optional values; the type of a value may depend on its address, so that
several columns with different keys and values are one store over a sigma type of addresses. A
batch is a list of puts and deletes that take effect together, in the order they were pushed: at
each address the last operation wins.
-/

namespace Lib

inductive OperationKind (V : Type) where
  | put (value : V)
  | delete

def OperationKind.result {V : Type} : OperationKind V → Option V
  | .put value => some value
  | .delete => none

@[simp] theorem OperationKind.result_put {V : Type} (value : V) :
    (OperationKind.put value).result = some value := rfl

@[simp] theorem OperationKind.result_delete {V : Type} :
    (OperationKind.delete : OperationKind V).result = none := rfl

variable {A : Type} {V : A → Type}

abbrev Store (V : A → Type) := (a : A) → Option (V a)

structure BatchOperation (V : A → Type) where
  address : A
  kind : OperationKind (V address)

namespace Store
variable [DecidableEq A] (s : Store V)

def apply (op : BatchOperation V) : Store V := Function.update s op.address op.kind.result

def write (batch : List (BatchOperation V)) : Store V := batch.foldl apply s

@[simp] theorem write_nil : s.write [] = s := rfl

@[simp] theorem write_cons (op : BatchOperation V) (batch : List (BatchOperation V)) :
    s.write (op :: batch) = (s.apply op).write batch := rfl

@[simp] theorem write_append (first second : List (BatchOperation V)) :
    s.write (first ++ second) = (s.write first).write second :=
  List.foldl_append

theorem apply_same (a : A) (kind : OperationKind (V a)) : s.apply ⟨a, kind⟩ a = kind.result := by
  simp [apply]

theorem apply_of_ne {op : BatchOperation V} {a : A} (h : op.address ≠ a) : s.apply op a = s a := by
  rw [apply, Function.update_of_ne h.symm]

theorem write_of_forall_ne {batch : List (BatchOperation V)} {a : A}
    (h : ∀ op ∈ batch, op.address ≠ a) : s.write batch a = s a := by
  induction batch generalizing s with
  | nil => rfl
  | cons op batch ih =>
      rw [write_cons, ih _ fun o ho => h o (List.mem_cons_of_mem _ ho),
        apply_of_ne s (h op List.mem_cons_self)]

theorem write_congr {s t : Store V} (batch : List (BatchOperation V)) {a : A} (h : s a = t a) :
    s.write batch a = t.write batch a := by
  induction batch generalizing s t with
  | nil => exact h
  | cons op batch ih =>
      apply ih
      by_cases same : a = op.address
      · subst same
        simp [apply]
      · rw [apply_of_ne s (Ne.symm same), apply_of_ne t (Ne.symm same), h]

theorem write_eq_of_mem {s t : Store V} {batch : List (BatchOperation V)} {a : A}
    (h : ∃ op ∈ batch, op.address = a) : s.write batch a = t.write batch a := by
  induction batch generalizing s t with
  | nil => simp at h
  | cons op batch ih =>
      by_cases later : ∃ o ∈ batch, o.address = a
      · exact ih later
      · obtain ⟨o, member, rfl⟩ := h
        rcases List.mem_cons.mp member with rfl | member
        · exact write_congr batch (by simp [apply])
        · exact absurd ⟨o, member, rfl⟩ later

theorem isSome_write {batch : List (BatchOperation V)} (writes : ∀ op ∈ batch, op.kind.result.isSome)
    {a : A} (held : (s a).isSome) : (s.write batch a).isSome := by
  induction batch generalizing s with
  | nil => exact held
  | cons op batch ih =>
      refine ih (s.apply op) (fun o member => writes o (List.mem_cons_of_mem _ member)) ?_
      by_cases same : op.address = a
      · subst same
        rw [show s.apply op op.address = op.kind.result from s.apply_same _ _]
        exact writes op List.mem_cons_self
      · rwa [apply_of_ne s same]

theorem write_deletes (keys : List A) (a : A) :
    s.write (keys.map fun k => ⟨k, .delete⟩) a = if a ∈ keys then none else s a := by
  induction keys generalizing s with
  | nil => simp
  | cons k keys ih =>
      rw [List.map_cons, write_cons, ih]
      by_cases later : a ∈ keys
      · simp [later]
      · by_cases same : k = a
        · subst same
          simp [apply_same]
        · have kept : s.apply ⟨k, .delete⟩ a = s a := apply_of_ne s same
          simp [later, Ne.symm same, kept]

theorem of_write_deletes {batch : List (BatchOperation V)} {a : A} {value : V a}
    (deletes : ∀ op ∈ batch, op.address = a → op.kind.result = none) (there : s.write batch a = some value) :
    s a = some value := by
  induction batch generalizing s with
  | nil => exact there
  | cons op batch ih =>
      have before := ih _ (fun other member => deletes other (List.mem_cons_of_mem op member)) there
      by_cases same : op.address = a
      · have gone := deletes op List.mem_cons_self same
        subst same
        rw [apply, Function.update_self, gone] at before
        cases before
      · rwa [apply_of_ne s same] at before

theorem write_of_agree {batch : List (BatchOperation V)} {a : A} {result : Option (V a)}
    (there : ∃ kind, ⟨a, kind⟩ ∈ batch) (agree : ∀ kind, ⟨a, kind⟩ ∈ batch → kind.result = result) :
    s.write batch a = result := by
  induction batch generalizing s with
  | nil => simp at there
  | cons op batch ih =>
      by_cases later : ∃ kind, ⟨a, kind⟩ ∈ batch
      · exact ih _ later fun kind member => agree kind (List.mem_cons_of_mem op member)
      · obtain ⟨kind, member⟩ := there
        cases member with
        | tail _ member => exact (later ⟨kind, member⟩).elim
        | head =>
            rw [write_cons, write_of_forall_ne, apply_same]
            · exact agree kind List.mem_cons_self
            · rintro ⟨_, other⟩ member rfl
              exact later ⟨other, member⟩

end Store

/-! ### Several columns in one store -/

section Columns
variable {ι : Type} {K : ι → Type} {V : (Σ i, K i) → Type}

def Store.column (s : Store V) (i : ι) : Store (fun k => V ⟨i, k⟩) := fun k => s ⟨i, k⟩

theorem Store.column_apply (s : Store V) (i : ι) (k : K i) : s.column i k = s ⟨i, k⟩ := rfl

variable [DecidableEq ι]

def BatchOperation.inColumn (i : ι) : BatchOperation V → Option (BatchOperation fun k => V ⟨i, k⟩)
  | ⟨⟨j, k⟩, kind⟩ => if h : j = i then some (h ▸ ⟨k, kind⟩) else none

def batchColumn (i : ι) (batch : List (BatchOperation V)) :
    List (BatchOperation fun k => V ⟨i, k⟩) :=
  batch.filterMap (·.inColumn i)

@[simp] theorem batchColumn_nil (i : ι) : batchColumn (V := V) i [] = [] := rfl

@[simp] theorem batchColumn_append (i : ι) (first second : List (BatchOperation V)) :
    batchColumn i (first ++ second) = batchColumn i first ++ batchColumn i second :=
  List.filterMap_append

@[simp] theorem batchColumn_cons_same {i : ι} {k : K i} {kind : OperationKind (V ⟨i, k⟩)}
    {batch : List (BatchOperation V)} :
    batchColumn i (⟨⟨i, k⟩, kind⟩ :: batch) = ⟨k, kind⟩ :: batchColumn i batch := by
  simp [batchColumn, BatchOperation.inColumn]

theorem batchColumn_cons_of_ne {i : ι} {op : BatchOperation V} {batch : List (BatchOperation V)}
    (h : op.address.1 ≠ i) : batchColumn i (op :: batch) = batchColumn i batch := by
  obtain ⟨⟨j, k⟩, kind⟩ := op
  rw [batchColumn, List.filterMap_cons_none (by exact dif_neg h)]
  rfl

theorem batchColumn_eq_nil {i : ι} {batch : List (BatchOperation V)}
    (h : ∀ op ∈ batch, op.address.1 ≠ i) : batchColumn i batch = [] := by
  induction batch with
  | nil => rfl
  | cons op batch ih =>
      rw [batchColumn_cons_of_ne (h op List.mem_cons_self)]
      exact ih fun o member => h o (List.mem_cons_of_mem _ member)

@[simp] theorem batchColumn_map_same {E : Type} {i : ι} (key : E → K i)
    (kind : (e : E) → OperationKind (V ⟨i, key e⟩)) (entries : List E) :
    batchColumn i (entries.map fun e => ⟨⟨i, key e⟩, kind e⟩) =
      entries.map fun e => ⟨key e, kind e⟩ := by
  induction entries with
  | nil => rfl
  | cons e entries ih => rw [List.map_cons, batchColumn_cons_same, ih, List.map_cons]

@[simp] theorem batchColumn_map_of_ne {E : Type} {i j : ι} (key : E → K j)
    (kind : (e : E) → OperationKind (V ⟨j, key e⟩)) (entries : List E) (h : j ≠ i) :
    batchColumn i (entries.map fun e => ⟨⟨j, key e⟩, kind e⟩) = [] := by
  apply batchColumn_eq_nil
  intro op member
  obtain ⟨e, -, rfl⟩ := List.mem_map.mp member
  exact h

theorem batchColumn_flatMap {E : Type} (i : ι) (ops : E → List (BatchOperation V)) (entries : List E) :
    batchColumn i (entries.flatMap ops) = entries.flatMap fun e => batchColumn i (ops e) := by
  induction entries with
  | nil => rfl
  | cons e rest ih => rw [List.flatMap_cons, batchColumn_append, ih, List.flatMap_cons]

variable [∀ i, DecidableEq (K i)]

theorem Store.column_write (s : Store V) (batch : List (BatchOperation V)) (i : ι) :
    (s.write batch).column i = (s.column i).write (batchColumn i batch) := by
  induction batch generalizing s with
  | nil => rfl
  | cons op batch ih =>
      rw [write_cons, ih]
      obtain ⟨⟨j, k⟩, kind⟩ := op
      by_cases h : j = i
      · subst h
        rw [batchColumn_cons_same, write_cons]
        congr 1
        funext a
        by_cases same : k = a
        · subst same
          simp [column, apply_same]
        · rw [apply_of_ne _ same]
          exact apply_of_ne s fun equal => same (eq_of_heq (Sigma.mk.inj equal).2)
      · rw [batchColumn_cons_of_ne h]
        congr 1
        funext a
        exact apply_of_ne s fun equal => h (congrArg Sigma.fst equal)

theorem Store.column_write_of_ne (s : Store V) {batch : List (BatchOperation V)} {i : ι}
    (h : ∀ op ∈ batch, op.address.1 ≠ i) : (s.write batch).column i = s.column i := by
  rw [column_write, batchColumn_eq_nil h, write_nil]

end Columns

/-! ### Keyed lists written into one column -/

theorem map_eq_map_of_keys {T K V : Type} {key : T → K} {value : T → V} {xs ys : List T}
    (keys : xs.map key = ys.map key)
    (determined : ∀ x ∈ xs, ∀ y ∈ ys, key x = key y → value x = value y) : xs.map value = ys.map value := by
  induction xs generalizing ys with
  | nil =>
      rw [List.map_nil, eq_comm, List.map_eq_nil_iff] at keys
      rw [keys]
  | cons x xs ih =>
      obtain ⟨y, rest, rfl, same, tails⟩ := List.map_eq_cons_iff.mp keys.symm
      rw [List.map_cons, List.map_cons, determined x (by simp) y (by simp) same.symm]
      rw [ih tails.symm fun a inXs b inYs =>
        determined a (List.mem_cons_of_mem _ inXs) b (List.mem_cons_of_mem _ inYs)]

section Keyed
variable {A B E : Type} [DecidableEq A]

def puts (key : E → A) (value : E → B) (entries : List E) : List (BatchOperation fun _ : A => B) :=
  entries.map fun e => ⟨key e, .put (value e)⟩

variable {key : E → A} {value : E → B} {entries : List E} (s : Store fun _ : A => B)

theorem Store.write_puts_of_not_mem (value : E → B) {a : A} (h : a ∉ entries.map key) :
    s.write (puts key value entries) a = s a := by
  apply write_of_forall_ne
  rintro _ member rfl
  obtain ⟨e, entry, rfl⟩ := List.mem_map.mp member
  exact h (List.mem_map_of_mem entry)

theorem Store.write_puts_of_mem (distinct : (entries.map key).Nodup) {e : E} (h : e ∈ entries) :
    s.write (puts key value entries) (key e) = some (value e) := by
  induction entries generalizing s with
  | nil => simp at h
  | cons first rest ih =>
      rw [List.map_cons, List.nodup_cons] at distinct
      rcases List.mem_cons.mp h with rfl | later
      · have := s.apply_same (key e) (.put (value e))
        rw [puts, List.map_cons, write_cons, ← puts, write_puts_of_not_mem _ _ distinct.1, this]
        rfl
      · exact ih _ distinct.2 later

theorem Store.exists_of_write_puts (value : E → B) {a : A} (h : a ∈ entries.map key) :
    ∃ e ∈ entries, key e = a ∧ s.write (puts key value entries) a = some (value e) := by
  induction entries generalizing s with
  | nil => simp at h
  | cons first rest ih =>
      by_cases later : a ∈ rest.map key
      · obtain ⟨e, member, same, found⟩ := ih (s.apply ⟨key first, .put (value first)⟩) later
        exact ⟨e, List.mem_cons_of_mem _ member, same, found⟩
      · rw [List.map_cons, List.mem_cons, or_iff_left later] at h
        subst h
        refine ⟨first, List.mem_cons_self, rfl, ?_⟩
        rw [puts, List.map_cons, write_cons, ← puts, write_puts_of_not_mem _ _ later]
        exact apply_same s (key first) (.put (value first))

theorem Store.write_puts_eq (value : E → B) (a : A) : s.write (puts key value entries) a =
    ((entries.reverse.find? fun e => key e = a).map value).or (s a) := by
  induction entries generalizing s with
  | nil => rfl
  | cons first rest ih =>
      rw [puts, List.map_cons, write_cons, ← puts, ih, List.reverse_cons, List.find?_append]
      cases later : rest.reverse.find? fun e => key e = a with
      | some e => rfl
      | none =>
          by_cases same : key first = a
          · subst same
            have now := s.apply_same (key first) (.put (value first))
            simp [now, OperationKind.result]
          · rw [apply_of_ne _ same]
            simp [same]

theorem Store.write_puts_ne_none (a : A) :
    s.write (puts key value entries) a ≠ none ↔ s a ≠ none ∨ a ∈ entries.map key := by
  by_cases member : a ∈ entries.map key
  · obtain ⟨_, -, -, now⟩ := exists_of_write_puts s value member
    simp [now, member]
  · rw [write_puts_of_not_mem s value member, or_iff_left member]

def Store.settle (key : E → A) (value : E → B) (s : Store fun _ : A => B) (created : List E)
    (spent : List A) : Store fun _ : A => B :=
  s.write ((spent.map fun a => ⟨a, .delete⟩) ++ puts key value created)

theorem Store.map_write_puts {C : Type} (f : B → C) (a : A) :
    (s.write (puts key value entries) a).map f =
      Store.write (fun k => (s k).map f) (puts key (fun e => f (value e)) entries) a := by
  induction entries generalizing s with
  | nil => rfl
  | cons e rest ih =>
      have head : (fun k => (s.apply ⟨key e, .put (value e)⟩ k).map f) =
          Store.apply (fun k => (s k).map f) ⟨key e, .put (f (value e))⟩ := by
        funext k
        by_cases same : key e = k
        · subst same
          simp [apply]
        · rw [apply_of_ne _ same, apply_of_ne _ same]
      rw [puts, List.map_cons, write_cons, puts, List.map_cons, write_cons, ← head]
      exact ih _

theorem Store.map_settle {C : Type} (f : B → C) (created : List E) (spent : List A) (a : A) :
    (s.settle key value created spent a).map f =
      Store.settle key (fun e => f (value e)) (fun k => (s k).map f) created spent a := by
  rw [settle, settle, write_append, write_append, map_write_puts]
  apply write_congr
  rw [write_deletes, write_deletes]
  split <;> rfl

theorem Store.settle_congr {t : Store fun _ : A => B} {created : List E} {spent : List A}
    (same : ∀ a, a ∉ spent → a ∉ created.map key → s a = t a) :
    s.settle key value created spent = t.settle key value created spent := by
  funext a
  by_cases touched : a ∈ spent ∨ a ∈ created.map key
  · apply write_eq_of_mem
    rcases touched with gone | entered
    · exact ⟨⟨a, .delete⟩, List.mem_append_left _ (List.mem_map.mpr ⟨a, gone, rfl⟩), rfl⟩
    · obtain ⟨e, member, rfl⟩ := List.mem_map.mp entered
      exact ⟨⟨key e, .put (value e)⟩, List.mem_append_right _ (List.mem_map.mpr ⟨e, member, rfl⟩), rfl⟩
  · rw [not_or] at touched
    exact write_congr _ (same a touched.1 touched.2)

variable {created removed : List E} {spent : List A}

theorem Store.settle_of_not_created {a : A} (h : a ∉ created.map key) :
    s.settle key value created spent a = if a ∈ spent then none else s a := by
  rw [settle, write_append, write_puts_of_not_mem _ _ h, write_deletes]

theorem Store.settle_of_created (distinct : (created.map key).Nodup) {e : E} (h : e ∈ created) :
    s.settle key value created spent (key e) = some (value e) := by
  rw [settle, write_append, write_puts_of_mem _ distinct h]

theorem Store.exists_settle_of_created (value : E → B) (spent : List A) {a : A}
    (h : a ∈ created.map key) :
    ∃ e ∈ created, key e = a ∧ s.settle key value created spent a = some (value e) := by
  rw [settle, write_append]
  exact exists_of_write_puts _ _ h

/-- A change to fresh keys is taken back by removing its keys and putting back what it removed. -/
theorem Store.settle_settle (fresh : ∀ e ∈ created, s (key e) = none)
    (stored : ∀ e ∈ removed, s (key e) = some (value e)) (distinct : (removed.map key).Nodup) :
    (s.settle key value created (removed.map key)).settle key value removed (created.map key) = s := by
  funext a
  by_cases restored : a ∈ removed.map key
  · obtain ⟨e, member, rfl⟩ := List.mem_map.mp restored
    rw [settle_of_created _ distinct member, stored e member]
  · rw [settle_of_not_created _ restored]
    split
    · next deleted =>
        obtain ⟨e, member, rfl⟩ := List.mem_map.mp deleted
        exact (fresh e member).symm
    · next kept => rw [settle_of_not_created _ kept, if_neg restored]

end Keyed
end Lib

/-!
### The last write counts

Items are gone through in order, and some of them set a value. What is left is the value of the last item
that sets one, and the value at the start where none does.
-/

namespace Lib.LastWrite
variable {A B : Type}

def last (set : A → Option B) (items : List A) (start : B) : B := items.foldl (fun b a => (set a).getD b) start

variable {set : A → Option B} {items : List A} {start other : B}

theorem last_of_unset (unset : ∀ a ∈ items, set a = none) : last set items start = start := by
  induction items generalizing start with
  | nil => rfl
  | cons a items ih =>
      rw [last, List.foldl_cons, unset a List.mem_cons_self]
      exact ih fun b member => unset b (List.mem_cons_of_mem _ member)

theorem exists_last (sets : ∃ a ∈ items, set a ≠ none) : ∃ a ∈ items, ∀ start, set a = some (last set items start) := by
  induction items with
  | nil =>
      obtain ⟨a, member, -⟩ := sets
      cases member
  | cons first items ih =>
      by_cases later : ∃ a ∈ items, set a ≠ none
      · obtain ⟨a, member, same⟩ := ih later
        exact ⟨a, List.mem_cons_of_mem _ member, fun start => same _⟩
      · have unset : ∀ a ∈ items, set a = none := fun a member => by
          by_contra some
          exact later ⟨a, member, some⟩
        obtain ⟨a, member, some⟩ := sets
        rcases List.mem_cons.mp member with rfl | inItems
        · obtain ⟨value, same⟩ := Option.ne_none_iff_exists'.mp some
          refine ⟨a, List.mem_cons_self, fun start => ?_⟩
          rw [last, List.foldl_cons, same]
          exact congrArg Option.some (last_of_unset unset).symm
        · exact absurd (unset a inItems) some

theorem last_eq_last_iff : last set items start = last set items other ↔
    start = other ∨ ∃ a ∈ items, set a ≠ none := by
  by_cases sets : ∃ a ∈ items, set a ≠ none
  · obtain ⟨a, -, same⟩ := exists_last sets
    exact iff_of_true (Option.some.inj ((same start).symm.trans (same other))) (.inr sets)
  · have unset : ∀ a ∈ items, set a = none := fun a member => by
      by_contra some
      exact sets ⟨a, member, some⟩
    rw [last_of_unset unset, last_of_unset unset, or_iff_left sets]

end Lib.LastWrite
