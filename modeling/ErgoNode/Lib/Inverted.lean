import Mathlib.Data.List.Nodup
import Mathlib.Logic.Function.Basic

/-!
# Inverted indexes written in batches

An inverted index lists, under each key, the items that have the key. A batch touches one item after
the other, and each touch computes the new list from the list before the batch, not from what the batch
already holds; so a touch takes back what the batch did to other items under its keys. The index stays
right as long as there is nothing of that kind to take back.
-/

namespace Lib
variable {I T K : Type}

/-- Each key lists the items that have it, each once. -/
structure Inverts (keys : T → List K) (items : I → Option T) (index : K → List I) : Prop where
  nodup : ∀ k, (index k).Nodup
  listed : ∀ k i, i ∈ index k ↔ ∃ t, items i = some t ∧ k ∈ keys t

/-- An item leaves, with what is known of it, or enters. -/
inductive Touch (I T : Type) where
  | remove (item : I) (known : Option T)
  | add (item : I) (content : T)

namespace Touch
variable (keys : T → List K)

def item : Touch I T → I
  | remove item _ => item
  | add item _ => item

def keysOf : Touch I T → List K
  | remove _ known => (known.map keys).getD []
  | add _ content => keys content

variable [DecidableEq I]

def apply (items : I → Option T) : Touch I T → I → Option T
  | remove item _ => Function.update items item none
  | add item content => Function.update items item (some content)

theorem apply_of_ne (items : I → Option T) {touch : Touch I T} {i : I} (other : i ≠ touch.item) :
    touch.apply items i = items i := by
  cases touch with
  | remove item known => exact Function.update_of_ne other ..
  | add item content => exact Function.update_of_ne other ..

variable [DecidableEq K]

/-- The index in the batch, where `base` is the index before it. An item that `base` lists already is
not added again. -/
def update (base index : K → List I) : Touch I T → K → List I
  | remove item known => fun k =>
      if k ∈ (known.map keys).getD [] then (base k).filter (· ≠ item) else index k
  | add item content => fun k =>
      if k ∈ keys content ∧ item ∉ base k then base k ++ [item] else index k

def Known (base now : I → Option T) : Touch I T → Prop
  | remove item known => now item = none ∨ now item = known
  | add item _ => base item = none ∧ now item = none

instance [DecidableEq T] (base now : I → Option T) : (touch : Touch I T) → Decidable (touch.Known base now)
  | remove _ _ => inferInstanceAs (Decidable (_ ∨ _))
  | add _ _ => inferInstanceAs (Decidable (_ ∧ _))

/-- No other item that was touched under one of its keys is different from what it was. -/
structure Fits (base now : I → Option T) (earlier : List (Touch I T)) (touch : Touch I T) : Prop where
  known : touch.Known base now
  apart : ∀ other ∈ earlier, other.item ≠ touch.item → (∃ k ∈ other.keysOf keys, k ∈ touch.keysOf keys) →
    now other.item = base other.item

instance [DecidableEq T] (base now : I → Option T) (earlier : List (Touch I T)) (touch : Touch I T) :
    Decidable (Fits keys base now earlier touch) :=
  decidable_of_iff (touch.Known base now ∧ ∀ other ∈ earlier, other.item ≠ touch.item →
      (∃ k ∈ other.keysOf keys, k ∈ touch.keysOf keys) → now other.item = base other.item)
    ⟨fun ⟨known, apart⟩ => ⟨known, apart⟩, fun fits => ⟨fits.known, fits.apart⟩⟩

def Separate (base : I → Option T) (now : I → Option T) (earlier : List (Touch I T)) : List (Touch I T) → Prop
  | [] => True
  | touch :: rest => Fits keys base now earlier touch ∧ Separate base (touch.apply now) (earlier ++ [touch]) rest

instance decidableSeparate [DecidableEq T] (base : I → Option T) : (now : I → Option T) →
    (earlier touches : List (Touch I T)) → Decidable (Separate keys base now earlier touches)
  | _, _, [] => .isTrue trivial
  | now, earlier, touch :: rest =>
      have := decidableSeparate base (touch.apply now) (earlier ++ [touch]) rest
      inferInstanceAs (Decidable (_ ∧ _))

end Touch

section Batch
variable {keys : T → List K} {base now : I → Option T} {baseIndex index : K → List I}
variable {earlier touches : List (Touch I T)} {touch : Touch I T}

structure Pending (keys : T → List K) (base now : I → Option T) (earlier : List (Touch I T)) (index : K → List I) :
    Prop where
  inverts : Inverts keys now index
  touched : ∀ i k, ((∃ t, base i = some t ∧ k ∈ keys t) ↔ ∃ t, now i = some t ∧ k ∈ keys t) ∨
    ∃ other ∈ earlier, other.item = i ∧ k ∈ other.keysOf keys

theorem Pending.others (pending : Pending keys base now earlier index) (inverts : Inverts keys base baseIndex)
    (fits : touch.Fits keys base now earlier) {k : K} (key : k ∈ touch.keysOf keys) {j : I} (other : j ≠ touch.item) :
    j ∈ baseIndex k ↔ j ∈ index k := by
  rw [inverts.listed, pending.inverts.listed]
  rcases pending.touched j k with same | ⟨before, member, rfl, shared⟩
  · exact same
  · rw [fits.apart before member other ⟨k, shared, key⟩]

variable [DecidableEq I] [DecidableEq K]

theorem Pending.remove (pending : Pending keys base now earlier index) (inverts : Inverts keys base baseIndex)
    {i : I} {known : Option T} (fits : (Touch.remove i known).Fits keys base now earlier) :
    Inverts keys ((Touch.remove i known).apply now) ((Touch.remove i known).update keys baseIndex index) := by
  have others := fun k key j => @Pending.others I T K keys base now baseIndex index earlier _ pending inverts
    fits k key j
  constructor
  · intro k
    dsimp only [Touch.update]
    split
    · exact (inverts.nodup k).filter _
    · exact pending.inverts.nodup k
  · intro k j
    dsimp only [Touch.update, Touch.apply]
    by_cases key : k ∈ (known.map keys).getD []
    · rw [if_pos key, List.mem_filter, decide_eq_true_eq]
      by_cases same : j = i
      · simp [same]
      · rw [Function.update_of_ne same, others k key j same, pending.inverts.listed]
        simp [same]
    · rw [if_neg key, pending.inverts.listed]
      by_cases same : j = i
      · subst same
        rw [Function.update_self]
        simp only [reduceCtorEq, false_and, exists_false, iff_false, not_exists, not_and]
        intro t here inKeys
        rcases fits.known with gone | content
        · rw [gone] at here
          cases here
        · rw [content] at here
          exact key (by simpa [here] using inKeys)
      · rw [Function.update_of_ne same]

theorem Pending.add (pending : Pending keys base now earlier index) (inverts : Inverts keys base baseIndex)
    {i : I} {content : T} (fits : (Touch.add i content).Fits keys base now earlier) :
    Inverts keys ((Touch.add i content).apply now) ((Touch.add i content).update keys baseIndex index) := by
  have others := fun k key j => @Pending.others I T K keys base now baseIndex index earlier _ pending inverts
    fits k key j
  obtain ⟨fresh, absent⟩ := fits.known
  have unlisted : ∀ k, i ∉ baseIndex k := by
    intro k
    rw [inverts.listed, fresh]
    simp
  constructor
  · intro k
    dsimp only [Touch.update]
    split
    · rw [← List.concat_eq_append]
      exact (inverts.nodup k).concat (unlisted k)
    · exact pending.inverts.nodup k
  · intro k j
    dsimp only [Touch.update, Touch.apply]
    by_cases key : k ∈ keys content
    · rw [if_pos ⟨key, unlisted k⟩, List.mem_append, List.mem_singleton]
      by_cases same : j = i
      · subst same
        simp [key]
      · rw [Function.update_of_ne same, others k key j same, pending.inverts.listed]
        simp [same]
    · rw [if_neg fun both => key both.1, pending.inverts.listed]
      by_cases same : j = i
      · subst same
        rw [Function.update_self, absent]
        simp [key]
      · rw [Function.update_of_ne same]

theorem Pending.step (pending : Pending keys base now earlier index) (inverts : Inverts keys base baseIndex)
    (fits : touch.Fits keys base now earlier) :
    Pending keys base (touch.apply now) (earlier ++ [touch]) (touch.update keys baseIndex index) where
  inverts := by
    cases touch with
    | remove i known => exact pending.remove inverts fits
    | add i content => exact pending.add inverts fits
  touched := by
    intro j k
    rcases pending.touched j k with same | ⟨other, member, item, shared⟩
    · by_cases here : j = touch.item
      · by_cases key : k ∈ touch.keysOf keys
        · exact .inr ⟨touch, by simp, here.symm, key⟩
        · left
          rw [same]
          cases touch with
          | remove i known =>
              obtain rfl : j = i := here
              have none : ¬ ∃ t, now j = some t ∧ k ∈ keys t := by
                rintro ⟨t, there, inKeys⟩
                rcases fits.known with gone | content
                · rw [gone] at there
                  cases there
                · rw [content] at there
                  exact key (by simpa [Touch.keysOf, there] using inKeys)
              simp [Touch.apply, none]
          | add i content =>
              obtain rfl : j = i := here
              have notKey : k ∉ keys content := key
              simp [Touch.apply, fits.known.2, notKey]
      · left
        rw [same, Touch.apply_of_ne now here]
    · exact .inr ⟨other, List.mem_append_left _ member, item, shared⟩

theorem Pending.run (pending : Pending keys base now earlier index) (inverts : Inverts keys base baseIndex)
    (separate : Touch.Separate keys base now earlier touches) :
    Inverts keys (touches.foldl Touch.apply now) (touches.foldl (Touch.update keys baseIndex) index) := by
  induction touches generalizing now earlier index with
  | nil => exact pending.inverts
  | cons touch rest ih => exact ih (pending.step inverts separate.1) separate.2

/-- A batch of touches that fit keeps the index right. -/
theorem Inverts.batch (inverts : Inverts keys base baseIndex) (separate : Touch.Separate keys base base [] touches) :
    Inverts keys (touches.foldl Touch.apply base) (touches.foldl (Touch.update keys baseIndex) baseIndex) := by
  have start : Pending keys base base [] baseIndex := ⟨inverts, fun _ _ => .inl Iff.rfl⟩
  exact start.run inverts separate

end Batch

/-! ### Touches that read different lists -/

namespace Touch

def reread (base : K → List I) (readings : List ((K → List I) × Touch I T)) : List ((K → List I) × Touch I T) :=
  readings.map fun reading => (base, reading.2)

theorem reread_cons (base read : K → List I) (touch : Touch I T) (rest : List ((K → List I) × Touch I T)) :
    reread base ((read, touch) :: rest) = (base, touch) :: reread base rest := rfl

theorem reread_append (base : K → List I) (first second : List ((K → List I) × Touch I T)) :
    reread base (first ++ second) = reread base first ++ reread base second := List.map_append

theorem reread_map (base read : K → List I) (touches : List (Touch I T)) :
    reread base (touches.map fun touch => (read, touch)) = touches.map fun touch => (base, touch) := List.map_map

section Written
variable [DecidableEq I] (keys : T → List K)

def written (read : K → List I) : Touch I T → List K
  | remove _ known => (known.map keys).getD []
  | add item content => (keys content).filter (item ∉ read ·)

def list (read : K → List I) (k : K) : Touch I T → List I
  | remove item _ => (read k).filter (· ≠ item)
  | add item _ => read k ++ [item]

theorem update_eq [DecidableEq K] (read index : K → List I) (touch : Touch I T) (k : K) :
    touch.update keys read index k = if k ∈ touch.written keys read then touch.list read k else index k := by
  cases touch with
  | remove item known => rfl
  | add item content => simp [update, written, list]

def FindsOthers (base read : K → List I) (touch : Touch I T) (k : K) : Prop :=
  (∀ i ∈ read k, i = touch.item ∨ i ∈ base k) ∧ ∀ i ∈ base k, i = touch.item ∨ i ∈ read k

instance (base read : K → List I) (touch : Touch I T) (k : K) : Decidable (touch.FindsOthers base read k) :=
  inferInstanceAs (Decidable (_ ∧ _))

theorem findsOthers_iff {base read : K → List I} {touch : Touch I T} {k : K}
    (same : k ∈ touch.written keys read ↔ k ∈ touch.written keys base) (writes : k ∈ touch.written keys read) :
    touch.FindsOthers base read k ↔ ∀ i, i ∈ touch.list read k ↔ i ∈ touch.list base k := by
  cases touch with
  | remove item known =>
      simp only [FindsOthers, list, Touch.item, List.mem_filter, decide_eq_true_eq]
      grind
  | add item content =>
      have here := same.mp writes
      simp only [written, List.mem_filter, decide_eq_true_eq] at writes here
      simp only [FindsOthers, list, Touch.item, List.mem_append, List.mem_singleton]
      grind

/-- A touch that does not find what `base` lists under a key it writes is followed by another write there. -/
def Settled (base : K → List I) : List ((K → List I) × Touch I T) → Prop
  | [] => True
  | (read, touch) :: later =>
      (∀ k ∈ touch.written keys read, touch.FindsOthers base read k ∨
        ∃ next ∈ later, k ∈ next.2.written keys next.1) ∧ Settled base later

instance decidableSettled [DecidableEq K] (base : K → List I) :
    (readings : List ((K → List I) × Touch I T)) → Decidable (Settled keys base readings)
  | [] => .isTrue trivial
  | (_, _) :: later =>
      have := decidableSettled base later
      inferInstanceAs (Decidable (_ ∧ _))

variable [DecidableEq K]

def updates (index : K → List I) (readings : List ((K → List I) × Touch I T)) : K → List I :=
  readings.foldl (fun index reading => reading.2.update keys reading.1 index) index

variable {keys} {base index other : K → List I} {readings : List ((K → List I) × Touch I T)}

theorem updates_cons (reading : (K → List I) × Touch I T) (rest : List ((K → List I) × Touch I T)) :
    updates keys index (reading :: rest) = updates keys (reading.2.update keys reading.1 index) rest := rfl

theorem updates_append (first second : List ((K → List I) × Touch I T)) :
    updates keys index (first ++ second) = updates keys (updates keys index first) second := List.foldl_append

theorem updates_map (read : K → List I) (touches : List (Touch I T)) :
    updates keys index (touches.map fun touch => (read, touch)) = touches.foldl (Touch.update keys read) index :=
  List.foldl_map

theorem updates_of_not_written {k : K} (unwritten : ∀ reading ∈ readings, k ∉ reading.2.written keys reading.1) :
    updates keys index readings k = index k := by
  induction readings generalizing index with
  | nil => rfl
  | cons reading rest ih =>
      rw [updates_cons, ih fun next member => unwritten next (List.mem_cons_of_mem _ member), update_eq,
        if_neg (unwritten reading List.mem_cons_self)]

theorem Settled.same (settled : Settled keys base readings)
    (writes : ∀ reading ∈ readings, reading.2.written keys reading.1 = reading.2.written keys base) {k : K}
    (start : (∀ i, i ∈ index k ↔ i ∈ other k) ∨ ∃ reading ∈ readings, k ∈ reading.2.written keys reading.1) :
    ∀ i, i ∈ updates keys index readings k ↔ i ∈ updates keys other (reread base readings) k := by
  induction readings generalizing index other with
  | nil => simpa [updates, reread] using start
  | cons reading rest ih =>
      obtain ⟨read, touch⟩ := reading
      have here := writes (read, touch) List.mem_cons_self
      rw [updates_cons, reread_cons, updates_cons]
      refine ih settled.2 (fun next member => writes next (List.mem_cons_of_mem _ member)) ?_
      simp only [update_eq, ← here]
      by_cases written : k ∈ touch.written keys read
      · rw [if_pos written, if_pos written]
        refine (settled.1 k written).imp_left fun finds => ?_
        exact (findsOthers_iff keys (by rw [here]) written).mp finds
      · rw [if_neg written, if_neg written]
        rcases start with same | ⟨next, member, later⟩
        · exact .inl same
        · rcases List.mem_cons.mp member with rfl | member
          · exact absurd later written
          · exact .inr ⟨next, member, later⟩

theorem settled_of_same
    (writes : ∀ reading ∈ readings, reading.2.written keys reading.1 = reading.2.written keys base)
    (same : ∀ k i, i ∈ updates keys index readings k ↔ i ∈ updates keys other (reread base readings) k) :
    Settled keys base readings := by
  induction readings generalizing index other with
  | nil => trivial
  | cons reading rest ih =>
      obtain ⟨read, touch⟩ := reading
      have here := writes (read, touch) List.mem_cons_self
      have writesLater := fun next member => writes next (List.mem_cons_of_mem _ member)
      refine ⟨fun k written => ?_, ih writesLater same⟩
      by_cases later : ∃ next ∈ rest, k ∈ next.2.written keys next.1
      · exact .inr later
      · -- nothing after it writes under the key, so its own list stays
        left
        have unwritten : ∀ next ∈ rest, k ∉ next.2.written keys next.1 := by
          intro next member here
          exact later ⟨next, member, here⟩
        have alone : ∀ next ∈ reread base rest, k ∉ next.2.written keys next.1 := by
          intro next member here
          obtain ⟨before, inRest, rfl⟩ := List.mem_map.mp member
          rw [← writesLater before inRest] at here
          exact unwritten before inRest here
        refine (findsOthers_iff keys (by rw [here]) written).mpr fun i => ?_
        have final := same k i
        rw [updates_cons, reread_cons, updates_cons, updates_of_not_written unwritten,
          updates_of_not_written alone, update_eq, update_eq, if_pos written, if_pos (here ▸ written)] at final
        exact final

end Written
end Touch
end Lib
