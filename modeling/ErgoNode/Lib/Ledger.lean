import Mathlib.Data.List.Nodup
import Mathlib.Data.Set.Basic

/-!
# Ledgers of single-use outputs

A move consumes some outputs and creates others. Moves execute one after the other over a set of
unspent outputs, where each has to find what it consumes. A list of moves is *available* from some
sources when every move consumes only sources and outputs of the moves before it.
-/

namespace Lib

structure Move (A : Type) where
  inputs : List A
  outputs : List A

namespace Ledger
variable {A : Type}

def consumed (moves : List (Move A)) : List A := moves.flatMap Move.inputs

def created (moves : List (Move A)) : List A := moves.flatMap Move.outputs

def settle (unspent : Set A) (move : Move A) : Set A :=
  {a | a ∈ unspent ∧ a ∉ move.inputs ∨ a ∈ move.outputs}

def Executes : Set A → List (Move A) → Prop
  | _, [] => True
  | unspent, move :: rest =>
      move.inputs.Nodup ∧ (∀ a ∈ move.inputs, a ∈ unspent) ∧ Executes (settle unspent move) rest

def Available : Set A → List (Move A) → Prop
  | _, [] => True
  | sources, move :: rest =>
      (∀ a ∈ move.inputs, a ∈ sources) ∧ Available {a | a ∈ sources ∨ a ∈ move.outputs} rest

@[simp] theorem consumed_nil : consumed ([] : List (Move A)) = [] := rfl

@[simp] theorem consumed_cons (move : Move A) (rest : List (Move A)) :
    consumed (move :: rest) = move.inputs ++ consumed rest := List.flatMap_cons

@[simp] theorem consumed_append (first second : List (Move A)) :
    consumed (first ++ second) = consumed first ++ consumed second := List.flatMap_append

@[simp] theorem created_nil : created ([] : List (Move A)) = [] := rfl

@[simp] theorem created_cons (move : Move A) (rest : List (Move A)) :
    created (move :: rest) = move.outputs ++ created rest := List.flatMap_cons

@[simp] theorem created_append (first second : List (Move A)) :
    created (first ++ second) = created first ++ created second := List.flatMap_append

variable {sources larger unspent : Set A} {moves first second : List (Move A)}

theorem Available.mono (available : Available sources moves) (grows : sources ⊆ larger) :
    Available larger moves := by
  induction moves generalizing sources larger with
  | nil => trivial
  | cons move rest ih =>
      refine ⟨fun a input => grows (available.1 a input), ih available.2 ?_⟩
      intro a source
      exact source.imp_left fun old => grows old

theorem available_append :
    Available sources (first ++ second) ↔
      Available sources first ∧ Available {a | a ∈ sources ∨ a ∈ created first} second := by
  induction first generalizing sources with
  | nil => simp [Available]
  | cons move rest ih =>
      rw [List.cons_append, Available, Available, ih, and_assoc]
      simp only [Set.mem_ofPred_eq, created_cons, List.mem_append, or_assoc]

theorem Available.source (available : Available sources moves) {a : A} (input : a ∈ consumed moves) :
    a ∈ sources ∨ a ∈ created moves := by
  induction moves generalizing sources with
  | nil => simp at input
  | cons move rest ih =>
      rw [consumed_cons, List.mem_append] at input
      rw [created_cons, List.mem_append]
      rcases input with now | later
      · exact .inl (available.1 a now)
      · rcases ih available.2 later with (source | output) | output
        · exact .inl source
        · exact .inr (.inl output)
        · exact .inr (.inr output)

theorem Executes.available (executes : Executes unspent moves) (within : unspent ⊆ sources) :
    Available sources moves := by
  induction moves generalizing unspent sources with
  | nil => trivial
  | cons move rest ih =>
      refine ⟨fun a input => within (executes.2.1 a input), ih executes.2.2 ?_⟩
      intro a kept
      exact kept.imp_left fun old => within old.1

/-- Available moves that consume nothing twice execute from any part of the sources that holds what
they consume. -/
theorem Available.executes (available : Available sources moves) (once : (consumed moves).Nodup)
    (holds : ∀ a ∈ sources, a ∈ consumed moves → a ∈ unspent) : Executes unspent moves := by
  induction moves generalizing sources unspent with
  | nil => trivial
  | cons move rest ih =>
      rw [consumed_cons, List.nodup_append'] at once
      obtain ⟨distinct, later, disjoint⟩ := once
      refine ⟨distinct, ?_, ih available.2 later ?_⟩
      · intro a input
        exact holds a (available.1 a input) (List.mem_append_left _ input)
      · rintro a (source | output) input
        · exact .inl ⟨holds a source (List.mem_append_right _ input), fun now => disjoint now input⟩
        · exact .inr output

theorem executes_iff_available (once : (consumed moves).Nodup) :
    Executes sources moves ↔ Available sources moves :=
  ⟨fun executes => executes.available subset_rfl,
    fun available => available.executes once fun _ source _ => source⟩

end Ledger
end Lib
