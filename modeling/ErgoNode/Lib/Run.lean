import Mathlib.Data.List.Infix
import Mathlib.Algebra.BigOperators.Group.Finset.Basic
import Mathlib.Algebra.BigOperators.Intervals

/-!
# Runs

A system takes a list of actions one after the other; an action that is refused ends the run. A
condition on the steps is a property of an action and the state it is taken in, and an invariant
that every such step preserves holds in every state of a run whose steps all meet the condition.
-/

namespace Lib
variable {S A : Type} (step : S → A → Option S)

def run (s : S) (actions : List A) : Option S := actions.foldlM step s

@[simp] theorem run_nil (s : S) : run step s [] = some s := rfl

theorem run_cons (s : S) (a : A) (rest : List A) :
    run step s (a :: rest) = (step s a).bind fun t => run step t rest := rfl

theorem run_cons_eq_some {step : S → A → Option S} {s t : S} {a : A} {rest : List A} :
    run step s (a :: rest) = some t ↔ ∃ middle, step s a = some middle ∧ run step middle rest = some t := by
  rw [run_cons, Option.bind_eq_some_iff]

theorem run_append (s : S) (first second : List A) :
    run step s (first ++ second) = (run step s first).bind fun t => run step t second :=
  List.foldlM_append

def Visits (s : S) (actions : List A) (t : S) : Prop :=
  ∃ before, before <+: actions ∧ run step s before = some t

def Always (Good : S → Prop) (s : S) (actions : List A) : Prop :=
  ∀ t, Visits step s actions t → Good t

/-- Every action of the run meets `P` in the state in which it is taken. -/
def Along (P : S → A → Prop) (s : S) (actions : List A) : Prop :=
  ∀ before a, before ++ [a] <+: actions → ∀ t, run step s before = some t → P t a

variable {step} {P : S → A → Prop} {s t : S} {a : A} {actions rest : List A}

theorem Along.head (along : Along step P s (a :: rest)) : P s a :=
  along [] a (by simp) s rfl

theorem Along.tail (along : Along step P s (a :: rest)) (next : step s a = some t) :
    Along step P t rest := by
  intro before b prefixed u ran
  refine along (a :: before) b (List.cons_prefix_cons.mpr ⟨rfl, prefixed⟩) u ?_
  rw [run_cons, next]
  exact ran

theorem exists_run (total : ∀ s a, (step s a).isSome) (s : S) (actions : List A) :
    ∃ t, run step s actions = some t := by
  induction actions generalizing s with
  | nil => exact ⟨s, rfl⟩
  | cons a rest ih =>
      obtain ⟨t, next⟩ := Option.isSome_iff_exists.mp (total s a)
      rw [run_cons, next]
      exact ih t

@[simp] theorem along_nil : Along step P s [] := by
  intro before a prefixed
  simp at prefixed

theorem along_cons :
    Along step P s (a :: rest) ↔ P s a ∧ ∀ t, step s a = some t → Along step P t rest := by
  constructor
  · intro along
    exact ⟨along.head, fun t next => along.tail next⟩
  · rintro ⟨head, tail⟩ before b prefixed u ran
    cases before with
    | nil =>
        obtain ⟨rfl, -⟩ := List.cons_prefix_cons.mp prefixed
        cases ran
        exact head
    | cons first before =>
        obtain ⟨rfl, later⟩ := List.cons_prefix_cons.mp prefixed
        rw [run_cons_eq_some] at ran
        obtain ⟨t, next, ran⟩ := ran
        exact tail t next before b later u ran

instance decidableAlong [∀ s a, Decidable (P s a)] : (s : S) → (actions : List A) →
    Decidable (Along step P s actions)
  | _, [] => .isTrue along_nil
  | s, a :: rest =>
      match next : step s a with
      | none => decidable_of_iff (P s a) (by simp [along_cons, next])
      | some t =>
          have := decidableAlong t rest
          decidable_of_iff (P s a ∧ Along step P t rest) (by simp [along_cons, next])

/-- What every step that meets the condition preserves holds wherever such a run goes. -/
theorem Along.invariant (Inv : S → Prop)
    (preserved : ∀ {s a t}, Inv s → P s a → step s a = some t → Inv t)
    (start : Inv s) (along : Along step P s actions) : Always step Inv s actions := by
  rintro t ⟨before, prefixed, ran⟩
  induction before generalizing s actions with
  | nil =>
      cases ran
      exact start
  | cons a before ih =>
      obtain ⟨rest, rfl⟩ := prefixed
      rw [run_cons_eq_some] at ran
      obtain ⟨next, taken, later⟩ := ran
      exact ih (preserved start along.head taken) (along.tail taken) (List.prefix_append ..) later

theorem along_true : Along step (fun _ _ => True) s actions := fun _ _ _ _ _ => trivial

theorem Along.and {Q : S → A → Prop} (first : Along step P s actions) (second : Along step Q s actions) :
    Along step (fun s a => P s a ∧ Q s a) s actions :=
  fun before a prefixed t ran => ⟨first before a prefixed t ran, second before a prefixed t ran⟩

/-- What every step preserves holds in every state of a run. -/
theorem always_of_step {Inv : S → Prop} (preserved : ∀ {s a t}, Inv s → step s a = some t → Inv t) (start : Inv s) :
    Always step Inv s actions :=
  along_true.invariant Inv (fun inv _ taken => preserved inv taken) start

theorem Along.append (first : Along step P s actions) (ran : run step s actions = some t) (later : Along step P t rest) :
    Along step P s (actions ++ rest) := by
  induction actions generalizing s with
  | nil =>
      cases ran
      exact later
  | cons a actions ih =>
      obtain ⟨next, taken, onward⟩ := run_cons_eq_some.mp ran
      refine along_cons.mpr ⟨first.head, fun u took => ?_⟩
      cases taken.symm.trans took
      exact ih (first.tail taken) onward

theorem always_iff {Good : S → Prop} : Always step Good s actions ↔
    Good s ∧ Along step (fun s a => ∀ t, step s a = some t → Good t) s actions := by
  constructor
  · intro always
    refine ⟨always s ⟨[], List.nil_prefix, rfl⟩, fun before a prefixed u ran t taken => ?_⟩
    refine always t ⟨before ++ [a], prefixed, ?_⟩
    rw [run_append, ran]
    simp [run_cons, taken]
  · rintro ⟨start, along⟩
    exact along.invariant Good (fun _ kept taken => kept _ taken) start

theorem Along.congr {Q : S → A → Prop} (same : ∀ s a, Q s a ↔ P s a) :
    Along step Q s actions ↔ Along step P s actions := by
  have equal : Q = P := funext₂ fun s a => propext (same s a)
  rw [equal]

theorem along_iff_along {Q N : S → A → Prop} {Inv : S → Prop}
    (same : ∀ {s a}, Inv s → N s a → (Q s a ↔ P s a))
    (preserved : ∀ {s a t}, Inv s → N s a → P s a → step s a = some t → Inv t)
    (start : Inv s) (given : Along step N s actions) : Along step Q s actions ↔ Along step P s actions := by
  induction actions generalizing s with
  | nil => simp
  | cons a rest ih =>
      have head := same start given.head
      rw [along_cons, along_cons, head]
      refine and_congr_right fun condition => forall₂_congr fun t next => ?_
      exact ih (preserved start given.head condition next) (given.tail next)

theorem Along.completes {Q : S → A → Prop} {Inv : S → Prop}
    (taken : ∀ {s a}, Inv s → P s a → Q s a ∧ ∃ t, step s a = some t ∧ Inv t)
    (start : Inv s) (along : Along step P s actions) :
    (∃ t, run step s actions = some t) ∧ Along step Q s actions := by
  induction actions generalizing s with
  | nil => exact ⟨⟨s, rfl⟩, along_nil⟩
  | cons a rest ih =>
      obtain ⟨given, t, next, inv⟩ := taken start along.head
      obtain ⟨⟨last, ran⟩, later⟩ := ih inv (along.tail next)
      refine ⟨⟨last, ?_⟩, along_cons.mpr ⟨given, fun u same => ?_⟩⟩
      · rw [run_cons, next]
        exact ran
      · rw [next] at same
        cases same
        exact later

def Onward (step : S → A → Option S) (R : S → S → Prop) (s : S) (actions : List A) : Prop :=
  ∀ before rest, before ++ rest <+: actions → ∀ t u, run step s before = some t → run step t rest = some u → R t u

/-- A reflexive and transitive relation that every step of a run goes along, under an invariant. -/
theorem Along.onward {R : S → S → Prop} (Inv : S → Prop) (refl : ∀ s, R s s) (trans : ∀ {s t u}, R s t → R t u → R s u)
    (moved : ∀ {s a t}, Inv s → P s a → step s a = some t → Inv t ∧ R s t)
    (start : Inv s) (along : Along step P s actions) : Onward step R s actions := by
  intro before
  induction before generalizing s actions with
  | nil =>
      intro rest prefixed t u same ran
      obtain rfl : s = t := Option.some.inj same
      clear same
      induction rest generalizing s actions with
      | nil =>
          cases ran
          exact refl _
      | cons a rest ih =>
          obtain ⟨after, rfl⟩ := prefixed
          rw [run_cons_eq_some] at ran
          obtain ⟨next, taken, later⟩ := ran
          obtain ⟨inv, here⟩ := moved start along.head taken
          exact trans here (ih inv (along.tail taken) (List.prefix_append ..) later)
  | cons a before ih =>
      rintro rest ⟨after, rfl⟩ t u ran later
      rw [run_cons_eq_some] at ran
      obtain ⟨next, taken, reached⟩ := ran
      exact ih (moved start along.head taken).1 (along.tail taken) rest (List.prefix_append ..) t u reached later

theorem run_split {before : List A} (ran : run step s actions = some t)
    (prefixed : before ++ [a] <+: actions) :
    ∃ u v, run step s before = some u ∧ step u a = some v ∧ Visits step s actions u ∧
      Visits step s actions v := by
  obtain ⟨after, rfl⟩ := prefixed
  rw [run_append, Option.bind_eq_some_iff] at ran
  obtain ⟨v, first, -⟩ := ran
  have reached := first
  rw [run_append, Option.bind_eq_some_iff] at first
  obtain ⟨u, start, last⟩ := first
  rw [run_cons_eq_some] at last
  obtain ⟨w, taken, same⟩ := last
  cases same
  exact ⟨u, v, start, taken, ⟨before, by rw [List.append_assoc]; exact List.prefix_append .., start⟩,
    ⟨before ++ [a], List.prefix_append .., reached⟩⟩

theorem along_actions {P : A → Prop} (ran : run step s actions = some t) :
    Along step (fun _ a => P a) s actions ↔ ∀ a ∈ actions, P a := by
  constructor
  · intro along a member
    obtain ⟨before, after, rfl⟩ := List.append_of_mem member
    have prefixed : before ++ [a] <+: before ++ a :: after := ⟨after, by simp⟩
    obtain ⟨u, -, reached, -⟩ := run_split ran prefixed
    exact along before a prefixed u reached
  · intro all before a prefixed _ _
    exact all a (prefixed.subset (by simp))

/-! ### Costs -/

/-- What the steps of a run cost in total. -/
def total (step : S → A → Option S) (cost : S → A → Nat) : S → List A → Nat
  | _, [] => 0
  | s, a :: rest => cost s a + (step s a).elim 0 fun t => total step cost t rest

theorem total_mul {cost : S → A → Nat} (factor : Nat) :
    total step (fun s a => factor * cost s a) s actions = factor * total step cost s actions := by
  induction actions generalizing s with
  | nil => rfl
  | cons a rest ih =>
      unfold total
      cases step s a with
      | none => rfl
      | some next =>
          rw [Option.elim_some, Option.elim_some, ih, Nat.mul_add]

/-- A quantity grows no further than the steps pay for. -/
theorem measure_le_total {cost : S → A → Nat} {measure : S → Nat} {Inv : S → Prop}
    (paid : ∀ {s a t}, Inv s → step s a = some t → Inv t ∧ measure t ≤ measure s + cost s a)
    (start : Inv s) (ran : run step s actions = some t) : measure t ≤ measure s + total step cost s actions := by
  induction actions generalizing s with
  | nil =>
      cases ran
      exact Nat.le_add_right ..
  | cons a rest ih =>
      obtain ⟨next, taken, later⟩ := run_cons_eq_some.mp ran
      obtain ⟨inv, first⟩ := paid start taken
      have rest := ih inv later
      unfold total
      rw [taken, Option.elim_some]
      omega

/-! ### Histories -/

/-- The same steps in a state that also holds the actions so far, for conditions and properties that
speak of what has happened. -/
def recorded (step : S → A → Option S) (s : S × List A) (a : A) : Option (S × List A) :=
  (step s.1 a).map fun t => (t, s.2 ++ [a])

theorem recorded_eq_some {s t : S × List A} (taken : recorded step s a = some t) :
    ∃ u, step s.1 a = some u ∧ (u, s.2 ++ [a]) = t := Option.map_eq_some_iff.mp taken

theorem along_recorded (along : Along step P s actions) (seen : List A) :
    Along (recorded step) (fun t a => P t.1 a) (s, seen) actions := by
  induction actions generalizing s seen with
  | nil => exact along_nil
  | cons a rest ih =>
      refine along_cons.mpr ⟨along.head, fun t taken => ?_⟩
      obtain ⟨u, next, rfl⟩ := recorded_eq_some taken
      exact ih (along.tail next) _

theorem always_iff_along {Inv Good : S → Prop}
    (preserved : ∀ {s a t}, Inv s → P s a → step s a = some t → Inv t)
    (needed : ∀ {s a t}, Inv s → step s a = some t → Good t → P s a)
    (good : ∀ {s}, Inv s → Good s) (start : Inv s) (ran : run step s actions = some t) :
    Always step Good s actions ↔ Along step P s actions := by
  constructor
  · intro all
    have upTo : ∀ before, before <+: actions → ∀ u, run step s before = some u → Inv u := by
      intro before
      induction before using List.reverseRecOn with
      | nil =>
          rintro - u ⟨⟩
          exact start
      | append_singleton before a ih =>
          intro prefixed u reached
          obtain ⟨v, w, first, taken, -, visited⟩ := run_split ran prefixed
          have inv := ih ((List.prefix_append before [a]).trans prefixed) v first
          rw [run_append, first] at reached
          simp only [Option.bind_some, run_cons, taken, run_nil, Option.some.injEq] at reached
          subst reached
          exact preserved inv (needed inv taken (all w visited)) taken
    intro before a prefixed u reached
    obtain ⟨v, w, first, taken, -, visited⟩ := run_split ran prefixed
    rw [first] at reached
    cases reached
    exact needed (upTo before ((List.prefix_append before [a]).trans prefixed) u first) taken
      (all w visited)
  · intro along u visited
    exact good (along.invariant Inv preserved start u visited)

end Lib

/-!
### Sums over steps

A step function takes one value for each block of so many numbers. Its sum is made of the full blocks and a
part of the next one.
-/

namespace Lib
open Finset
variable {M : Type} [AddCommMonoid M] {period r : Nat}

theorem sum_part_of_step (f : Nat → M) (q : Nat) (le : r ≤ period) :
    ∑ j ∈ range (period * q + r), f (j / period) = ∑ j ∈ range (period * q), f (j / period) + r • f q := by
  induction r with
  | zero => simp
  | succ r ih =>
      have block : (period * q + r) / period = q := by
        rw [Nat.mul_add_div (by omega), Nat.div_eq_of_lt le, Nat.add_zero]
      rw [← Nat.add_assoc, sum_range_succ, ih (Nat.le_of_succ_le le), block, succ_nsmul, add_assoc]

theorem sum_steps (f : Nat → M) (q : Nat) (le : r ≤ period) :
    ∑ j ∈ range (period * q + r), f (j / period) = period • ∑ i ∈ range q, f i + r • f q := by
  rw [sum_part_of_step f q le]
  congr 1
  induction q with
  | zero => simp
  | succ q ih => rw [Nat.mul_succ, sum_part_of_step f q le_rfl, ih, sum_range_succ, nsmul_add]

theorem sum_steps_from (f : Nat → M) {q n last : Nat} (le : r ≤ period) (ends : period * q + r + n = period * last) :
    period • ∑ i ∈ range q, f i + r • f q + ∑ j ∈ range n, f ((period * q + r + j) / period) =
      period • ∑ i ∈ range last, f i := by
  have whole := sum_steps f last (Nat.zero_le period)
  rw [Nat.add_zero, zero_nsmul, add_zero, ← ends, sum_range_add, sum_steps f q le] at whole
  exact whole

end Lib
