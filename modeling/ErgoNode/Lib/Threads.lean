import ErgoNode.Lib.Effect
import ErgoNode.Lib.Run
import Mathlib.Logic.Function.Iterate

/-!
# Calls in progress at the same time

Calls on a shared state run in steps, and between two steps of a call any of the others may go on. A call
that has returned stays in the list in its last phase. `Accesses` is an operation in such steps.
-/

namespace Lib

structure Threads (σ φ : Type) where
  shared : σ
  calls : List φ
  deriving DecidableEq

namespace Threads
variable {σ φ ρ ι : Type}

/-- The index says which call goes on, the input what its step takes from elsewhere. -/
inductive Action (ρ ι : Type) where
  | call (request : ρ)
  | advance (index : Nat) (input : ι)
  deriving DecidableEq

variable (enter : ρ → φ) (move : ι → σ → φ → σ × φ)

def step (threads : Threads σ φ) : Action ρ ι → Option (Threads σ φ)
  | .call request => some { threads with calls := threads.calls ++ [enter request] }
  | .advance index input =>
      threads.calls[index]?.map fun phase =>
        ⟨(move input threads.shared phase).1, threads.calls.set index (move input threads.shared phase).2⟩

variable {enter move} {threads next : Threads σ φ} {action : Action ρ ι} {actions : List (Action ρ ι)}
variable {calls : List φ} {index : Nat} {phase after : φ}

theorem step_cases (taken : threads.step enter move action = some next) :
    (∃ request, action = .call request ∧ next = ⟨threads.shared, threads.calls ++ [enter request]⟩) ∨
    ∃ index input phase, action = .advance index input ∧ threads.calls[index]? = some phase ∧
      next = ⟨(move input threads.shared phase).1, threads.calls.set index (move input threads.shared phase).2⟩ := by
  cases action with
  | call request => exact .inl ⟨request, rfl, (Option.some.inj taken).symm⟩
  | advance index input =>
      obtain ⟨phase, here, rfl⟩ := Option.map_eq_some_iff.mp taken
      exact .inr ⟨index, input, phase, rfl, here, rfl⟩

theorem forall_mem_set {P : φ → Prop} (moved : P after) (kept : ∀ call ∈ calls, P call) :
    ∀ call ∈ calls.set index after, P call := by
  intro call member
  rcases List.mem_or_eq_of_mem_set member with old | new
  · exact kept call old
  · exact new ▸ moved

theorem exists_mem_set {P : φ → Prop} (here : calls[index]? = some phase) (kept : P phase → P after)
    (reached : ∃ call ∈ calls, P call) : ∃ call ∈ calls.set index after, P call := by
  obtain ⟨call, member, holds⟩ := reached
  obtain ⟨inside, rfl⟩ := List.getElem?_eq_some_iff.mp here
  obtain ⟨i, within, rfl⟩ := List.mem_iff_getElem.mp member
  by_cases same : index = i
  · subst same
    exact ⟨after, List.mem_set inside after, kept holds⟩
  · refine ⟨calls[i], List.mem_iff_getElem.mpr ⟨i, by rwa [List.length_set], ?_⟩, holds⟩
    rw [List.getElem_set_ne same]

theorem forall_mem_of_set {P : φ → Prop} (here : calls[index]? = some phase) (before : P phase)
    (all : ∀ call ∈ calls.set index after, P call) : ∀ call ∈ calls, P call := by
  by_contra! other
  obtain ⟨call, member, fails⟩ := exists_mem_set (P := fun call => ¬ P call) here (fun not => absurd before not) other
  exact fails (all call member)

/-! ### Counting -/

theorem countP_set_add (met : φ → Bool) (here : calls[index]? = some phase) :
    (calls.set index after).countP met + (if met phase then 1 else 0) =
      calls.countP met + if met after then 1 else 0 := by
  obtain ⟨inside, rfl⟩ := List.getElem?_eq_some_iff.mp here
  have counted := List.boole_getElem_le_countP (p := met) inside
  rw [List.countP_set inside]
  omega

variable {κ : Type} {counter : σ → κ} {turn : κ → κ} {met : φ → Bool} {zero : κ}

/-- The counter is turned on by each call when it comes to meet the condition, and by nothing else. -/
def Counts (move : ι → σ → φ → σ × φ) (counter : σ → κ) (turn : κ → κ) (met : φ → Bool) : Prop :=
  ∀ input s phase,
    (met (move input s phase).2 = met phase ∧ counter (move input s phase).1 = counter s) ∨
    (met phase = false ∧ met (move input s phase).2 = true ∧ counter (move input s phase).1 = turn (counter s))

theorem counter_step (counts : Counts move counter turn met) (fresh : ∀ request, met (enter request) = false)
    (taken : threads.step enter move action = some next)
    (counted : counter threads.shared = turn^[threads.calls.countP met] zero) :
    counter next.shared = turn^[next.calls.countP met] zero := by
  obtain ⟨request, -, rfl⟩ | ⟨index, input, phase, -, here, rfl⟩ := step_cases taken
  · rw [List.countP_append, List.countP_singleton, fresh request, if_neg Bool.false_ne_true]
    exact counted
  · have moved := @countP_set_add φ threads.calls index phase (move input threads.shared phase).2 met here
    dsimp only
    rcases counts input threads.shared phase with ⟨same, kept⟩ | ⟨before, now, turned⟩
    · rw [same] at moved
      rw [kept, counted, Nat.add_right_cancel moved]
    · rw [before, now, if_neg Bool.false_ne_true, if_pos rfl, Nat.add_zero] at moved
      rw [turned, counted, moved, Function.iterate_succ_apply']

/-! ### One call at a time -/

section Alone
variable {input : ι}

/-- What the steps of a call make of the shared state and the call, where no other call comes between. -/
def alone (move : ι → σ → φ → σ × φ) (input : ι) (count : Nat) (s : σ) (phase : φ) : σ × φ :=
  (fun reached : σ × φ => move input reached.1 reached.2)^[count] (s, phase)

theorem alone_succ (count : Nat) (s : σ) (phase : φ) :
    alone move input (count + 1) s phase = alone move input count (move input s phase).1 (move input s phase).2 := rfl

theorem run_alone (here : threads.calls[index]? = some phase) (input : ι) (count : Nat) :
    run (step (ρ := ρ) enter move) threads (List.replicate count (.advance index input)) =
      some ⟨(alone move input count threads.shared phase).1,
        threads.calls.set index (alone move input count threads.shared phase).2⟩ := by
  induction count generalizing threads phase with
  | zero =>
      obtain ⟨inside, rfl⟩ := List.getElem?_eq_some_iff.mp here
      exact congrArg (fun calls => some (Threads.mk threads.shared calls)) (List.set_getElem_self inside).symm
  | succ count ih =>
      have taken : threads.step enter move (.advance index input : Action ρ ι) =
          some ⟨(move input threads.shared phase).1, threads.calls.set index (move input threads.shared phase).2⟩ := by
        unfold step
        dsimp only
        rw [here]
        rfl
      have inside := (List.getElem?_eq_some_iff.mp here).1
      have after : (threads.calls.set index (move input threads.shared phase).2)[index]? =
        some (move input threads.shared phase).2 := List.getElem?_set_self inside
      rw [List.replicate_succ, run_cons, taken, alone_succ, Option.bind_some, ih after, List.set_set]

end Alone

end Threads

/-! ### Operations in steps -/

/-- An operation as the accesses that it makes to a shared state. Each is one step; what it finds there decides
how the operation goes on. -/
inductive Accesses (σ ε α : Type) where
  | done (a : α)
  | failed (e : ε)
  | access (move : σ → σ) (next : σ → Accesses σ ε α)

namespace Accesses
variable {σ τ ε α β : Type}

def bind : Accesses σ ε α → (α → Accesses σ ε β) → Accesses σ ε β
  | done a, f => f a
  | failed e, _ => failed e
  | access move next, f => access move fun s => (next s).bind f

instance : Monad (Accesses σ ε) where
  pure := done
  bind := bind

def ofExcept : Except ε α → Accesses σ ε α
  | .ok a => done a
  | .error e => failed e

/-- The whole operation is one access. -/
def once (x : Op σ ε α) : Accesses σ ε α := access (fun s => (x.exec s).2) fun s => ofExcept (x.exec s).1

def step : Accesses σ ε α → σ → Accesses σ ε α × σ
  | access move next, s => (next s, move s)
  | done a, s => (done a, s)
  | failed e, s => (failed e, s)

/-- The accesses made one right after the other. -/
def together : Accesses σ ε α → Op σ ε α
  | done a => pure a
  | failed e => throw e
  | access move next => do
      let s ← get
      set (move s)
      (next s).together

variable {x : Accesses σ ε α} {f : α → Accesses σ ε β} {P Q : α → Prop} {R : β → Prop} {view : σ → τ}

@[simp] theorem exec_together_ofExcept (r : Except ε α) (s : σ) :
    (ofExcept r : Accesses σ ε α).together.exec s = (r, s) := by
  cases r <;> rfl

@[simp] theorem exec_together_once (x : Op σ ε α) (s : σ) : (once x).together.exec s = x.exec s :=
  exec_together_ofExcept _ _

theorem exec_together_bind (x : Accesses σ ε α) (f : α → Accesses σ ε β) (s : σ) :
    (x >>= f).together.exec s = (x.together >>= fun a => (f a).together).exec s := by
  induction x generalizing s with
  | done a => rfl
  | failed e => rfl
  | access move next ih => exact ih s (move s)

/-- Where no step changes the state and each finds what the function computes, so does the fold. -/
theorem exec_together_foldlM {g : β → α → Accesses σ ε β} {h : β → α → Except ε β} {s : σ}
    (step : ∀ b a, (g b a).together.exec s = (h b a, s)) (list : List α) (b : β) :
    (list.foldlM g b).together.exec s = (list.foldlM h b, s) := by
  induction list generalizing b with
  | nil => rfl
  | cons a rest ih =>
      rw [List.foldlM_cons, List.foldlM_cons, exec_together_bind, Op.exec_bind, step]
      cases h b a with
      | error e => rfl
      | ok next => exact ih next

/-- Whatever the operation finds, it leaves the view alone and has such a result. -/
def Leads (view : σ → τ) (P : α → Prop) : Accesses σ ε α → Prop
  | done a => P a
  | failed _ => True
  | access move next => ∀ s, view (move s) = view s ∧ (next s).Leads view P

theorem Leads.mono (leads : x.Leads view P) (weaker : ∀ a, P a → Q a) : x.Leads view Q := by
  induction x with
  | done a => exact weaker a leads
  | failed e => trivial
  | access move next ih => exact fun s => ⟨(leads s).1, ih s (leads s).2⟩

theorem Leads.bind (leads : x.Leads view P) (rest : ∀ a, P a → (f a).Leads view R) : (x >>= f).Leads view R := by
  induction x with
  | done a => exact rest a leads
  | failed e => trivial
  | access move next ih => exact fun s => ⟨(leads s).1, ih s (leads s).2⟩

theorem leads_ofExcept {r : Except ε α} (holds : ∀ a, r = .ok a → P a) :
    (ofExcept r : Accesses σ ε α).Leads view P := by
  cases r with
  | ok a => exact holds a rfl
  | error e => trivial

theorem leads_once {x : Op σ ε α} (keeps : Op.Keeps view x) : (once x).Leads view fun _ => True :=
  fun s => ⟨keeps s, leads_ofExcept fun _ _ => trivial⟩

theorem leads_foldlM {g : β → α → Accesses σ ε β} {list : List α} {b : β}
    (step : ∀ b, R b → ∀ a ∈ list, (g b a).Leads view R) (start : R b) : (list.foldlM g b).Leads view R := by
  induction list generalizing b with
  | nil => exact start
  | cons a rest ih =>
      rw [List.foldlM_cons]
      refine (step b start a List.mem_cons_self).bind fun next holds => ?_
      exact ih (fun b holds a member => step b holds a (List.mem_cons_of_mem _ member)) holds

/-- A step keeps what holds of the view and of the results. -/
theorem Leads.step (leads : x.Leads view P) (s : σ) :
    (x.step s).1.Leads view P ∧ view (x.step s).2 = view s := by
  cases x with
  | done a => exact ⟨leads, rfl⟩
  | failed e => exact ⟨trivial, rfl⟩
  | access move next => exact ⟨(leads s).2, (leads s).1⟩

end Accesses

end Lib
