import ErgoNode.Lib.Effect

/-!
# Guards in one thread

A lock that the thread holds is not given to it again, unless both guards are for reading. A thread that asks
for it waits for itself, and the operation never returns.
-/

namespace Lib.Guards

inductive Mode where
  | read
  | write
  deriving DecidableEq

/-- A value and the guards that the thread holds. -/
structure Guarded (L σ : Type) where
  value : σ
  held : List (L × Mode)

abbrev GuardedOp (L σ : Type) := Op (Guarded L σ) L

variable {L σ α : Type} [DecidableEq L]

def blocks (lock : L) (mode : Mode) (guard : L × Mode) : Bool :=
  guard.1 = lock ∧ (mode = .write ∨ guard.2 = .write)

def withGuard (lock : L) (mode : Mode) (body : GuardedOp L σ α) : GuardedOp L σ α :=
  ExceptT.mk fun s =>
    if s.held.any (blocks lock mode) then (.error lock, s)
    else match body.exec { s with held := (lock, mode) :: s.held } with
      | (.ok a, after) => (.ok a, { after with held := s.held })
      | (.error wanted, stuck) => (.error wanted, stuck)

variable {lock : L} {mode : Mode} {body : GuardedOp L σ α} {value after : σ} {held : List (L × Mode)} {a : α}

theorem exec_withGuard (free : held.any (blocks lock mode) = false)
    (done : body.exec ⟨value, (lock, mode) :: held⟩ = (.ok a, ⟨after, (lock, mode) :: held⟩)) :
    (withGuard lock mode body).exec ⟨value, held⟩ = (.ok a, ⟨after, held⟩) := by
  change (if held.any (blocks lock mode) = true then _ else _) = _
  rw [if_neg (by simp [free])]
  change body.exec { value, held := (lock, mode) :: held } = _ at done
  rw [done]

/-! ### Operations that never return -/

/-- The thread waits for a lock that it holds. -/
def Stuck (x : GuardedOp L σ α) (s : Guarded L σ) : Prop := ∃ wanted stuck, x.exec s = (.error wanted, stuck)

section Stuck
variable {β : Type} {x : GuardedOp L σ α} {f : α → GuardedOp L σ β} {s t : Guarded L σ}

omit [DecidableEq L] in
theorem not_stuck (done : x.exec s = (.ok a, t)) : ¬ Stuck x s := by
  rintro ⟨wanted, stuck, failed⟩
  rw [done] at failed
  cases failed

omit [DecidableEq L] in
theorem Stuck.bind (first : Stuck x s) : Stuck (x >>= f) s := by
  obtain ⟨wanted, stuck, failed⟩ := first
  exact ⟨wanted, stuck, Op.exec_bind_of_error failed⟩

omit [DecidableEq L] in
theorem Stuck.later (done : x.exec s = (.ok a, t)) (later : Stuck (f a) t) : Stuck (x >>= f) s := by
  obtain ⟨wanted, stuck, failed⟩ := later
  exact ⟨wanted, stuck, (Op.exec_bind_of_ok done).trans failed⟩

theorem stuck_of_held (taken : held.any (blocks lock mode) = true) : Stuck (withGuard lock mode body) ⟨value, held⟩ := by
  refine ⟨lock, ⟨value, held⟩, ?_⟩
  change (if held.any (blocks lock mode) = true then _ else _) = _
  rw [if_pos taken]

theorem Stuck.withGuard (free : held.any (blocks lock mode) = false)
    (inside : Stuck body ⟨value, (lock, mode) :: held⟩) : Stuck (withGuard lock mode body) ⟨value, held⟩ := by
  obtain ⟨wanted, stuck, failed⟩ := inside
  refine ⟨wanted, stuck, ?_⟩
  change (if held.any (blocks lock mode) = true then _ else _) = _
  rw [if_neg (by simp [free])]
  change body.exec { value, held := (lock, mode) :: held } = _ at failed
  rw [failed]

end Stuck
end Lib.Guards
