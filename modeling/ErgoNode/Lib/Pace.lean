import ErgoNode.Lib.Run
import Mathlib.Tactic.Ring

/-!
# Events that are kept apart

An event is let through only if some time has passed since the last one. The date of the last event may be
lost with what keeps it, or moved on without an event; then nothing happens earlier than it would have.
-/

namespace Lib
variable {S A : Type}

/-- What is counted, the time, and the date of the last event. -/
structure Pace (S : Type) where
  count : S → Int
  clock : S → Int
  last : S → Option Int

namespace Pace
variable (pace : Pace S) (interval weight : Int)

/-- A step either counts nothing, or is an event that is due. -/
inductive Step (s t : S) : Prop
  | quiet (same : pace.count t ≤ pace.count s)
      (dated : ∀ {last}, pace.last t = some last → pace.last s = some last ∨ last = pace.clock t)
  | event {last : Int} (more : pace.count t ≤ pace.count s + weight) (known : pace.last s = some last)
      (due : last + interval ≤ pace.clock t) (dated : pace.last t = some (pace.clock t))

structure Within (start s : S) (rounds : Nat) : Prop where
  counted : pace.count s ≤ pace.count start + weight * rounds
  later : pace.clock start ≤ pace.clock s
  elapsed : pace.clock start + interval * rounds ≤ pace.clock s + interval
  dated : ∀ {last}, pace.last s = some last → 0 < rounds → pace.clock start + interval * rounds ≤ last + interval

variable {pace interval weight} {start s t : S}

theorem Step.after {u : S} (step : pace.Step interval weight t u) (same : pace.count t ≤ pace.count s)
    (dated : ∀ {last}, pace.last t = some last → pace.last s = some last) : pace.Step interval weight s u := by
  cases step with
  | quiet fewer later => exact .quiet (fewer.trans same) fun found => (later found).imp_left dated
  | event more known due later => exact .event (more.trans (Int.add_le_add_right same weight)) (dated known) due later

theorem Step.before {u : S} (step : pace.Step interval weight s t) (same : pace.count u = pace.count t)
    (now : pace.clock u = pace.clock t) (dated : pace.last u = pace.last t) : pace.Step interval weight s u := by
  cases step with
  | quiet fewer later => exact .quiet (same.trans_le fewer) fun found => now ▸ later (dated.symm.trans found)
  | event more known due later =>
      exact .event (same.trans_le more) known (due.trans_eq now.symm) (dated.trans (later.trans (congrArg some now.symm)))

theorem within_refl (positive : 0 < interval) : pace.Within interval weight s s 0 where
  counted := by simp
  later := Int.le_refl _
  elapsed := by
    rw [Nat.cast_zero, mul_zero, add_zero]
    omega
  dated _ none := absurd none (Nat.lt_irrefl 0)

theorem Within.step {rounds : Nat} (within : pace.Within interval weight start s rounds)
    (late : pace.clock s ≤ pace.clock t) (step : pace.Step interval weight s t) :
    ∃ rounds, pace.Within interval weight start t rounds := by
  have later := within.later
  have elapsed := within.elapsed
  have counted := within.counted
  cases step with
  | quiet same dated =>
      refine ⟨rounds, same.trans counted, later.trans late, elapsed.trans (Int.add_le_add_right late _), ?_⟩
      intro last found some
      rcases dated found with before | rfl
      · exact within.dated before some
      · exact elapsed.trans (Int.add_le_add_right late _)
  | @event last more known due dated =>
      have next : interval * (rounds + 1 : Nat) = interval * rounds + interval := by push_cast; ring
      have paid : weight * (rounds + 1 : Nat) = weight * rounds + weight := by push_cast; ring
      -- The first event needs no interval before it.
      have spaced : pace.clock start + interval * (rounds + 1 : Nat) ≤ pace.clock t + interval := by
        rw [next]
        rcases Nat.eq_zero_or_pos rounds with rfl | some
        · rw [Nat.cast_zero, mul_zero]
          omega
        · have since := within.dated known some
          omega
      refine ⟨rounds + 1, ?_, later.trans late, spaced, fun found _ => ?_⟩
      · rw [paid]
        omega
      · cases dated.symm.trans found
        exact spaced

/-- One event to begin with, and one more for each interval that has passed. -/
theorem count_le {step : S → A → Option S} {P : S → A → Prop} {actions : List A} {Inv : S → Prop} (positive : 0 < interval)
    (free : 0 ≤ weight)
    (moved : ∀ {s a t}, Inv s → P s a → step s a = some t →
      Inv t ∧ pace.clock s ≤ pace.clock t ∧ pace.Step interval weight s t)
    (given : Inv s) (along : Along step P s actions) (ran : run step s actions = some t) :
    pace.count t ≤ pace.count s + weight * ((pace.clock t - pace.clock s) / interval + 1) := by
  obtain ⟨-, rounds, within⟩ := along.invariant (fun t => Inv t ∧ ∃ rounds, pace.Within interval weight s t rounds)
    (fun ⟨inv, _, within⟩ condition taken =>
      have ⟨after, late, counted⟩ := moved inv condition taken
      ⟨after, within.step late counted⟩)
    ⟨given, 0, within_refl positive⟩ t ⟨actions, List.prefix_rfl, ran⟩
  have few : (rounds : Int) ≤ (pace.clock t - pace.clock s) / interval + 1 := by
    have elapsed := within.elapsed
    have whole : ((rounds : Int) - 1) * interval ≤ pace.clock t - pace.clock s := by
      rw [sub_mul, one_mul, mul_comm]
      omega
    have bound := (Int.le_ediv_iff_mul_le positive).mpr whole
    omega
  exact within.counted.trans (Int.add_le_add_left (Int.mul_le_mul_of_nonneg_left few free) _)

end Pace
end Lib
