import ErgoNode.Lib.Wrapping
import Mathlib.Algebra.GroupWithZero.Nat
import Mathlib.Algebra.Order.Ring.Int

/-!
# Arithmetic that may overflow

A value as a machine word leaves it, with whether a step on the way to it overflowed: a build with checks
stops there, one without goes on with the word.
-/

namespace Lib

structure Overflowing (α : Type) where
  value : α
  overflowed : Bool
  deriving DecidableEq

namespace Overflowing
variable {α β : Type}

instance : Monad Overflowing where
  pure a := ⟨a, false⟩
  bind x f := ⟨(f x.value).value, x.overflowed || (f x.value).overflowed⟩

instance : LawfulMonad Overflowing := LawfulMonad.mk' Overflowing
  (by
    rintro α ⟨value, overflowed⟩
    change Overflowing.mk value (overflowed || false) = _
    rw [Bool.or_false])
  (fun _ _ => rfl)
  (by
    rintro α β γ ⟨value, overflowed⟩ f g
    change Overflowing.mk _ (_ || _ || _) = Overflowing.mk _ (_ || (_ || _))
    rw [Bool.or_assoc]
    rfl)

@[simp] theorem value_bind (x : Overflowing α) (f : α → Overflowing β) : (x >>= f).value = (f x.value).value := rfl

@[simp] theorem overflowed_bind (x : Overflowing α) (f : α → Overflowing β) :
    (x >>= f).overflowed = (x.overflowed || (f x.value).overflowed) := rfl

@[simp] theorem value_pure (a : α) : (pure a : Overflowing α).value = a := rfl

@[simp] theorem overflowed_pure (a : α) : (pure a : Overflowing α).overflowed = false := rfl

section Words
variable (word : Nat) (a b : Nat)

def add : Overflowing Nat := ⟨(a + b) % word, decide (word ≤ a + b)⟩

def sub : Overflowing Nat := ⟨(a + word - b) % word, decide (a < b)⟩

def mul : Overflowing Nat := ⟨a * b % word, decide (word ≤ a * b)⟩

variable {word a b}

theorem add_eq (fits : a + b < word) : add word a b = pure (a + b) := by
  rw [add, Nat.mod_eq_of_lt fits, decide_eq_false (Nat.not_le_of_lt fits)]
  rfl

theorem sub_eq (le : b ≤ a) (fits : a < word) : sub word a b = pure (a - b) := by
  rw [sub, Nat.sub_add_comm le, Nat.add_mod_right, Nat.mod_eq_of_lt (Nat.lt_of_le_of_lt (Nat.sub_le ..) fits),
    decide_eq_false (Nat.not_lt_of_le le)]
  rfl

theorem mul_eq (fits : a * b < word) : mul word a b = pure (a * b) := by
  rw [mul, Nat.mod_eq_of_lt fits, decide_eq_false (Nat.not_le_of_lt fits)]
  rfl

@[simp] theorem value_add : (add word a b).value = (a + b) % word := rfl

@[simp] theorem value_mul : (mul word a b).value = a * b % word := rfl

end Words

/-! ### 64-bit signed words -/

section Signed
variable {a b : Int64} {amount count : Nat}

def shl (a : Int64) (amount : Nat) : Overflowing Int64 := ⟨a <<< Int64.ofNat amount, decide (64 ≤ amount)⟩

def times (a b : Int64) : Overflowing Int64 :=
  ⟨a * b, decide (a.toInt * b.toInt < -2 ^ 63 ∨ 2 ^ 63 ≤ a.toInt * b.toInt)⟩

def plus (a b : Int64) : Overflowing Int64 :=
  ⟨a + b, decide (a.toInt + b.toInt < -2 ^ 63 ∨ 2 ^ 63 ≤ a.toInt + b.toInt)⟩

theorem plus_eq (low : -2 ^ 63 ≤ a.toInt + b.toInt) (high : a.toInt + b.toInt < 2 ^ 63) : plus a b = pure (a + b) := by
  rw [plus, decide_eq_false (by omega)]
  rfl

theorem foldlM_plus {start : Int64} {deltas : List Int64} (low : 0 ≤ start.toInt) (lows : ∀ d ∈ deltas, 0 ≤ d.toInt)
    (fits : start.toInt + (deltas.map Int64.toInt).sum < 2 ^ 63) :
    ∃ total, deltas.foldlM plus start = pure total ∧ total.toInt = start.toInt + (deltas.map Int64.toInt).sum := by
  induction deltas generalizing start with
  | nil => exact ⟨start, rfl, (Int.add_zero _).symm⟩
  | cons d rest ih =>
      have lows' := fun b member => lows b (List.mem_cons_of_mem d member)
      have head := lows d List.mem_cons_self
      have later := sum_toInt_nonneg lows'
      rw [List.map_cons, List.sum_cons] at fits ⊢
      have next := toInt_add_of_fits low head (by omega)
      obtain ⟨total, added, value⟩ := @ih (start + d) (by omega) lows' (by omega)
      refine ⟨total, ?_, by omega⟩
      rw [List.foldlM_cons, plus_eq (by omega) (by omega), pure_bind, added]

theorem toInt_shl_one (inside : amount < 63) : (shl 1 amount).value.toInt = 2 ^ amount := by
  revert amount
  decide

theorem toInt_shl_one_top : (shl 1 63).value.toInt = -2 ^ 63 := by
  decide

theorem shl_times_exact (fits : count < 2 ^ 63) :
    (do let power ← shl 1 amount; times power (Int64.ofNat count)).overflowed = false ↔
      amount ≤ 63 ∧ (2 ^ amount * count < 2 ^ 63 ∨ count ≤ 1) := by
  have factor : (Int64.ofNat count).toInt = count := Int64.toInt_ofNat_of_lt fits
  rw [overflowed_bind, Bool.or_eq_false_iff, times, factor, shl, decide_eq_false_iff_not, decide_eq_false_iff_not]
  rcases Nat.lt_trichotomy amount 63 with below | rfl | above
  · have power := toInt_shl_one below
    rw [shl] at power
    have bit : 2 ^ amount < 2 ^ 63 := Nat.pow_lt_pow_right (by decide) below
    have single : count ≤ 1 → 2 ^ amount * count < 2 ^ 63 := fun le =>
      Nat.lt_of_le_of_lt (Nat.mul_le_mul_left _ le) (by omega)
    rw [power]
    norm_cast
    omega
  · have power := toInt_shl_one_top
    rw [shl] at power
    rw [power]
    omega
  · omega

theorem toInt_shl_times (positive : 0 < count) (fits : 2 ^ amount * count < 2 ^ 63) :
    (do let power ← shl 1 amount; times power (Int64.ofNat count)).value.toInt =
      ((2 ^ amount * count : Nat) : Int) := by
  have small : count < 2 ^ 63 := Nat.lt_of_le_of_lt (Nat.le_mul_of_pos_left _ (Nat.two_pow_pos _)) fits
  have bit : 2 ^ amount < 2 ^ 63 := Nat.lt_of_le_of_lt (Nat.le_mul_of_pos_right _ positive) fits
  have power := toInt_shl_one ((Nat.pow_lt_pow_iff_right (by decide)).mp bit)
  have product : (2 : Int) ^ amount * count = ((2 ^ amount * count : Nat) : Int) := by
    push_cast
    rfl
  rw [value_bind, times, Int64.toInt_mul, power, Int64.toInt_ofNat_of_lt small, product]
  generalize 2 ^ amount * count = score at fits ⊢
  exact Int.bmod_eq_of_le (by omega) (by omega)

end Signed
end Overflowing
end Lib
