import Mathlib.Algebra.Order.Ring.Nat

/-!
# Numbers of a bounded mantissa

A number is kept as a mantissa below a bound and an exponent, and its lower digits are cut off. The
exponent is the least that lets the mantissa fit.
-/

namespace Lib.Floating
variable {base bound k j n m : Nat}

def cut (base k n : Nat) : Nat := n / base ^ k * base ^ k

structure Exponent (base bound k n : Nat) : Prop where
  fits : n < bound * base ^ k
  least : ∀ j < k, bound * base ^ j ≤ n

theorem cut_le (base k n : Nat) : cut base k n ≤ n := Nat.div_mul_le_self n _

theorem le_cut (multiple : base ^ k ∣ m) (le : m ≤ n) : m ≤ cut base k n := by
  obtain ⟨q, rfl⟩ := multiple
  rw [cut, Nat.mul_comm]
  rcases Nat.eq_zero_or_pos (base ^ k) with zero | positive
  · rw [zero, Nat.mul_zero, Nat.mul_zero]
  · apply Nat.mul_le_mul_right
    rwa [Nat.le_div_iff_mul_le positive, Nat.mul_comm]

theorem cut_eq_self (multiple : base ^ k ∣ n) : cut base k n = n := Nat.div_mul_cancel multiple

theorem lt_cut_add (positive : 0 < base) (k n : Nat) : n < cut base k n + base ^ k :=
  Nat.lt_div_mul_add (Nat.pow_pos positive)

theorem Exponent.mono (exponent : Exponent base bound k n) (exponent' : Exponent base bound j m) (le : n ≤ m) :
    k ≤ j := by
  by_contra above
  have low := exponent.least j (by omega)
  have high := exponent'.fits
  omega

theorem Exponent.unique (exponent : Exponent base bound k n) (exponent' : Exponent base bound j n) : k = j :=
  Nat.le_antisymm (exponent.mono exponent' le_rfl) (exponent'.mono exponent le_rfl)

theorem Exponent.error (exponent : Exponent base bound k n) (positive : 0 < base) (nonzero : 0 < n) :
    (n - cut base k n) * bound < n * base := by
  cases k with
  | zero =>
      rw [cut_eq_self (by simp), Nat.sub_self, Nat.zero_mul]
      exact Nat.mul_pos nonzero positive
  | succ k =>
      have close := lt_cut_add positive (k + 1) n
      have low := exponent.least k (Nat.lt_succ_self k)
      rcases Nat.eq_zero_or_pos bound with rfl | bounded
      · rw [Nat.mul_zero]
        exact Nat.mul_pos nonzero positive
      · calc (n - cut base (k + 1) n) * bound < base ^ (k + 1) * bound := by
              apply Nat.mul_lt_mul_of_pos_right _ bounded
              have below := cut_le base (k + 1) n
              omega
          _ = bound * base ^ k * base := by rw [Nat.pow_succ, Nat.mul_comm, Nat.mul_assoc]
          _ ≤ n * base := Nat.mul_le_mul_right base low

theorem Exponent.bound_le_cut (exponent : Exponent base bound (k + 1) n) (aligned : base ∣ bound) :
    bound * base ^ k ≤ cut base (k + 1) n := by
  apply le_cut _ (exponent.least k (Nat.lt_succ_self k))
  rw [Nat.pow_succ, Nat.mul_comm]
  exact Nat.mul_dvd_mul_right aligned _

theorem Exponent.cut (exponent : Exponent base bound k n) (positive : 0 < base) (aligned : base ∣ bound) :
    Exponent base bound k (cut base k n) where
  fits := Nat.lt_of_le_of_lt (cut_le base k n) exponent.fits
  least j below := by
    obtain ⟨k, rfl⟩ := Nat.exists_eq_add_one_of_ne_zero (Nat.ne_of_gt (Nat.zero_lt_of_lt below))
    calc bound * base ^ j ≤ bound * base ^ k :=
          Nat.mul_le_mul_left bound (Nat.pow_le_pow_right positive (Nat.le_of_lt_succ below))
      _ ≤ Floating.cut base (k + 1) n := exponent.bound_le_cut aligned

theorem Exponent.cut_mono (exponent : Exponent base bound k n) (exponent' : Exponent base bound j m)
    (positive : 0 < base) (aligned : base ∣ bound) (le : n ≤ m) :
    Floating.cut base k n ≤ Floating.cut base j m := by
  rcases Nat.eq_or_lt_of_le (exponent.mono exponent' le) with rfl | below
  · exact Nat.mul_le_mul_right _ (Nat.div_le_div_right le)
  · calc Floating.cut base k n ≤ n := cut_le base k n
      _ ≤ bound * base ^ k := Nat.le_of_lt exponent.fits
      _ ≤ Floating.cut base j m := (exponent'.cut positive aligned).least k below

theorem Exponent.le_cut_of_word (exponent : Exponent base bound k n) (positive : 0 < base) (aligned : base ∣ bound)
    {word : Nat} (small : word < bound) (le : word * base ^ j ≤ n) : word * base ^ j ≤ Floating.cut base k n := by
  rcases Nat.lt_or_ge j k with below | above
  · calc word * base ^ j ≤ bound * base ^ j := Nat.mul_le_mul_right _ (Nat.le_of_lt small)
      _ ≤ Floating.cut base k n := (exponent.cut positive aligned).least j below
  · exact le_cut (Nat.dvd_mul_left_of_dvd (Nat.pow_dvd_pow base above) word) le

end Lib.Floating
