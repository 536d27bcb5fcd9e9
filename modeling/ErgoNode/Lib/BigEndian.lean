import Mathlib.Algebra.Group.Nat.Defs

/-!
# Big-endian numbers

Numbers as so many bytes, the highest first. What does not fit is cut off.
-/

namespace Lib.BigEndian

def write : Nat → Nat → List UInt8
  | 0, _ => []
  | size + 1, n => write size (n / 256) ++ [UInt8.ofNat n]

def read (bytes : List UInt8) : Nat := bytes.foldl (fun n byte => n * 256 + byte.toNat) 0

@[simp] theorem length_write (size n : Nat) : (write size n).length = size := by
  induction size generalizing n with
  | zero => rfl
  | succ size ih => simp [write, ih]

theorem read_concat (bytes : List UInt8) (last : UInt8) : read (bytes ++ [last]) = read bytes * 256 + last.toNat := by
  simp [read]

theorem read_lt (bytes : List UInt8) : read bytes < 256 ^ bytes.length := by
  have loop (n : Nat) : bytes.foldl (fun n byte => n * 256 + byte.toNat) n < (n + 1) * 256 ^ bytes.length := by
    induction bytes generalizing n with
    | nil => simp
    | cons byte rest ih =>
        have digit := byte.toNat_lt
        rw [List.foldl_cons, List.length_cons, Nat.pow_succ', ← Nat.mul_assoc]
        exact Nat.lt_of_lt_of_le (ih _) (Nat.mul_le_mul_right _ (by omega))
  have whole := loop 0
  rwa [Nat.zero_add, Nat.one_mul] at whole

theorem read_write (size n : Nat) : read (write size n) = n % 256 ^ size := by
  induction size generalizing n with
  | zero => simp [write, read, Nat.mod_one]
  | succ size ih =>
      have byte : (UInt8.ofNat n).toNat = n % 256 := by simp
      rw [write, read_concat, ih, byte, Nat.pow_succ', Nat.mod_mul]
      omega

theorem write_mod (size n : Nat) : write size (n % 256 ^ size) = write size n := by
  induction size generalizing n with
  | zero => rfl
  | succ size ih =>
      have last : UInt8.ofNat (n % 256 ^ (size + 1)) = UInt8.ofNat n := by
        apply UInt8.toNat_inj.mp
        rw [UInt8.toNat_ofNat', UInt8.toNat_ofNat', Nat.pow_succ']
        exact Nat.mod_mod_of_dvd n (Nat.dvd_mul_right 256 _)
      rw [write, write, last, Nat.pow_succ', Nat.mod_mul_right_div_self, ih]

@[simp] theorem take_write (size n : Nat) (rest : List UInt8) : (write size n ++ rest).take size = write size n :=
  List.take_left' (length_write size n)

@[simp] theorem drop_write (size n : Nat) (rest : List UInt8) : (write size n ++ rest).drop size = rest :=
  List.drop_left' (length_write size n)

end Lib.BigEndian
