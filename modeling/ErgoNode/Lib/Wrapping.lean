import Mathlib.Algebra.BigOperators.Group.List.Basic
import Mathlib.Algebra.GroupWithZero.Nat
import Mathlib.Algebra.Order.Ring.Int
import Mathlib.Data.List.Infix

/-!
# Sums that wrap around

A sum of machine numbers is taken modulo the word at every addition. It is exact, after every addition,
just when the sum of all the numbers fits the word. Signed numbers of 64 bits form a group under addition,
which wraps around as well.
-/

namespace Lib
variable {word : Nat} {amounts : List Nat}

def wrappingSum (word : Nat) (amounts : List Nat) : Nat := amounts.foldl (fun sum amount => (sum + amount) % word) 0

theorem foldl_wrapping (amounts : List Nat) (start : Nat) :
    amounts.foldl (fun sum amount => (sum + amount) % word) (start % word) = (start + amounts.sum) % word := by
  induction amounts generalizing start with
  | nil => simp
  | cons amount rest ih =>
      rw [List.foldl_cons, List.sum_cons, Nat.mod_add_mod, ih, Nat.add_assoc]

theorem wrappingSum_eq (amounts : List Nat) : wrappingSum word amounts = amounts.sum % word := by
  have sum := @foldl_wrapping word amounts 0
  rwa [Nat.zero_mod, Nat.zero_add] at sum

/-- No addition wraps around. -/
def Unwrapped (word : Nat) (amounts : List Nat) : Prop :=
  ∀ front, front <+: amounts → wrappingSum word front = front.sum

theorem unwrapped_iff (positive : 0 < word) : Unwrapped word amounts ↔ amounts.sum < word := by
  constructor
  · intro exact
    have whole := exact amounts (List.prefix_refl amounts)
    rw [wrappingSum_eq] at whole
    exact whole ▸ Nat.mod_lt amounts.sum positive
  · rintro fits front ⟨rest, rfl⟩
    rw [List.sum_append] at fits
    rw [wrappingSum_eq, Nat.mod_eq_of_lt (Nat.lt_of_le_of_lt (Nat.le_add_right ..) fits)]

theorem toNat_foldl_add {S A : Type} {step : S → A → S} (word : S → UInt64) {amount : A → Nat}
    (adds : ∀ s a, (word (step s a)).toNat = ((word s).toNat + amount a) % 2 ^ 64) (list : List A) (start : S) :
    (word (list.foldl step start)).toNat = ((word start).toNat + (list.map amount).sum) % 2 ^ 64 := by
  induction list generalizing start with
  | nil => exact (Nat.mod_eq_of_lt (UInt64.toNat_lt _)).symm
  | cons a rest ih =>
      rw [List.foldl_cons, ih, adds, Nat.mod_add_mod, Nat.add_assoc, List.map_cons, List.sum_cons]

/-! ### 64-bit signed numbers -/

instance addCommGroupInt64 : AddCommGroup Int64 where
  add_assoc := Int64.add_assoc
  zero_add := Int64.zero_add
  add_zero := Int64.add_zero
  nsmul := nsmulRec
  zsmul := zsmulRec
  neg_add_cancel := Int64.add_left_neg
  add_comm := Int64.add_comm
  sub_eq_add_neg := Int64.sub_eq_add_neg

theorem toInt_add_of_fits {a b : Int64} (low : 0 ≤ a.toInt) (low' : 0 ≤ b.toInt) (fits : a.toInt + b.toInt < 2 ^ 63) :
    (a + b).toInt = a.toInt + b.toInt := by
  rw [Int64.toInt_add, Int.bmod_eq_of_le] <;> omega

theorem sum_toInt_nonneg {l : List Int64} (low : ∀ a ∈ l, 0 ≤ a.toInt) : 0 ≤ (l.map Int64.toInt).sum := by
  induction l with
  | nil => exact le_rfl
  | cons a rest ih =>
      have later := ih fun b member => low b (List.mem_cons_of_mem a member)
      have head := low a List.mem_cons_self
      rw [List.map_cons, List.sum_cons]
      omega

theorem toInt_sum_of_fits {l : List Int64} (low : ∀ a ∈ l, 0 ≤ a.toInt) (fits : (l.map Int64.toInt).sum < 2 ^ 63) :
    l.sum.toInt = (l.map Int64.toInt).sum := by
  induction l with
  | nil => rfl
  | cons a rest ih =>
      have low' := fun b member => low b (List.mem_cons_of_mem a member)
      have head := low a List.mem_cons_self
      have later := sum_toInt_nonneg low'
      rw [List.map_cons, List.sum_cons] at fits ⊢
      have total := ih low' (by omega)
      rw [List.sum_cons, toInt_add_of_fits head (by omega) (by omega), total]

end Lib
