import Mathlib.Data.List.Basic
import Mathlib.Data.Nat.Digits.Defs
import Mathlib.Tactic.Ring

/-!
# Variable-length quantities

64-bit numbers in groups of seven bits, the lowest group first; all bytes but the last have their top
bit set. Ten bytes are enough for any of them, and more are refused. Signed numbers are folded into
unsigned ones first, so that those near zero stay short.
-/

namespace Lib.Vlq

inductive Fault where
  | truncated
  | overflow
  deriving DecidableEq

def encodeLoop : Nat → Nat → List UInt8
  | 0, value => [UInt8.ofNat (value % 128)]
  | more + 1, value =>
      if value / 128 = 0 then [UInt8.ofNat (value % 128)]
      else UInt8.ofNat (value % 128 + 128) :: encodeLoop more (value / 128)

def encode (value : Nat) : List UInt8 := encodeLoop 9 value

/-- Shifted-out bits of the last group are lost. -/
def decodeLoop (value shift read : Nat) : List UInt8 → Except Fault (Nat × Nat)
  | [] => .error .truncated
  | byte :: rest =>
      let value := value ||| (byte.toNat % 128) <<< shift % 2 ^ 64
      if byte.toNat < 128 then .ok (value, read + 1)
      else if shift + 7 > 63 then .error .overflow
      else decodeLoop value (shift + 7) (read + 1) rest

/-- The number that the bytes start with, and how many bytes it takes there. -/
def decode (bytes : List UInt8) : Except Fault (Nat × Nat) := decodeLoop 0 0 0 bytes

def groups : Nat → Nat → Nat
  | 0, _ => 0
  | more + 1, value => if value = 0 then 0 else groups more (value / 128) + 1

def byteLen (value : Nat) : Nat := if value = 0 then 1 else groups 10 value

/-! ### Encoding, then decoding -/

theorem or_group {value shift group : Nat} (below : value < 2 ^ shift)
    (fits : group * 2 ^ shift < 2 ^ 64) :
    value ||| group <<< shift % 2 ^ 64 = value + group * 2 ^ shift := by
  rw [Nat.shiftLeft_eq, Nat.mod_eq_of_lt fits, Nat.or_comm, ← Nat.shiftLeft_eq,
    ← Nat.shiftLeft_add_eq_or_of_lt below, Nat.add_comm]

theorem group_add (value shift : Nat) :
    value % 128 * 2 ^ shift + value / 128 * 2 ^ (shift + 7) = value * 2 ^ shift := by
  rw [pow_add, Nat.mul_comm (2 ^ shift), ← Nat.mul_assoc, ← Nat.add_mul]
  congr 1
  omega

theorem decodeLoop_encodeLoop {more value shift acc : Nat} (read : Nat) (rest : List UInt8)
    (room : shift + 7 * more = 63) (below : acc < 2 ^ shift) (fits : value < 2 ^ (7 * more + 1)) :
    decodeLoop acc shift read (encodeLoop more value ++ rest) =
      .ok (acc + value * 2 ^ shift, read + (encodeLoop more value).length) := by
  induction more generalizing value shift acc read with
  | zero =>
      obtain rfl : shift = 63 := by omega
      have small : value < 2 := by simpa using fits
      have group : (UInt8.ofNat (value % 128)).toNat = value := by simp; omega
      rw [encodeLoop, List.singleton_append, decodeLoop, group, if_pos (by omega),
        Nat.mod_eq_of_lt (by omega : value < 128), or_group below (by omega)]
      rfl
  | succ more ih =>
      have pow : 2 ^ (shift + 7) = 2 ^ shift * 128 := pow_add 2 shift 7
      have high : 2 ^ (shift + 7) ≤ 2 ^ 63 := Nat.pow_le_pow_right (by decide) (by omega)
      have group : value % 128 * 2 ^ shift ≤ 127 * 2 ^ shift :=
        Nat.mul_le_mul_right _ (Nat.le_of_lt_succ (Nat.mod_lt _ (by decide)))
      rw [encodeLoop]
      split
      · next last =>
          have small : value < 128 := by omega
          have byte : (UInt8.ofNat (value % 128)).toNat = value := by simp; omega
          rw [List.singleton_append, decodeLoop, byte, if_pos small, Nat.mod_eq_of_lt small,
            or_group below (by rw [Nat.mod_eq_of_lt small] at group; omega)]
          rfl
      · next continued =>
          have byte : (UInt8.ofNat (value % 128 + 128)).toNat = value % 128 + 128 := by simp; omega
          have lower : (value % 128 + 128) % 128 = value % 128 := by omega
          have smaller : value / 128 < 2 ^ (7 * more + 1) := by
            refine Nat.div_lt_of_lt_mul ?_
            rwa [Nat.mul_succ, Nat.add_right_comm, Nat.pow_add, Nat.mul_comm] at fits
          rw [List.cons_append, decodeLoop, byte, if_neg (by omega), if_neg (by omega), lower,
            or_group below (by omega),
            ih (read + 1) (by omega) (by omega) smaller, Nat.add_assoc, group_add, Nat.add_right_comm]
          rfl

theorem decode_encode_append {value : Nat} (fits : value < 2 ^ 64) (rest : List UInt8) :
    decode (encode value ++ rest) = .ok (value, (encode value).length) := by
  have decoded := @decodeLoop_encodeLoop 9 value 0 0 0 rest (by decide) (by decide) fits
  rw [decode, encode, decoded]
  simp

theorem encode_ne_nil (value : Nat) : encode value ≠ [] := by
  rw [encode, encodeLoop]
  split <;> simp

theorem encode_zero : encode 0 = [0] := rfl

/-! ### What decoding reads -/

/-- A decoded number is a 64-bit number, and is below what the bytes it took could hold. -/
theorem decodeLoop_eq_ok {value acc shift read used : Nat} {bytes : List UInt8}
    (position : shift = 7 * read) (below : acc < 2 ^ shift) (fits : acc < 2 ^ 64)
    (decoded : decodeLoop acc shift read bytes = .ok (value, used)) :
    read < used ∧ used ≤ read + bytes.length ∧ value < 2 ^ 64 ∧ value < 2 ^ (7 * used) := by
  induction bytes generalizing acc shift read with
  | nil => cases decoded
  | cons byte rest ih =>
      have group : (byte.toNat % 128) <<< shift % 2 ^ 64 < 2 ^ (shift + 7) := by
        refine Nat.lt_of_le_of_lt (Nat.mod_le _ _) ?_
        rw [Nat.shiftLeft_eq, Nat.mul_comm, Nat.pow_add]
        exact Nat.mul_lt_mul_of_pos_left (Nat.mod_lt _ (by decide)) (Nat.two_pow_pos shift)
      have wider : acc < 2 ^ (shift + 7) :=
        Nat.lt_of_lt_of_le below (Nat.pow_le_pow_right (by decide) (Nat.le_add_right _ _))
      have grown := Nat.or_lt_two_pow wider group
      have bounded := Nat.or_lt_two_pow fits (Nat.mod_lt ((byte.toNat % 128) <<< shift) (Nat.two_pow_pos 64))
      have next : shift + 7 = 7 * (read + 1) := by omega
      rw [decodeLoop] at decoded
      split at decoded
      · cases decoded
        rw [next] at grown
        exact ⟨by omega, by simp, bounded, grown⟩
      · split at decoded
        · cases decoded
        · obtain ⟨less, within, small, held⟩ := ih next grown bounded decoded
          rw [List.length_cons]
          exact ⟨by omega, by omega, small, held⟩

theorem decode_eq_ok {value used : Nat} {bytes : List UInt8} (decoded : decode bytes = .ok (value, used)) :
    0 < used ∧ used ≤ bytes.length ∧ value < 2 ^ 64 ∧ value < 2 ^ (7 * used) := by
  have facts := decodeLoop_eq_ok (by rfl) (by decide) (by decide) decoded
  rwa [Nat.zero_add] at facts

theorem decodeLoop_append {acc shift read : Nat} {bytes : List UInt8} {found : Nat × Nat}
    (decoded : decodeLoop acc shift read bytes = .ok found) (more : List UInt8) :
    decodeLoop acc shift read (bytes ++ more) = .ok found := by
  induction bytes generalizing acc shift read with
  | nil => cases decoded
  | cons byte rest ih =>
      rw [List.cons_append]
      rw [decodeLoop] at decoded ⊢
      split at decoded
      · next last => rwa [if_pos last]
      · next goesOn =>
          rw [if_neg goesOn]
          split at decoded
          · cases decoded
          · next room => rw [if_neg room, ih decoded]

theorem decode_append {bytes : List UInt8} {found : Nat × Nat} (decoded : decode bytes = .ok found)
    (more : List UInt8) : decode (bytes ++ more) = .ok found := decodeLoop_append decoded more

theorem groups_le {more value bound : Nat} (below : value < 2 ^ (7 * bound)) : groups more value ≤ bound := by
  induction more generalizing value bound with
  | zero => exact Nat.zero_le _
  | succ more ih =>
      rw [groups]
      split
      · exact Nat.zero_le _
      · next positive =>
          cases bound with
          | zero => simp at below; omega
          | succ bound =>
              rw [Nat.mul_succ, Nat.pow_add] at below
              exact Nat.succ_le_succ (ih (Nat.div_lt_of_lt_mul (by omega)))

theorem byteLen_le {value used : Nat} {bytes : List UInt8} (decoded : decode bytes = .ok (value, used)) :
    byteLen value ≤ used := by
  obtain ⟨positive, -, -, held⟩ := decode_eq_ok decoded
  rw [byteLen]
  split
  · exact positive
  · exact groups_le held

theorem length_encodeLoop {more value : Nat} (positive : value ≠ 0) (fits : value < 128 ^ (more + 1)) :
    (encodeLoop more value).length = groups (more + 1) value := by
  induction more generalizing value with
  | zero =>
      rw [groups, if_neg positive]
      rfl
  | succ more ih =>
      rw [encodeLoop, groups, if_neg positive]
      split
      · next last => simp [groups, last]
      · next continued =>
          rw [List.length_cons, ih continued (Nat.div_lt_of_lt_mul (by rw [Nat.pow_succ] at fits; omega))]

theorem byteLen_eq {value : Nat} (fits : value < 2 ^ 64) : byteLen value = (encode value).length := by
  rw [byteLen]
  split
  · next zero =>
      subst zero
      rfl
  · next positive => exact (length_encodeLoop positive (by omega)).symm

/-! ### The number that the bytes write down -/

def groupsOf (bytes : List UInt8) : List Nat := bytes.map fun byte => byte.toNat % 128

/-- The sum of the groups, each times its power of 128. -/
def total (bytes : List UInt8) : Nat := Nat.ofDigits 128 (groupsOf bytes)

@[simp] theorem total_cons (byte : UInt8) (bytes : List UInt8) :
    total (byte :: bytes) = byte.toNat % 128 + 128 * total bytes := by
  simp [total, groupsOf, Nat.ofDigits_cons]

@[simp] theorem total_nil : total [] = 0 := rfl

theorem total_lt (bytes : List UInt8) : total bytes < 128 ^ bytes.length := by
  induction bytes with
  | nil => decide
  | cons byte rest ih =>
      rw [total_cons, List.length_cons, Nat.pow_succ]
      have group := Nat.mod_lt byte.toNat (by decide : 128 > 0)
      omega

theorem total_concat (bytes : List UInt8) (last : UInt8) :
    total (bytes ++ [last]) = total bytes + 128 ^ bytes.length * (last.toNat % 128) := by
  simp [total, groupsOf, Nat.ofDigits_append]

theorem or_group_mod {value shift group : Nat} (below : value < 2 ^ shift) (narrow : shift ≤ 63) :
    value ||| group <<< shift % 2 ^ 64 = (value + group * 2 ^ shift) % 2 ^ 64 := by
  have wide : value < 2 ^ 64 := Nat.lt_of_lt_of_le below (Nat.pow_le_pow_right (by decide) (by omega))
  calc value ||| group <<< shift % 2 ^ 64
      = (value ||| group <<< shift) % 2 ^ 64 := by rw [Nat.or_mod_two_pow, Nat.mod_eq_of_lt wide]
    _ = (value + group * 2 ^ shift) % 2 ^ 64 := by
        rw [Nat.or_comm, ← Nat.shiftLeft_add_eq_or_of_lt below, Nat.shiftLeft_eq, Nat.add_comm]

/-- All bytes of a number but its last one say that another follows. -/
structure IsNumber (front : List UInt8) (last : UInt8) : Prop where
  continued : ∀ byte ∈ front, 128 ≤ byte.toNat
  ended : last.toNat < 128

theorem IsNumber.nil {last : UInt8} (ended : last.toNat < 128) : IsNumber [] last := ⟨nofun, ended⟩

theorem isNumber_cons {first last : UInt8} {front : List UInt8} :
    IsNumber (first :: front) last ↔ 128 ≤ first.toNat ∧ IsNumber front last := by
  constructor
  · rintro ⟨continued, ended⟩
    obtain ⟨head, later⟩ := List.forall_mem_cons.mp continued
    exact ⟨head, later, ended⟩
  · rintro ⟨head, continued, ended⟩
    exact ⟨List.forall_mem_cons.mpr ⟨head, continued⟩, ended⟩

theorem exists_number_cons {byte : UInt8} {bytes : List UInt8} {P : List UInt8 → UInt8 → Prop} :
    (∃ front last rest, byte :: bytes = front ++ last :: rest ∧ IsNumber front last ∧ P front last) ↔
      byte.toNat < 128 ∧ P [] byte ∨
        128 ≤ byte.toNat ∧ ∃ front last rest, bytes = front ++ last :: rest ∧ IsNumber front last ∧
          P (byte :: front) last := by
  constructor
  · rintro ⟨front, last, rest, split, number, holds⟩
    cases front with
    | nil =>
        cases split
        exact .inl ⟨number.ended, holds⟩
    | cons first front =>
        cases split
        obtain ⟨more, number⟩ := isNumber_cons.mp number
        exact .inr ⟨more, front, last, rest, rfl, number, holds⟩
  · rintro (⟨ended, holds⟩ | ⟨more, front, last, rest, rfl, number, holds⟩)
    · exact ⟨[], byte, bytes, rfl, .nil ended, holds⟩
    · exact ⟨byte :: front, last, rest, rfl, isNumber_cons.mpr ⟨more, number⟩, holds⟩

theorem decodeLoop_eq_ok_iff {value acc shift more read used : Nat} {bytes : List UInt8}
    (room : shift + 7 * more = 63) (below : acc < 2 ^ shift) :
    decodeLoop acc shift read bytes = .ok (value, used) ↔
      ∃ front last rest, bytes = front ++ last :: rest ∧ IsNumber front last ∧ front.length ≤ more ∧
        (acc + total (front ++ [last]) * 2 ^ shift) % 2 ^ 64 = value ∧ read + front.length + 1 = used := by
  induction bytes generalizing acc shift more read with
  | nil => simp [decodeLoop]
  | cons byte bytes ih =>
      rw [decodeLoop, exists_number_cons]
      by_cases last : byte.toNat < 128
      · rw [if_pos last, or_group_mod below (by omega), and_iff_right last,
          or_iff_left fun later => Nat.not_le.mpr last later.1]
        simp
      · rw [if_neg last, or_iff_right fun now => last now.1, and_iff_right (Nat.not_lt.mp last)]
        cases more with
        | zero =>
            rw [if_pos (by omega)]
            refine iff_of_false nofun ?_
            rintro ⟨front, final, rest, -, -, short, -⟩
            exact Nat.not_succ_le_zero _ short
        | succ more =>
            have group := Nat.mod_lt byte.toNat (by decide : 128 > 0)
            have pow : 2 ^ (shift + 7) = 2 ^ shift * 128 := pow_add 2 shift 7
            have high : 2 ^ (shift + 7) ≤ 2 ^ 63 := Nat.pow_le_pow_right (by decide) (by omega)
            have grown : acc + byte.toNat % 128 * 2 ^ shift < 2 ^ (shift + 7) := by
              have := Nat.mul_le_mul_right (2 ^ shift) (Nat.le_of_lt_succ group)
              omega
            rw [if_neg (by omega), or_group_mod below (by omega), Nat.mod_eq_of_lt (by omega),
              @ih (acc + byte.toNat % 128 * 2 ^ shift) (shift + 7) more (read + 1) (by omega) grown]
            refine exists_congr fun front => exists_congr fun final => exists_congr fun rest => ?_
            have sum : acc + byte.toNat % 128 * 2 ^ shift + total (front ++ [final]) * 2 ^ (shift + 7) =
                acc + total (byte :: front ++ [final]) * 2 ^ shift := by
              rw [List.cons_append, total_cons, pow]
              ring
            have length : read + 1 + front.length + 1 = read + (byte :: front).length + 1 := by
              rw [List.length_cons]
              omega
            rw [sum, length, List.length_cons, Nat.add_le_add_iff_right]

/-- A number has at most ten bytes, and what it is given as is right up to 64 bits. -/
theorem decode_eq_ok_iff {value used : Nat} {bytes : List UInt8} :
    decode bytes = .ok (value, used) ↔
      ∃ front last rest, bytes = front ++ last :: rest ∧ IsNumber front last ∧ front.length ≤ 9 ∧
        total (front ++ [last]) % 2 ^ 64 = value ∧ front.length + 1 = used := by
  have loop := @decodeLoop_eq_ok_iff value 0 0 9 0 used bytes (by decide) (by decide)
  rw [decode]
  simpa only [Nat.zero_add, Nat.pow_zero, Nat.mul_one] using loop

/-- The tenth group of a number has bits beyond the 64th. -/
def Overlong (bytes : List UInt8) : Prop :=
  (∀ byte ∈ bytes.take 9, 128 ≤ byte.toNat) ∧ ∃ tenth ∈ bytes[9]?, 2 ≤ tenth.toNat ∧ tenth.toNat < 128

instance (bytes : List UInt8) : Decidable (Overlong bytes) :=
  inferInstanceAs (Decidable ((∀ byte ∈ _, _) ∧ ∃ tenth ∈ _, _))

theorem overlong_iff {bytes : List UInt8} : Overlong bytes ↔
    ∃ front last rest, bytes = front ++ last :: rest ∧ IsNumber front last ∧ front.length = 9 ∧ 2 ≤ last.toNat := by
  constructor
  · rintro ⟨continued, tenth, there, large, ended⟩
    obtain ⟨inside, rfl⟩ := List.getElem?_eq_some_iff.mp there
    refine ⟨bytes.take 9, bytes[9], bytes.drop 10, ?_, ⟨continued, ended⟩, ?_, large⟩
    · rw [← List.drop_eq_getElem_cons inside, List.take_append_drop]
    · rw [List.length_take]
      omega
  · rintro ⟨front, last, rest, rfl, ⟨continued, ended⟩, nine, large⟩
    refine ⟨?_, last, ?_, large, ended⟩
    · rwa [List.take_left' nine]
    · rw [← nine]
      simp

theorem total_number {front : List UInt8} {last : UInt8} (short : front.length ≤ 9) (ended : last.toNat < 128) :
    total (front ++ [last]) < 2 ^ 64 ↔ ¬ (front.length = 9 ∧ 2 ≤ last.toNat) := by
  have lower := total_lt front
  rw [total_concat, Nat.mod_eq_of_lt ended]
  rcases Nat.lt_or_eq_of_le short with fewer | nine
  · have pow : 128 ^ front.length ≤ 128 ^ 8 := Nat.pow_le_pow_right (by decide) (by omega)
    have group := Nat.mul_le_mul pow (Nat.le_of_lt_succ ended)
    exact iff_of_true (by omega) (by omega)
  · rw [nine] at lower ⊢
    omega

/-- The numbers that decoding gives are right exactly where no tenth group is too large. -/
theorem exact_iff {bytes : List UInt8} :
    (∀ value used, decode bytes = .ok (value, used) → total (bytes.take used) = value) ↔ ¬ Overlong bytes := by
  have taken (front : List UInt8) (last : UInt8) (rest : List UInt8) :
      (front ++ last :: rest).take (front.length + 1) = front ++ [last] := by
    rw [← List.singleton_append, ← List.append_assoc, List.take_left' (by simp)]
  rw [overlong_iff]
  constructor
  · rintro exact ⟨front, last, rest, rfl, number, nine, large⟩
    have decoded := decode_eq_ok_iff.mpr ⟨front, last, rest, rfl, number, Nat.le_of_eq nine, rfl, rfl⟩
    have same := exact _ _ decoded
    rw [taken] at same
    have small : total (front ++ [last]) < 2 ^ 64 := by
      rw [same]
      exact Nat.mod_lt _ (by decide)
    exact (total_number (Nat.le_of_eq nine) number.ended).mp small ⟨nine, large⟩
  · intro fine value used decoded
    obtain ⟨front, last, rest, rfl, number, short, rfl, rfl⟩ := decode_eq_ok_iff.mp decoded
    rw [taken]
    refine (Nat.mod_eq_of_lt ((total_number short number.ended).mpr ?_)).symm
    rintro ⟨nine, large⟩
    exact fine ⟨front, last, rest, rfl, number, nine, large⟩

/-! ### Decoding inside other bytes -/

/-- The loop over positions of `data`. It gives the position behind the number. -/
def decodeFrom (data : List UInt8) (value shift pos : Nat) : Except Fault (Nat × Nat) :=
  if inside : pos < data.length then
    let byte := data[pos]
    let value := value ||| (byte.toNat % 128) <<< shift % 2 ^ 64
    if byte.toNat < 128 then .ok (value, pos + 1)
    else if shift + 7 > 63 then .error .overflow
    else decodeFrom data value (shift + 7) (pos + 1)
  else .error .truncated
termination_by data.length - pos

theorem decodeFrom_eq (data : List UInt8) (value shift pos : Nat) :
    decodeFrom data value shift pos = decodeLoop value shift pos (data.drop pos) := by
  fun_induction decodeFrom data value shift pos with
  | case1 value shift pos inside byte _ last =>
      rw [List.drop_eq_getElem_cons inside, decodeLoop, if_pos last]
  | case2 value shift pos inside byte goesOn far =>
      rw [List.drop_eq_getElem_cons inside, decodeLoop, if_neg goesOn, if_pos far]
  | case3 value shift pos inside byte _ goesOn near ih =>
      rw [List.drop_eq_getElem_cons inside, decodeLoop, if_neg goesOn, if_neg near, ih]
  | case4 value shift pos past =>
      rw [List.drop_eq_nil_of_le (Nat.le_of_not_lt past), decodeLoop]

def decodeAt (data : List UInt8) (pos : Nat) : Except Fault (Nat × Nat) := decodeFrom data 0 0 pos

theorem decodeLoop_read (acc shift read : Nat) (bytes : List UInt8) :
    decodeLoop acc shift read bytes =
      (decodeLoop acc shift 0 bytes).map fun found => (found.1, read + found.2) := by
  suffices shifted : ∀ start, decodeLoop acc shift (read + start) bytes =
      (decodeLoop acc shift start bytes).map fun found => (found.1, read + found.2) from shifted 0
  induction bytes generalizing acc shift with
  | nil => intro start; rfl
  | cons byte rest ih =>
      intro start
      simp only [decodeLoop]
      split
      · rfl
      · split
        · rfl
        · exact ih _ _ (start + 1)

theorem decodeAt_eq (data : List UInt8) (pos : Nat) :
    decodeAt data pos = (decode (data.drop pos)).map fun found => (found.1, pos + found.2) := by
  rw [decodeAt, decodeFrom_eq, decodeLoop_read, decode]

/-! ### Signed numbers -/

def zigZag (value : Int64) : UInt64 := ((value <<< 1) ^^^ (value >>> 63)).toUInt64

def unZigZag (encoded : UInt64) : Int64 := (encoded >>> 1).toInt64 ^^^ -(encoded &&& 1).toInt64

theorem getLsbD_sign {v : BitVec 64} {i : Nat} (bound : i < 64) : (v.sshiftRight 63).getLsbD i = v.msb := by
  rw [BitVec.getLsbD_sshiftRight]
  cases i with
  | zero =>
      rw [BitVec.msb_eq_getLsbD_last]
      simp
  | succ i =>
      have high : ¬ 63 + (i + 1) < 64 := by omega
      simp only [high, if_false, Nat.not_le.mpr bound, decide_false, Bool.not_false, Bool.true_and]

theorem zigZag_lowBit {v : BitVec 64} :
    (v <<< 1 ^^^ v.sshiftRight 63) &&& 1#64 = if v.msb then 1#64 else 0#64 := by
  apply BitVec.eq_of_getLsbD_eq
  intro i bound
  rw [BitVec.getLsbD_and, BitVec.getLsbD_xor, getLsbD_sign bound, BitVec.getLsbD_shiftLeft]
  cases v.msb <;> cases i <;> simp

theorem unZigZag_zigZag (value : Int64) : unZigZag (zigZag value) = value := by
  apply Int64.toBitVec_inj.mp
  have bits : (unZigZag (zigZag value)).toBitVec =
      (value.toBitVec <<< 1 ^^^ value.toBitVec.sshiftRight 63) >>> 1 ^^^
        -((value.toBitVec <<< 1 ^^^ value.toBitVec.sshiftRight 63) &&& 1#64) := by
    simp [unZigZag, zigZag]
  rw [bits, zigZag_lowBit]
  generalize value.toBitVec = v
  apply BitVec.eq_of_getLsbD_eq
  intro i bound
  have spread : (-(if v.msb then 1#64 else 0#64)).getLsbD i = v.msb := by
    cases v.msb with
    | false => simp
    | true =>
        have ones : -(1#64) = BitVec.allOnes 64 := by decide
        simp only [if_true, ones, BitVec.getLsbD_allOnes, bound, decide_true]
  rw [BitVec.getLsbD_xor, spread, BitVec.getLsbD_ushiftRight, BitVec.getLsbD_xor]
  by_cases inside : 1 + i < 64
  · rw [getLsbD_sign inside, BitVec.getLsbD_shiftLeft]
    simp [Nat.add_comm 1 i]
    omega
  · obtain rfl : i = 63 := by omega
    simp [BitVec.msb_eq_getLsbD_last]

def unfolded (n : Nat) : Int := if n % 2 = 0 then n / 2 else -(n / 2) - 1

theorem unfolded_injective : Function.Injective unfolded := by
  intro m n same
  unfold unfolded at same
  split at same <;> split at same <;> omega

theorem toInt_unZigZag (encoded : UInt64) : (unZigZag encoded).toInt = unfolded encoded.toNat := by
  have bound := encoded.toNat_lt
  have half : (encoded >>> 1).toInt64.toInt = encoded.toNat / 2 := by
    have shifted : (encoded >>> 1).toNat = encoded.toNat / 2 := by
      simp [Nat.shiftRight_eq_div_pow]
    change (encoded >>> 1).toBitVec.toInt = _
    rw [BitVec.toInt_eq_toNat_bmod, UInt64.toNat_toBitVec, shifted, Int.bmod_eq_of_le]
    all_goals omega
  have low : (encoded &&& 1).toNat = encoded.toNat % 2 := by simp
  unfold unZigZag unfolded
  split
  · next even =>
      have zero : encoded &&& 1 = 0 := UInt64.toNat_inj.mp (by simp [even])
      simpa [zero] using half
  · next odd =>
      have one : encoded &&& 1 = 1 := UInt64.toNat_inj.mp (by rw [low, UInt64.toNat_one]; omega)
      have ones : -(1 : UInt64).toInt64 = ~~~0 := rfl
      rw [one, ones, Int64.xor_not, Int64.xor_zero, Int64.toInt_not, half, Int.bmod_eq_of_le]
      all_goals omega

end Lib.Vlq
