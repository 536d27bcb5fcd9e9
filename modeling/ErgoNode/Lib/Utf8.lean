import Mathlib.Algebra.BigOperators.Group.List.Basic
import Mathlib.Data.List.Basic

/-!
# Text from bytes

UTF-8 read without errors: where no character starts, the longest start of a character that is there,
and at least one byte, is replaced by U+FFFD.
-/

namespace Lib.Utf8

def encode (text : String) : List UInt8 := text.toList.flatMap String.utf8EncodeChar

/-- How many bytes a character has that begins with this one; none begins with any other. -/
def width (first : UInt8) : Nat :=
  if first ≤ 0x7F then 1
  else if 0xC2 ≤ first ∧ first ≤ 0xDF then 2
  else if 0xE0 ≤ first ∧ first ≤ 0xEF then 3
  else if 0xF0 ≤ first ∧ first ≤ 0xF4 then 4
  else 0

def isContinuation (byte : UInt8) : Bool := 0x80 ≤ byte ∧ byte ≤ 0xBF

def mayFollow (first second : UInt8) : Bool :=
  if first = 0xE0 then 0xA0 ≤ second ∧ second ≤ 0xBF
  else if first = 0xED then 0x80 ≤ second ∧ second ≤ 0x9F
  else if first = 0xF0 then 0x90 ≤ second ∧ second ≤ 0xBF
  else if first = 0xF4 then 0x80 ≤ second ∧ second ≤ 0x8F
  else isContinuation second

def subpart : List UInt8 → Nat
  | first :: second :: rest =>
      if 3 ≤ width first ∧ mayFollow first second then
        2 + ((rest.take (width first - 2)).takeWhile isContinuation).length
      else 1
  | _ => 1

/-- The first argument bounds the number of characters. -/
def lossyLoop : Nat → List UInt8 → List Char
  | 0, _ => []
  | _, [] => []
  | more + 1, bytes =>
      match bytes.toByteArray.utf8DecodeChar? 0 with
      | some c => c :: lossyLoop more (bytes.drop c.utf8Size)
      | none => Char.ofNat 0xFFFD :: lossyLoop more (bytes.drop (subpart bytes))

def decodeLossy (bytes : List UInt8) : String := String.ofList (lossyLoop bytes.length bytes)

theorem lossyLoop_append (more : Nat) (c : Char) (bytes : List UInt8) :
    lossyLoop (more + 1) (String.utf8EncodeChar c ++ bytes) = c :: lossyLoop more bytes := by
  have decoded : (String.utf8EncodeChar c ++ bytes).toByteArray.utf8DecodeChar? 0 = some c := by
    rw [List.toByteArray_append]
    exact ByteArray.utf8DecodeChar?_utf8EncodeChar_append
  have rest : (String.utf8EncodeChar c ++ bytes).drop c.utf8Size = bytes :=
    List.drop_left' (String.length_utf8EncodeChar c)
  rw [lossyLoop, decoded]
  · exact congrArg (fun bytes => c :: lossyLoop more bytes) rest
  · intro empty
    exact String.utf8EncodeChar_ne_nil (List.append_eq_nil_iff.mp empty).1

theorem lossyLoop_encode {fuel : Nat} {chars : List Char} (enough : chars.length ≤ fuel) :
    lossyLoop fuel (chars.flatMap String.utf8EncodeChar) = chars := by
  induction chars generalizing fuel with
  | nil => cases fuel <;> rfl
  | cons c chars ih =>
      cases fuel with
      | zero => simp at enough
      | succ more => rw [List.flatMap_cons, lossyLoop_append, ih (Nat.le_of_succ_le_succ enough)]

theorem length_le_flatMap (chars : List Char) :
    chars.length ≤ (chars.flatMap String.utf8EncodeChar).length := by
  have positive : ∀ size ∈ chars.map fun c => (String.utf8EncodeChar c).length, 1 ≤ size := by
    intro size member
    obtain ⟨c, -, rfl⟩ := List.mem_map.mp member
    rw [String.length_utf8EncodeChar]
    exact Char.utf8Size_pos c
  have counted := List.length_le_sum_of_one_le _ positive
  rwa [List.length_map, ← List.length_flatMap] at counted

theorem decodeLossy_encode (text : String) : decodeLossy (encode text) = text := by
  rw [decodeLossy, encode, lossyLoop_encode (length_le_flatMap _), String.ofList_toList]

/-! ### Text that was cut -/

theorem subpart_pos (bytes : List UInt8) : 0 < subpart bytes := by
  rcases bytes with _ | ⟨first, _ | ⟨second, rest⟩⟩
  · exact Nat.one_pos
  · exact Nat.one_pos
  · rw [subpart]
    split <;> omega

theorem length_lossyLoop_le (fuel : Nat) (bytes : List UInt8) : (lossyLoop fuel bytes).length ≤ bytes.length := by
  induction fuel generalizing bytes with
  | zero => exact Nat.zero_le _
  | succ more ih =>
      cases bytes with
      | nil => exact Nat.le_refl _
      | cons first rest =>
          have shorter (n : Nat) (positive : 0 < n) :
              (lossyLoop more ((first :: rest).drop n)).length + 1 ≤ (first :: rest).length := by
            have le := ih ((first :: rest).drop n)
            rw [List.length_drop, List.length_cons] at le
            rw [List.length_cons]
            omega
          rw [lossyLoop]
          · split
            · exact shorter _ (Char.utf8Size_pos _)
            · exact shorter _ (subpart_pos _)
          · nofun

theorem length_flatMap_le (chars : List Char) :
    (chars.flatMap String.utf8EncodeChar).length ≤ 4 * chars.length := by
  induction chars with
  | nil => exact Nat.zero_le _
  | cons c rest ih =>
      have size := Char.utf8Size_le_four c
      rw [List.flatMap_cons, List.length_append, String.length_utf8EncodeChar, List.length_cons]
      omega

theorem length_le_of_lossyLoop_take {fuel k : Nat} {chars : List Char}
    (same : lossyLoop fuel ((chars.flatMap String.utf8EncodeChar).take k) = chars) :
    (chars.flatMap String.utf8EncodeChar).length ≤ k + 12 := by
  induction chars generalizing fuel k with
  | nil => exact Nat.zero_le _
  | cons c rest ih =>
      have size : (String.utf8EncodeChar c).length = c.utf8Size := String.length_utf8EncodeChar c
      rw [List.flatMap_cons] at same ⊢
      rcases Nat.lt_or_ge k c.utf8Size with cut | whole
      · have few := length_lossyLoop_le fuel ((String.utf8EncodeChar c ++ rest.flatMap String.utf8EncodeChar).take k)
        have small := Char.utf8Size_le_four c
        have others := length_flatMap_le rest
        rw [same, List.length_take, List.length_cons] at few
        rw [List.length_append, size]
        omega
      · rw [List.take_append, List.take_of_length_le (by omega), size] at same
        cases fuel with
        | zero => cases same
        | succ more =>
            rw [lossyLoop_append, List.cons.injEq] at same
            have others := ih same.2
            rw [List.length_append, size]
            omega

theorem length_le_of_decodeLossy_take {text : String} {k : Nat} (same : decodeLossy ((encode text).take k) = text) :
    (encode text).length ≤ k + 12 := by
  have chars := congrArg String.toList same
  rw [decodeLossy, String.toList_ofList] at chars
  exact length_le_of_lossyLoop_take chars

end Lib.Utf8
