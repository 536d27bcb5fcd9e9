import ErgoNode.Consensus.Nipopow
import ErgoNode.Proof.Difficulty.Compact

/-!
# Levels of headers

The level of a header is the logarithm of the number of times that its hit goes into the target. A hit of
one is the exception: it goes into every target and counts as level zero.
-/

namespace ErgoNode.Proof.Nipopow

section Levels
variable {nbits : UInt32} {powHit powHit' : Digest32}

theorem decodeNbits_eq (nbits : UInt32) : decodeNbits nbits = nbitsToTarget nbits := by
  have low : nbits.toNat % 2 ^ 23 < 2 ^ 23 := Nat.mod_lt _ (by decide)
  unfold decodeNbits nbitsToTarget
  rw [toNat_size, toNat_size_masked, toNat_mantissa]
  by_cases zero : nbits.toNat / 2 ^ 24 = 0
  · rw [if_pos zero, if_pos (by omega), zero, Nat.shiftRight_eq_div_pow,
      Nat.div_eq_of_lt (Nat.lt_trans low (by decide))]
  · rw [if_neg zero]

theorem size_quotient_lt (nbits : UInt32) (hit : Nat) : (decodeNbits nbits / hit).size < UInt32.size := by
  obtain ⟨bits, short, power⟩ : ∃ bits, bits < UInt32.size ∧ compactLimit = 2 ^ bits := ⟨2039, by decide, rfl⟩
  have limit := nbitsToTarget_lt nbits
  rw [← decodeNbits_eq, power] at limit
  exact Nat.lt_of_le_of_lt (Nat.size_le.mpr (Nat.lt_of_le_of_lt (Nat.div_le_self ..) limit)) short

theorem toNat_maxLevelOf (other : fromBytesBe powHit.bytes ≠ 1) (positive : 1 ≤ fromBytesBe powHit.bytes)
    (below : fromBytesBe powHit.bytes ≤ decodeNbits nbits) :
    (maxLevelOf nbits powHit false).toNat = (decodeNbits nbits / fromBytesBe powHit.bytes).size - 1 := by
  have short := size_quotient_lt nbits (fromBytesBe powHit.bytes)
  unfold maxLevelOf
  dsimp only
  rw [if_neg Bool.false_ne_true, if_neg (by omega)]
  split
  · next reached =>
      rw [Nat.le_antisymm reached below, Nat.div_self positive]
      rfl
  · split
    · next none =>
        rw [none]
        rfl
    · exact UInt32.toNat_ofNat_of_lt' (by omega)

theorem maxLevelOf_one (one : fromBytesBe powHit.bytes = 1) : maxLevelOf nbits powHit false = 0 := by
  unfold maxLevelOf
  rw [if_neg Bool.false_ne_true]
  exact if_pos (.inl one)

theorem size_bounds {target hit : Nat} (positive : 0 < hit) (below : hit ≤ target) :
    2 ^ ((target / hit).size - 1) * hit ≤ target ∧ target < 2 ^ ((target / hit).size - 1 + 1) * hit := by
  have some : 0 < (target / hit).size := Nat.size_pos.mpr (Nat.div_pos below positive)
  constructor
  · have low : 2 ^ ((target / hit).size - 1) ≤ target / hit := Nat.lt_size.mp (Nat.sub_lt some one_pos)
    exact (Nat.le_div_iff_mul_le positive).mp low
  · rw [Nat.sub_add_cancel some]
    exact (Nat.div_lt_iff_lt_mul positive).mp (Nat.lt_size_self _)

theorem maxLevelOf_bounds (nbits : UInt32) (powHit : Digest32) (positive : 1 ≤ fromBytesBe powHit.bytes)
    (below : fromBytesBe powHit.bytes ≤ decodeNbits nbits) :
    (2 ^ (maxLevelOf nbits powHit false).toNat * fromBytesBe powHit.bytes ≤ decodeNbits nbits ∧
        decodeNbits nbits < 2 ^ ((maxLevelOf nbits powHit false).toNat + 1) * fromBytesBe powHit.bytes ∧
        ∀ powHit' : Digest32, fromBytesBe powHit.bytes ≤ fromBytesBe powHit'.bytes →
          fromBytesBe powHit'.bytes ≤ decodeNbits nbits →
            maxLevelOf nbits powHit' false ≤ maxLevelOf nbits powHit false) ↔
      fromBytesBe powHit.bytes ≠ 1 ∨ decodeNbits nbits = 1 := by
  constructor
  · rintro ⟨-, high, -⟩
    by_contra neither
    obtain ⟨one, large⟩ := not_or.mp neither
    rw [not_not.mp one, maxLevelOf_one (not_not.mp one)] at high
    rw [not_not.mp one] at below
    exact large (Nat.le_antisymm (Nat.le_of_lt_succ high) below)
  · intro holds
    by_cases one : fromBytesBe powHit.bytes = 1
    · have single := holds.resolve_left (not_not.mpr one)
      rw [maxLevelOf_one one, one, single]
      refine ⟨le_rfl, by decide, fun powHit' more most => ?_⟩
      rw [maxLevelOf_one (Nat.le_antisymm most more)]
      exact UInt32.le_refl 0
    · obtain ⟨low, high⟩ := size_bounds positive below
      rw [toNat_maxLevelOf one positive below]
      refine ⟨low, high, fun powHit' more most => ?_⟩
      rw [UInt32.le_iff_toNat_le, toNat_maxLevelOf one positive below, toNat_maxLevelOf (by omega) (by omega) most]
      exact Nat.sub_le_sub_right (Nat.size_le_size (Nat.div_le_div_left more positive)) 1

end Levels

def smallHit (byte : UInt8) : Digest32 := ⟨List.replicate 31 0 ++ [byte], by simp⟩

theorem maxLevelOf_bounds_two :
    2 ^ (maxLevelOf 0x03000009 (smallHit 2) false).toNat * fromBytesBe (smallHit 2).bytes ≤ decodeNbits 0x03000009 ∧
        decodeNbits 0x03000009 <
          2 ^ ((maxLevelOf 0x03000009 (smallHit 2) false).toNat + 1) * fromBytesBe (smallHit 2).bytes ∧
        ∀ powHit' : Digest32, fromBytesBe (smallHit 2).bytes ≤ fromBytesBe powHit'.bytes →
          fromBytesBe powHit'.bytes ≤ decodeNbits 0x03000009 →
            maxLevelOf 0x03000009 powHit' false ≤ maxLevelOf 0x03000009 (smallHit 2) false :=
  (maxLevelOf_bounds 0x03000009 (smallHit 2) (by decide) (by decide)).mpr (by decide)

/-- The best hit there can be gives the lowest level. -/
theorem maxLevelOf_smallest : 1 ≤ fromBytesBe (smallHit 1).bytes ∧
    fromBytesBe (smallHit 1).bytes ≤ decodeNbits 0x03000009 ∧
    ¬ decodeNbits 0x03000009 <
      2 ^ ((maxLevelOf 0x03000009 (smallHit 1) false).toNat + 1) * fromBytesBe (smallHit 1).bytes ∧
    ¬ maxLevelOf 0x03000009 (smallHit 2) false ≤ maxLevelOf 0x03000009 (smallHit 1) false := by
  decide

end ErgoNode.Proof.Nipopow
