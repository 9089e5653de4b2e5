import BrickMachine.Proofs.Slot.Codec

/-!
# Values that a type keeps

A value that was read from a slot is kept as it is by a slot of the same type: `truncate` changes
nothing that `valueOfBits` gives. For floats the reason is that the integer part of a single has a
mantissa that fits, so that it is its own nearest single. An integer part beyond the limit of 32
bits was read as the limit, and the nearest single to that is read as the limit again.
-/

namespace BrickMachine

namespace Single

theorem units_of_dvd {k n : Nat} (h : Nat.pow 2 k ∣ n) : units k n = n / Nat.pow 2 k := by
  have hpos : 0 < Nat.pow 2 k := Nat.pow_pos Nat.two_pos
  have hmod : n % Nat.pow 2 k = 0 := Nat.mod_eq_zero_of_dvd h
  unfold units
  dsimp only
  rw [hmod, if_neg (by omega)]

/-- A number that fits a mantissa is nearest to itself. -/
theorem nearest_mul_pow {m : Nat} (hm : m < 0x1000000) (k : Nat) :
    nearest (m * Nat.pow 2 k) = m * Nat.pow 2 k := by
  have hexcess : excess (m * Nat.pow 2 k) ≤ k := by
    unfold excess
    by_cases hzero : m * Nat.pow 2 k = 0
    · rw [hzero]
      exact Nat.zero_le k
    · have hlt : m * Nat.pow 2 k < 2 ^ (24 + k) := by
        rw [Nat.pow_add]
        exact Nat.mul_lt_mul_of_pos_right hm (Nat.two_pow_pos k)
      have hlog := (Nat.log2_lt hzero).2 hlt
      omega
  have hdvd : Nat.pow 2 (excess (m * Nat.pow 2 k)) ∣ m * Nat.pow 2 k :=
    Nat.dvd_trans (Nat.pow_dvd_pow 2 hexcess) (Nat.dvd_mul_left _ m)
  rw [nearest, units_of_dvd hdvd, Nat.div_mul_cancel hdvd]

/-- The integer part of a single has a mantissa that fits. -/
theorem nearest_magnitude (bits : Nat) : nearest (magnitude bits) = magnitude bits := by
  have hmantissa : 0x800000 + bits % 0x800000 < 0x1000000 := by omega
  unfold magnitude
  dsimp only
  split
  · have hfits : (0x800000 + bits % 0x800000) / Nat.pow 2 (150 - bits / 0x800000 % 0x100)
        < 0x1000000 :=
      Nat.lt_of_le_of_lt (Nat.div_le_self _ _) hmantissa
    have hone := nearest_mul_pow hfits 0
    rwa [show Nat.pow 2 0 = 1 from rfl, Nat.mul_one] at hone
  · exact nearest_mul_pow hmantissa _

/-- A limited number survives the way to its nearest single and back. -/
theorem limited_nearest {n : Nat} (hn : nearest n = n) (negative : Bool) :
    limited ((limited negative n).toInt < 0) (nearest (limited negative n).toInt.natAbs)
      = limited negative n := by
  have hlimit : nearest 0x80000000 = 0x80000000 := by decide
  have hbelow : nearest 0x7FFFFFFF = 0x80000000 := by decide
  rw [toInt_limited]
  cases negative with
  | true =>
      rcases Nat.lt_or_ge 0x80000000 n with hbig | hsmall
      · rw [Nat.min_eq_right (Nat.le_of_lt hbig)]
        change limited true (nearest 0x80000000) = limited true n
        rw [hlimit]
        unfold limited
        rw [Nat.min_eq_right (Nat.le_of_lt hbig), Nat.min_self]
        rfl
      · rw [Nat.min_eq_left hsmall]
        rcases Nat.eq_zero_or_pos n with rfl | hpos
        · rfl
        · have hneg : -Int.ofNat n < 0 := Int.neg_neg_of_pos (Int.natCast_pos.2 hpos)
          have habs : (-Int.ofNat n).natAbs = n := Int.natAbs_neg _
          rw [if_pos rfl, habs, hn, decide_eq_true hneg]
  | false =>
      rcases Nat.lt_or_ge 0x7FFFFFFF n with hbig | hsmall
      · rw [Nat.min_eq_right (Nat.le_of_lt hbig)]
        change limited false (nearest 0x7FFFFFFF) = limited false n
        rw [hbelow]
        unfold limited
        rw [Nat.min_eq_right (Nat.le_of_lt hbig)]
        rfl
      · rw [Nat.min_eq_left hsmall]
        have hnonneg : ¬ Int.ofNat n < 0 := Int.not_lt.2 (Int.natCast_nonneg n)
        have habs : (Int.ofNat n).natAbs = n := rfl
        rw [if_neg Bool.false_ne_true, habs, hn, decide_eq_false hnonneg]

end Single

namespace SlotType

/-- A type keeps every value that is read from its bytes. -/
theorem truncate_valueOfBits (t : SlotType) {n : Nat} (hn : n < byteValues t.size) :
    t.truncate (t.valueOfBits n) = t.valueOfBits n := by
  cases t with
  | void | cluster | ulong | slong | mutex => rfl
  | ubyte =>
      simp only [truncate, valueOfBits, Int32.toUInt32_ofNat', UInt32.toUInt8_ofNat',
        UInt8.toNat_ofNat_of_lt' hn]
  | uword | array =>
      simp only [truncate, valueOfBits, Int32.toUInt32_ofNat', UInt32.toUInt16_ofNat',
        UInt16.toNat_ofNat_of_lt' hn]
  | sbyte => simp [truncate, valueOfBits]
  | sword => simp [truncate, valueOfBits]
  | float =>
      change Single.limited _ _ = Single.integer n
      change Single.limited ((Single.integer n).toInt < 0)
        (Single.nearest (Single.integer n).toInt.natAbs) = Single.integer n
      unfold Single.integer
      split
      · rfl
      · exact Single.limited_nearest (Single.nearest_magnitude n) _

end SlotType

end BrickMachine
