import BrickMachine.Proofs.Slot.Rounding
import BrickMachine.Slot.Codec

/-!
# A store followed by a load

`valueOfBits_encode` says that what a type reads from the bytes it keeps for a value is the value
truncated to the type. Floats are the one type that does not simply cut bits off.
-/

namespace BrickMachine

namespace SlotType

theorem toInt8_eq (v : Int32) : Int8.ofNat (v.toUInt32.toNat % 256) = v.toInt8 := by
  have hlow : v.toInt8.toBitVec = v.toBitVec.setWidth 8 :=
    BitVec.signExtend_eq_setWidth_of_le _ (by decide)
  apply Int8.toBitVec_inj.1
  rw [hlow]
  apply BitVec.eq_of_toNat_eq
  rw [BitVec.toNat_setWidth]
  exact Nat.mod_mod v.toUInt32.toNat (2 ^ 8)

theorem toInt16_eq (v : Int32) : Int16.ofNat (v.toUInt32.toNat % 65536) = v.toInt16 := by
  have hlow : v.toInt16.toBitVec = v.toBitVec.setWidth 16 :=
    BitVec.signExtend_eq_setWidth_of_le _ (by decide)
  apply Int16.toBitVec_inj.1
  rw [hlow]
  apply BitVec.eq_of_toNat_eq
  rw [BitVec.toNat_setWidth]
  exact Nat.mod_mod v.toUInt32.toNat (2 ^ 16)

theorem ofNat_toNat_toUInt32 (v : Int32) : Int32.ofNat v.toUInt32.toNat = v := by
  apply Int32.toBitVec_inj.1
  simp

/-- A number of 32 bits is far from the limit of singles. -/
theorem log2_natAbs_lt (v : Int32) : v.toInt.natAbs.log2 < 127 := by
  have hupper := v.toInt_lt
  have hlower := v.le_toInt
  have hv : v.toInt.natAbs < 2 ^ 32 := by omega
  by_cases hzero : v.toInt.natAbs = 0
  · rw [hzero]
    decide
  · have hlog := (Nat.log2_lt hzero).2 hv
    omega

theorem bits_lt (v : Int32) : Single.bits v.toInt < 0x100000000 := by
  have hlt := Single.bitsOfNat_lt (log2_natAbs_lt v)
  unfold Single.bits
  split <;> omega

theorem ofLittleEndian_encode (t : SlotType) (v : Int32) :
    ofLittleEndian (t.encode v) = t.bitsOfValue v % byteValues t.size :=
  ofLittleEndian_littleEndian t.size (t.bitsOfValue v)

/-- Loading what was stored for a value gives the truncated value. -/
theorem valueOfBits_encode (t : SlotType) (v : Int32) :
    t.valueOfBits (ofLittleEndian (t.encode v)) = t.truncate v := by
  have hfull : v.toUInt32.toNat % 2 ^ 32 = v.toUInt32.toNat :=
    Nat.mod_eq_of_lt v.toUInt32.toNat_lt
  rw [ofLittleEndian_encode]
  cases t with
  | void => rfl
  | cluster => rfl
  | ubyte => simp [valueOfBits, bitsOfValue, truncate, byteValues, size]
  | uword => simp [valueOfBits, bitsOfValue, truncate, byteValues, size]
  | array => simp [valueOfBits, bitsOfValue, truncate, byteValues, size]
  | sbyte => exact congrArg Int8.toInt32 (toInt8_eq v)
  | sword => exact congrArg Int16.toInt32 (toInt16_eq v)
  | ulong => exact (congrArg Int32.ofNat hfull).trans (ofNat_toNat_toUInt32 v)
  | slong => exact (congrArg Int32.ofNat hfull).trans (ofNat_toNat_toUInt32 v)
  | mutex => exact (congrArg Int32.ofNat hfull).trans (ofNat_toNat_toUInt32 v)
  | float =>
      have hbits : Single.bits v.toInt % byteValues SlotType.float.size = Single.bits v.toInt :=
        Nat.mod_eq_of_lt (bits_lt v)
      change Single.integer (Single.bits v.toInt % _) = _
      rw [hbits, Single.integer_bits (log2_natAbs_lt v)]
      rfl

/-- A slot of zeros holds zero, whatever its type. -/
theorem encode_zero (t : SlotType) : t.encode 0 = List.replicate t.size 0 := by
  cases t <;> rfl

theorem truncate_zero (t : SlotType) : t.truncate 0 = 0 := by
  cases t <;> rfl

theorem truncate_one {t : SlotType} (ht : t.isScalar = true) : t.truncate 1 = 1 := by
  cases t <;> first | rfl | cases ht

/-- Bytes that are zero read zero. -/
theorem valueOfBits_zeros (t : SlotType) :
    t.valueOfBits (ofLittleEndian (List.replicate t.size 0)) = 0 := by
  rw [← encode_zero, valueOfBits_encode, truncate_zero]

/-- An array slot keeps the index of a dope vector. -/
theorem ofLittleEndian_encode_array {index : Nat} (h : index < 65536) :
    ofLittleEndian (SlotType.array.encode (Int32.ofNat index)) = index := by
  rw [ofLittleEndian_encode]
  simp only [bitsOfValue, byteValues, size, Int32.toUInt32_ofNat', UInt32.toNat_ofNat']
  omega

end SlotType

end BrickMachine
