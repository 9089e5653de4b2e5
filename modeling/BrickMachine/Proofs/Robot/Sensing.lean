import BrickMachine.Proofs.Slot.Order
import BrickMachine.Robot.Headless

/-!
# Readings of sensors

A sensor is read in two ways. A measurement for the low-speed bus is a byte: the integer part of the
sensor value, with the limits of a byte for values beyond them. The scaled value of an input
channel is the sensor in percent, where values beyond 0 and 1 count as these limits. What is no
number reads zero both ways.
-/

namespace BrickMachine

open Single

/-- A single goes to its integer part. -/
theorem Single.isIntegerPart_toInt32 (x : Float32) : IsIntegerPart x.toBits.toNat (toInt32 x) :=
  isIntegerPart_integer x.toBits.toNat

theorem Single.IsIntegerPart.unique {b : Nat} {v v' : Int32} (h : IsIntegerPart b v)
    (h' : IsIntegerPart b v') : v = v' := by
  cases hnumber : isNaN b with
  | true => rw [h.noNumber hnumber, h'.noNumber hnumber]
  | false => rw [← Int32.toInt_inj, h.number hnumber, h'.number hnumber]

/-! ### Limits -/

section

variable (low high : Float32) {x : Float32}

theorem clampFloat_of_not_isNumber (hx : ¬ IsNumber x) : clampFloat low high x = x := by
  rw [clampFloat, if_neg fun h => hx ((lt_iff x low).1 h).1,
    if_neg fun h => hx ((lt_iff high x).1 h).2.1]

theorem clampFloat_of_lt (hx : IsNumber x) (hlow : IsNumber low) (h : value x < value low) :
    clampFloat low high x = low :=
  if_pos ((lt_iff x low).2 ⟨hx, hlow, h⟩)

theorem clampFloat_of_gt (hx : IsNumber x) (hhigh : IsNumber high)
    (hle : value low ≤ value high) (h : value high < value x) : clampFloat low high x = high := by
  have hlow : ¬ x < low := fun hlt => Int.not_lt.2 (by omega) ((lt_iff x low).1 hlt).2.2
  rw [clampFloat, if_neg hlow, if_pos ((lt_iff high x).2 ⟨hhigh, hx, h⟩)]

theorem clampFloat_of_between (hlow : value low ≤ value x) (hhigh : value x ≤ value high) :
    clampFloat low high x = x := by
  rw [clampFloat, if_neg fun h => Int.not_lt.2 hlow ((lt_iff x low).1 h).2.2,
    if_neg fun h => Int.not_lt.2 hhigh ((lt_iff high x).1 h).2.2]

end

namespace HeadlessRobot

/-! ### Measurements -/

/-- The byte is a measurement of a sensor with the given value. -/
structure IsMeasurement (sensor : Float32) (byte : UInt8) : Prop where
  noNumber : ¬ IsNumber sensor → byte = 0
  below : IsNumber sensor → value sensor < value 0 → byte = 0
  above : IsNumber sensor → value 255 < value sensor → byte = 255
  between : IsNumber sensor → value 0 ≤ value sensor → value sensor ≤ value 255 →
    byte.toNat * value 1 ≤ value sensor ∧ value sensor < (byte.toNat + 1) * value 1

theorem toNat_toUInt8_of_toInt {v : Int32} {n : Nat} (hv : v.toInt = n) (hn : n < 256) :
    v.toUInt32.toUInt8.toNat = n := by
  have heq : v = Int32.ofNat n := by
    rw [← Int32.toInt_inj, hv, Int32.toInt_ofNat_of_lt (by omega)]
  rw [heq, Int32.toUInt32_ofNat', UInt32.toNat_toUInt8, UInt32.toNat_ofNat']
  omega

theorem isMeasurement (sensor : Float32) : IsMeasurement sensor (measurement sensor) where
  noNumber h := by
    have hnone : isNaN sensor.toBits.toNat = true := Bool.not_eq_false _ ▸ h
    rw [measurement, clampFloat_of_not_isNumber _ _ h,
      (isIntegerPart_toInt32 sensor).noNumber hnone]
    rfl
  below hsensor h := by
    rw [measurement, clampFloat_of_lt 0 255 hsensor rfl h]
    rfl
  above hsensor h := by
    rw [measurement, clampFloat_of_gt 0 255 hsensor rfl (by decide) h]
    rfl
  between hsensor hlow hhigh := by
    have hpart := (isIntegerPart_toInt32 sensor).number hsensor
    change _ = max _ (min _ ((value sensor).tdiv (2 ^ 149))) at hpart
    have hzero : value 0 = 0 := rfl
    have hlimit : value 255 = 255 * 2 ^ 149 := rfl
    have hone : value 1 = 2 ^ 149 := rfl
    rw [Int.tdiv_eq_ediv_of_nonneg hlow] at hpart
    rw [measurement, clampFloat_of_between 0 255 hlow hhigh, hone,
      @toNat_toUInt8_of_toInt _ (value sensor / 2 ^ 149).toNat (by omega) (by omega)]
    omega

/-- A sensor has one measurement. -/
theorem IsMeasurement.unique {sensor : Float32} {b b' : UInt8} (h : IsMeasurement sensor b)
    (h' : IsMeasurement sensor b') : b = b' := by
  by_cases hsensor : IsNumber sensor
  · rcases Int.lt_or_le (value sensor) (value 0) with hbelow | hlow
    · rw [h.below hsensor hbelow, h'.below hsensor hbelow]
    · rcases Int.lt_or_le (value 255) (value sensor) with habove | hhigh
      · rw [h.above hsensor habove, h'.above hsensor habove]
      · have hpart := h.between hsensor hlow hhigh
        have hpart' := h'.between hsensor hlow hhigh
        have hone : value 1 = 2 ^ 149 := rfl
        rw [hone] at hpart hpart'
        exact UInt8.toNat_inj.1 (by omega)
  · rw [h.noNumber hsensor, h'.noNumber hsensor]

/-! ### Percent -/

/-- The number is the sensor with the given value in percent. -/
structure IsPercent (sensor : Float32) (percent : Int32) : Prop where
  noNumber : ¬ IsNumber sensor → percent = 0
  below : IsNumber sensor → value sensor < value 0 → percent = 0
  above : IsNumber sensor → value 1 < value sensor → percent = 100
  between : IsNumber sensor → value 0 ≤ value sensor → value sensor ≤ value 1 →
    IsIntegerPart (sensor * 100).toBits.toNat percent

theorem IsPercent.unique {sensor : Float32} {v v' : Int32} (h : IsPercent sensor v)
    (h' : IsPercent sensor v') : v = v' := by
  by_cases hsensor : IsNumber sensor
  · rcases Int.lt_or_le (value sensor) (value 0) with hbelow | hlow
    · rw [h.below hsensor hbelow, h'.below hsensor hbelow]
    · rcases Int.lt_or_le (value 1) (value sensor) with habove | hhigh
      · rw [h.above hsensor habove, h'.above hsensor habove]
      · exact (h.between hsensor hlow hhigh).unique (h'.between hsensor hlow hhigh)
  · rw [h.noNumber hsensor, h'.noNumber hsensor]

theorem toInt32_mul_of_not_isNumber {x : Float32} (hx : ¬ IsNumber x) (y : Float32) :
    toInt32 (x * y) = 0 := by
  have hnone : x.toModel.unpack = .notANumber :=
    (unpacks x).eq_notANumber (Bool.not_eq_false _ ▸ hx)
  change integer (Float32.Model.pack
    (Float.Model.UnpackedFloat.mul _ x.toModel.unpack _)).toBits.toNat = 0
  rw [hnone]
  rfl

theorem isPercent_scaledValue (r : HeadlessRobot) (channel : Int32) :
    IsPercent (r.sensor channel) (r.input channel Input.scaledValue) := by
  change IsPercent _ (toInt32 (clampFloat 0 1 (r.sensor channel) * 100))
  generalize r.sensor channel = sensor
  refine ⟨fun h => ?_, fun hsensor h => ?_, fun hsensor h => ?_, fun hsensor hlow hhigh => ?_⟩
  · rw [clampFloat_of_not_isNumber _ _ h, toInt32_mul_of_not_isNumber h]
  · rw [clampFloat_of_lt 0 1 hsensor rfl h]
    rfl
  · rw [clampFloat_of_gt 0 1 hsensor rfl (by decide) h]
    rfl
  · rw [clampFloat_of_between 0 1 hlow hhigh]
    exact isIntegerPart_toInt32 _

end HeadlessRobot

end BrickMachine
