import BrickMachine.Proofs.Slot.Rounding

/-!
# The order of singles

Singles are compared by their signs, exponents and mantissas. The bits of a single without the sign
are a number in which the exponent comes before the mantissa, so the `key` made of this number and
the sign has the same order, and so have the multiples of the smallest single that the bits stand
for. `lt_iff` says this of all singles: one is less than another if both are numbers and their
`scaled` values are in this order.
-/

namespace BrickMachine

namespace Single

open Float.Model (Format UnpackedFloat)
open Float.Model.UnpackedFloat (Sign)

def sign (bits : Nat) : Sign := if bits / 0x80000000 % 2 = 1 then .negative else .positive

def key (bits : Nat) : Int := (sign bits).apply (bits % 0x80000000 : Nat)

/-- What a single with the given bits is unpacked to. A finite one has a leading bit in its mantissa
unless its exponent is the least. -/
inductive Unpacks (bits : Nat) : UnpackedFloat → Prop where
  | infinity : bits % 0x80000000 = 0x7F800000 → Unpacks bits (.infinity (sign bits))
  | notANumber : isNaN bits = true → Unpacks bits .notANumber
  | zero : bits % 0x80000000 = 0 → Unpacks bits (.zero (sign bits))
  | finite {m : Nat} {e : Int} (hm : 0 < m) : -149 ≤ e → e ≤ 104 → m < 0x1000000 →
      e = -149 ∨ 0x800000 ≤ m → (bits % 0x80000000 : Nat) = (e + 149) * 0x800000 + m →
      Unpacks bits (.finite (sign bits) m e hm)

/-! ### Unpacked singles -/

section

variable (b : UInt32)

theorem toNat_unpackExponent :
    (@UnpackedFloat.unpackExponent Format.binary32 b.toBitVec).toNat
      = b.toNat / 0x800000 % 0x100 := by
  change (b.toNat >>> 23) % 2 ^ 8 = _
  rw [Nat.shiftRight_eq_div_pow]

theorem toNat_unpackMantissa :
    (@UnpackedFloat.unpackMantissa Format.binary32 b.toBitVec).toNat = b.toNat % 0x800000 := by
  change (b.toNat >>> 0) % 2 ^ 23 = _
  rw [Nat.shiftRight_zero]

theorem toNat_leading_append (mantissa : BitVec 23) :
    (1#1 ++ mantissa).toNat = 0x800000 + mantissa.toNat := by
  have hlt : mantissa.toNat < 2 ^ 23 := mantissa.isLt
  rw [BitVec.toNat_append, BitVec.toNat_ofNat, Nat.shiftLeft_eq, Nat.or_comm]
  exact (Nat.or_two_pow_eq_add_of_lt hlt).trans (Nat.add_comm _ _)

theorem ofBitVec_unpackSign :
    Sign.ofBitVec (@UnpackedFloat.unpackSign Format.binary32 b.toBitVec) = sign b.toNat := by
  have hbit : (@UnpackedFloat.unpackSign Format.binary32 b.toBitVec).toNat
      = b.toNat / 0x80000000 % 2 := by
    change (b.toNat >>> 31) % 2 ^ 1 = _
    rw [Nat.shiftRight_eq_div_pow]
  have hzero : @UnpackedFloat.unpackSign Format.binary32 b.toBitVec = 0#1
      ↔ ¬ b.toNat / 0x80000000 % 2 = 1 := by
    rw [← BitVec.toNat_inj, hbit]
    exact Nat.mod_two_ne_one.symm
  unfold Sign.ofBitVec sign
  simp only [hzero, ite_not]

end

theorem unpacks (x : Float32) : Unpacks x.toBits.toNat x.toModel.unpack := by
  change Unpacks x.toBits.toNat (UnpackedFloat.unpack Format.binary32 x.toBits.toBitVec)
  generalize x.toBits = b
  have hexponent := toNat_unpackExponent b
  have hmantissa := toNat_unpackMantissa b
  have hleading := toNat_leading_append
    (@UnpackedFloat.unpackMantissa Format.binary32 b.toBitVec)
  have hones : @UnpackedFloat.unpackExponent Format.binary32 b.toBitVec = -1#8
      ↔ b.toNat / 0x800000 % 0x100 = 0xFF := by
    rw [← BitVec.toNat_inj, hexponent]
    rfl
  have hleast : @UnpackedFloat.unpackExponent Format.binary32 b.toBitVec = 0#8
      ↔ b.toNat / 0x800000 % 0x100 = 0 := by
    rw [← BitVec.toNat_inj, hexponent]
    rfl
  have hnone : @UnpackedFloat.unpackMantissa Format.binary32 b.toBitVec = 0#23
      ↔ b.toNat % 0x800000 = 0 := by
    rw [← BitVec.toNat_inj, hmantissa]
    rfl
  have hbias : (Format.binary32.exponentBias : Int) = 127 := rfl
  unfold UnpackedFloat.unpack
  dsimp only
  rw [ofBitVec_unpackSign]
  by_cases hall : b.toNat / 0x800000 % 0x100 = 0xFF
  · rw [if_pos (hones.2 hall)]
    by_cases hfraction : b.toNat % 0x800000 = 0
    · rw [if_pos (hnone.2 hfraction)]
      exact .infinity (by omega)
    · rw [if_neg (mt hnone.1 hfraction)]
      exact .notANumber (decide_eq_true (by omega))
  · rw [if_neg (mt hones.1 hall)]
    by_cases hsmall : b.toNat / 0x800000 % 0x100 = 0
    · rw [if_pos (hleast.2 hsmall)]
      by_cases hfraction : b.toNat % 0x800000 = 0
      · rw [dif_pos (hnone.2 hfraction)]
        exact .zero (by omega)
      · rw [dif_neg (mt hnone.1 hfraction)]
        exact .finite _ (by omega) (by omega) (by omega) (by omega) (by omega)
    · rw [if_neg (mt hleast.1 hsmall)]
      exact .finite _ (by omega) (by omega) (by omega) (by omega) (by omega)

/-- The exponents of finite singles count before their mantissas. -/
theorem compare_fields {m m' : Nat} {e e' : Int} (hm : m < 0x1000000) (he : -149 ≤ e)
    (hlead : e = -149 ∨ 0x800000 ≤ m) (hm' : m' < 0x1000000) (he' : -149 ≤ e')
    (hlead' : e' = -149 ∨ 0x800000 ≤ m') :
    (compare e e').then (compare m m')
      = compare ((e + 149) * 0x800000 + m) ((e' + 149) * 0x800000 + m') := by
  rcases Int.lt_trichotomy e e' with h | rfl | h
  · rw [Int.compare_eq_lt.2 h, Ordering.lt_then]
    exact (Int.compare_eq_lt.2 (by omega)).symm
  · rw [Int.compare_eq_eq.2 rfl, Ordering.eq_then]
    rcases Nat.lt_trichotomy m m' with h | rfl | h
    · rw [Nat.compare_eq_lt.2 h, Int.compare_eq_lt.2 (by omega)]
    · rw [Nat.compare_eq_eq.2 rfl, Int.compare_eq_eq.2 rfl]
    · rw [Nat.compare_eq_gt.2 h, Int.compare_eq_gt.2 (by omega)]
  · rw [Int.compare_eq_gt.2 h]
    exact (Int.compare_eq_gt.2 (by omega)).symm

theorem compare_sign_eq_lt_iff (s s' : Sign) : compare s s' = .lt ↔ s.apply 1 < s'.apply 1 := by
  cases s <;> cases s' <;> decide

/-- Unpacked singles are in the order of their keys. -/
theorem lt_of_unpacks {b c : Nat} {u v : UnpackedFloat} (hu : Unpacks b u) (hv : Unpacks c v)
    (hb : isNaN b = false) (hc : isNaN c = false) : u.lt v = true ↔ key b < key c := by
  unfold key UnpackedFloat.lt
  cases hu with
  | notANumber h => cases hb.symm.trans h
  | infinity h | zero h =>
      cases hv with
      | notANumber h' => cases hc.symm.trans h'
      | infinity h' | zero h' | finite hm' hlow' hhigh' hlt' hlead' h' =>
          cases sign b <;> cases sign c <;> dsimp only [UnpackedFloat.compare, Sign.apply] <;>
            simp [Sign.apply, compare_sign_eq_lt_iff] <;> omega
  | finite hm hlow hhigh hlt hlead h =>
      cases hv with
      | notANumber h' => cases hc.symm.trans h'
      | infinity h' | zero h' =>
          cases sign b <;> cases sign c <;> dsimp only [UnpackedFloat.compare, Sign.apply] <;>
            simp <;> omega
      | finite hm' hlow' hhigh' hlt' hlead' h' =>
          rw [h, h']
          cases sign b <;> cases sign c <;> dsimp only [UnpackedFloat.compare, Sign.apply] <;>
            simp [Int.compare_eq_lt, Int.compare_eq_gt,
              compare_fields hlt hlow hlead hlt' hlow' hlead'] <;> omega

/-! ### The order of the values -/

theorem scaledMagnitude_mod (b : Nat) : scaledMagnitude (b % 0x80000000) = scaledMagnitude b := by
  have hexponent : b % 0x80000000 / 0x800000 % 0x100 = b / 0x800000 % 0x100 := by omega
  have hfraction : b % 0x80000000 % 0x800000 = b % 0x800000 := by omega
  simp only [scaledMagnitude, hexponent, hfraction]

theorem scaledMagnitude_lt_iff (b c : Nat) :
    scaledMagnitude b < scaledMagnitude c ↔ b % 0x80000000 < c % 0x80000000 := by
  rw [← scaledMagnitude_mod b, ← scaledMagnitude_mod c]
  rcases Nat.lt_trichotomy (b % 0x80000000) (c % 0x80000000) with h | h | h
  · exact iff_of_true (scaledMagnitude_lt h (by omega)) h
  · rw [h]
    exact iff_of_false (Nat.lt_irrefl _) (Nat.lt_irrefl _)
  · exact iff_of_false (Nat.lt_asymm (scaledMagnitude_lt h (by omega))) (Nat.lt_asymm h)

/-- The keys of singles are in the order of their values. -/
theorem key_lt_key_iff (b c : Nat) : key b < key c ↔ scaled b < scaled c := by
  have hzero : scaledMagnitude 0 = 0 := rfl
  have hb := scaledMagnitude_lt_iff 0 b
  have hc := scaledMagnitude_lt_iff 0 c
  have hlt := scaledMagnitude_lt_iff b c
  have hgt := scaledMagnitude_lt_iff c b
  rw [hzero, Nat.zero_mod] at hb hc
  unfold key sign scaled
  split <;> split <;> simp only [Sign.apply] <;> omega

/-- The value of a single, counted in units of the smallest. -/
def value (x : Float32) : Int := scaled x.toBits.toNat

def IsNumber (x : Float32) : Prop := isNaN x.toBits.toNat = false

instance (x : Float32) : Decidable (IsNumber x) := inferInstanceAs (Decidable (_ = _))

theorem Unpacks.eq_notANumber {b : Nat} {u : UnpackedFloat} (hu : Unpacks b u)
    (h : isNaN b = true) : u = .notANumber := by
  have hlt : 0x7F800000 < b % 0x80000000 := of_decide_eq_true h
  cases hu with
  | notANumber => rfl
  | infinity | zero | finite => omega

theorem lt_notANumber (u : UnpackedFloat) : u.lt .notANumber = false := by
  cases u <;> rfl

/-- A single is less than another if both are numbers and their values are in this order. -/
theorem lt_iff (x y : Float32) : x < y ↔ IsNumber x ∧ IsNumber y ∧ value x < value y := by
  change decide (x.toModel < y.toModel) = true ↔ _
  rw [decide_eq_true_iff]
  change x.toModel.unpack.lt y.toModel.unpack = true ↔ _
  have hx := unpacks x
  have hy := unpacks y
  unfold IsNumber value
  cases hnx : isNaN x.toBits.toNat with
  | true =>
      rw [hx.eq_notANumber hnx]
      exact ⟨nofun, nofun⟩
  | false =>
      cases hny : isNaN y.toBits.toNat with
      | true =>
          rw [hy.eq_notANumber hny, lt_notANumber]
          exact ⟨nofun, nofun⟩
      | false =>
          rw [lt_of_unpacks hx hy hnx hny, key_lt_key_iff]
          exact ⟨fun h => ⟨rfl, rfl, h⟩, fun h => h.2.2⟩

end Single

end BrickMachine
