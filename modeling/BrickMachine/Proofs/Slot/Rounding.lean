import BrickMachine.Single

/-!
# The single nearest to an integer

Every finite single is a multiple of the smallest one, and counted in these units singles are
integers, so that distances between them need no fractions: `scaled bits` is the single with the
given bits, and `scaledOne` is the number one.

`isNearest_bits` says that an integer goes to a single that no other is nearer to and, if another is
just as near, to one whose mantissa is even. `isIntegerPart_integer` says that the way back drops
the fraction and stops at the limits of 32 bits. `integer_bits` is the whole way.
-/

namespace BrickMachine

namespace Single

/-- The magnitude of a single, counted in units of the smallest. An infinity counts as the power of
two after the greatest finite one. -/
def scaledMagnitude (bits : Nat) : Nat :=
  let exponent := bits / 0x800000 % 0x100
  let fraction := bits % 0x800000
  if exponent = 0 then fraction else (0x800000 + fraction) * Nat.pow 2 (exponent - 1)

def scaled (bits : Nat) : Int :=
  if bits / 0x80000000 % 2 = 1 then -(scaledMagnitude bits : Int) else scaledMagnitude bits

def scaledOne : Nat := Nat.pow 2 149

def IsFinite (bits : Nat) : Prop := bits / 0x800000 % 0x100 < 0xFF

theorem pow_pos (k : Nat) : 0 < Nat.pow 2 k := Nat.two_pow_pos k

theorem pow_add_eq (i j : Nat) : Nat.pow 2 (i + j) = Nat.pow 2 i * Nat.pow 2 j := Nat.pow_add 2 i j

/-! ### Rounding to a multiple -/

/-- A multiple of the unit is one of two neighbours or at least a unit away from them. -/
theorem multiple_cases (c q u : Nat) :
    c = q ∨ c = q + 1 ∨ (c + 1) * u ≤ q * u ∨ (q + 1 + 1) * u ≤ c * u := by
  by_cases hlow : c < q
  · exact Or.inr (Or.inr (Or.inl (Nat.mul_le_mul_right u hlow)))
  · by_cases hhigh : q + 1 < c
    · exact Or.inr (Or.inr (Or.inr (Nat.mul_le_mul_right u hhigh)))
    · omega

/-- No multiple of the unit is nearer than the one that a number is rounded to. If another is just
as near, the multiplier is even. -/
theorem units_nearest (k n c : Nat) :
    ((units k n * Nat.pow 2 k : Nat) - n : Int).natAbs
        ≤ ((c * Nat.pow 2 k : Nat) - n : Int).natAbs ∧
      (c ≠ units k n →
        ((c * Nat.pow 2 k : Nat) - n : Int).natAbs
            = ((units k n * Nat.pow 2 k : Nat) - n : Int).natAbs →
          units k n % 2 = 0) := by
  have hlt : n % Nat.pow 2 k < Nat.pow 2 k := Nat.mod_lt n (pow_pos k)
  have hsplit : n / Nat.pow 2 k * Nat.pow 2 k + n % Nat.pow 2 k = n := by
    rw [Nat.mul_comm]
    exact Nat.div_add_mod n _
  have hcases := multiple_cases c (n / Nat.pow 2 k) (Nat.pow 2 k)
  have hnext := Nat.add_one_mul (n / Nat.pow 2 k) (Nat.pow 2 k)
  simp only [Nat.add_one_mul] at hcases
  unfold units
  dsimp only
  split
  case isTrue hup => rcases hcases with rfl | rfl | h | h <;> omega
  case isFalse hdown => rcases hcases with rfl | rfl | h | h <;> omega

/-- Rounding goes to a mantissa with its leading bit, or to the one after the last. -/
theorem mantissa_bounds {n : Nat} (hn : n ≠ 0) :
    0x800000 ≤ units (excess n) n * Nat.pow 2 (23 - n.log2) ∧
      units (excess n) n * Nat.pow 2 (23 - n.log2) ≤ 0x1000000 := by
  have hlow : Nat.pow 2 n.log2 ≤ n := Nat.log2_self_le hn
  have hhigh : n < Nat.pow 2 n.log2 * 2 := Nat.lt_log2_self
  unfold excess
  generalize n.log2 = t at *
  rcases Nat.le_total t 23 with ht | ht
  · have hpow : Nat.pow 2 t * Nat.pow 2 (23 - t) = 0x800000 := by
      rw [← pow_add_eq, Nat.add_sub_cancel' ht]
    have hfirst := Nat.mul_le_mul_right (Nat.pow 2 (23 - t)) hlow
    have hlast := Nat.mul_le_mul_right (Nat.pow 2 (23 - t)) (Nat.le_of_lt hhigh)
    rw [Nat.mul_right_comm, hpow] at hlast
    rw [hpow] at hfirst
    rw [Nat.sub_eq_zero_of_le ht, units_zero]
    exact ⟨hfirst, hlast⟩
  · have hpow : 0x800000 * Nat.pow 2 (t - 23) = Nat.pow 2 t := by
      change Nat.pow 2 23 * _ = _
      rw [← pow_add_eq, Nat.add_sub_cancel' ht]
    have hpos := pow_pos (t - 23)
    have hfirst : 0x800000 ≤ n / Nat.pow 2 (t - 23) := (Nat.le_div_iff_mul_le hpos).2 (by omega)
    have hlast : n / Nat.pow 2 (t - 23) < 0x1000000 := (Nat.div_lt_iff_lt_mul hpos).2 (by omega)
    have hunits := units_bounds (t - 23) n
    simp only [Nat.sub_eq_zero_of_le ht, Nat.pow_eq, Nat.pow_zero, Nat.mul_one]
      at hfirst hlast hunits ⊢
    omega

/-! ### Singles as multiples of the smallest -/

/-- The magnitude of an exponent and a mantissa that has its leading bit, also if the mantissa is
the one after the last. -/
theorem scaledMagnitude_of_fields {e m : Nat} (he : e + 2 < 0x100) (hlow : 0x800000 ≤ m)
    (hhigh : m ≤ 0x1000000) : scaledMagnitude (e * 0x800000 + m) = m * Nat.pow 2 e := by
  unfold scaledMagnitude
  dsimp only
  rcases Nat.lt_or_eq_of_le hhigh with hlt | rfl
  · have hexponent : (e * 0x800000 + m) / 0x800000 % 0x100 = e + 1 := by omega
    have hmantissa : 0x800000 + (e * 0x800000 + m) % 0x800000 = m := by omega
    rw [hexponent, hmantissa, if_neg (Nat.succ_ne_zero e), Nat.add_sub_cancel]
  · have hexponent : (e * 0x800000 + 0x1000000) / 0x800000 % 0x100 = e + 2 := by omega
    have hmantissa : 0x800000 + (e * 0x800000 + 0x1000000) % 0x800000 = 0x800000 := by omega
    rw [hexponent, hmantissa, if_neg (Nat.succ_ne_zero _), Nat.add_sub_cancel_right (e + 1) 1,
      pow_add_eq, Nat.mul_comm (Nat.pow 2 e), ← Nat.mul_assoc]

/-- A natural number goes to the single that counts what the number is rounded to. -/
theorem scaledMagnitude_bitsOfNat {n : Nat} (h : n.log2 < 127) :
    scaledMagnitude (bitsOfNat n) = nearest n * scaledOne := by
  by_cases hn : n = 0
  · subst hn
    rfl
  · obtain ⟨hlow, hhigh⟩ := mantissa_bounds hn
    have hexponent : 23 - n.log2 + (n.log2 + 126) = excess n + 149 := by
      unfold excess
      omega
    rw [bitsOfNat, if_neg hn, scaledMagnitude_of_fields (by omega) hlow hhigh, nearest, scaledOne,
      Nat.mul_assoc, Nat.mul_assoc, ← pow_add_eq, ← pow_add_eq, hexponent]

/-- The integer part of a single is what remains of it when the fraction is dropped. -/
theorem magnitude_eq (bits : Nat) : magnitude bits = scaledMagnitude bits / scaledOne := by
  unfold magnitude scaledMagnitude scaledOne
  dsimp only
  have hfraction : bits % 0x800000 < 0x800000 := Nat.mod_lt _ (by decide)
  generalize bits % 0x800000 = fraction at *
  generalize bits / 0x800000 % 0x100 = e
  by_cases hzero : e = 0
  · have hsmall : 0x1000000 ≤ Nat.pow 2 149 := by decide
    have hlarge : Nat.pow 2 149 ≤ Nat.pow 2 150 := by decide
    subst hzero
    rw [if_pos (by decide), if_pos rfl, Nat.sub_zero, Nat.div_eq_of_lt (by omega),
      Nat.div_eq_of_lt (by omega)]
  · by_cases hexponent : e < 150
    · have hsplit : Nat.pow 2 149 = Nat.pow 2 (150 - e) * Nat.pow 2 (e - 1) := by
        rw [← pow_add_eq, show 150 - e + (e - 1) = 149 by omega]
      rw [if_pos hexponent, if_neg hzero, hsplit, Nat.mul_div_mul_right _ _ (pow_pos _)]
    · have hsplit : Nat.pow 2 (e - 1) = Nat.pow 2 (e - 150) * Nat.pow 2 149 := by
        rw [← pow_add_eq, show e - 150 + 149 = e - 1 by omega]
      rw [if_neg hexponent, if_neg hzero, hsplit, ← Nat.mul_assoc,
        Nat.mul_div_cancel _ (pow_pos 149)]

/-- The bits of a natural number leave the sign alone and stand for a number. -/
theorem bitsOfNat_lt {n : Nat} (h : n.log2 < 127) : bitsOfNat n ≤ 0x7F000000 := by
  by_cases hn : n = 0
  · simp [hn, bitsOfNat]
  · have hm := (mantissa_bounds hn).2
    rw [bitsOfNat, if_neg hn]
    omega

theorem scaledMagnitude_add_sign (n : Nat) :
    scaledMagnitude (0x80000000 + n) = scaledMagnitude n := by
  have hexponent : (0x80000000 + n) / 0x800000 % 0x100 = n / 0x800000 % 0x100 := by omega
  have hfraction : (0x80000000 + n) % 0x800000 = n % 0x800000 := by omega
  simp only [scaledMagnitude, hexponent, hfraction]

theorem scaledMagnitude_bits {v : Int} (h : v.natAbs.log2 < 127) :
    scaledMagnitude (bits v) = nearest v.natAbs * scaledOne := by
  unfold bits
  split
  · rw [scaledMagnitude_add_sign, scaledMagnitude_bitsOfNat h]
  · rw [Nat.zero_add, scaledMagnitude_bitsOfNat h]

/-- The sign bit is that of the integer. -/
theorem sign_bits {v : Int} (h : v.natAbs.log2 < 127) :
    bits v / 0x80000000 % 2 = if v < 0 then 1 else 0 := by
  have hlt := bitsOfNat_lt h
  unfold bits
  split <;> omega

theorem isFinite_bits {v : Int} (h : v.natAbs.log2 < 127) : IsFinite (bits v) := by
  have hlt := bitsOfNat_lt h
  unfold IsFinite bits
  split <;> omega

/-! ### The nearest single -/

/-- A single has a mantissa of 24 bits. -/
theorem exists_mantissa (bits : Nat) :
    ∃ m e, m < 0x1000000 ∧ scaledMagnitude bits = m * Nat.pow 2 e := by
  have hfraction : bits % 0x800000 < 0x800000 := Nat.mod_lt _ (by decide)
  unfold scaledMagnitude
  dsimp only
  split
  · exact ⟨bits % 0x800000, 0, by omega, (Nat.mul_one _).symm⟩
  · exact ⟨0x800000 + bits % 0x800000, _, by omega, rfl⟩

/-- A single is a multiple of a power of two, or less than every mantissa with its leading bit in
units of this power. -/
theorem multiple_or_small (bits k : Nat) :
    (∃ c, scaledMagnitude bits = c * Nat.pow 2 k) ∨
      scaledMagnitude bits < 0x800000 * Nat.pow 2 k := by
  obtain ⟨m, e, hm, hbits⟩ := exists_mantissa bits
  rw [hbits]
  rcases Nat.lt_or_ge e k with he | he
  · right
    calc m * Nat.pow 2 e < 0x1000000 * Nat.pow 2 e :=
          Nat.mul_lt_mul_of_pos_right hm (pow_pos e)
      _ = 0x800000 * Nat.pow 2 (1 + e) := by rw [pow_add_eq, ← Nat.mul_assoc]
      _ ≤ 0x800000 * Nat.pow 2 k :=
          Nat.mul_le_mul_left _ (Nat.pow_le_pow_right Nat.two_pos (by omega))
  · left
    refine ⟨m * Nat.pow 2 (e - k), ?_⟩
    rw [Nat.mul_assoc, ← pow_add_eq, Nat.sub_add_cancel he]

theorem natAbs_mul_sub_mul (a b one : Nat) :
    ((a * one : Nat) - (b * one : Nat) : Int).natAbs = ((a : Int) - b).natAbs * one := by
  rw [Int.natCast_mul, Int.natCast_mul, ← Int.sub_mul, Int.natAbs_mul, Int.natAbs_natCast]

/-- The mantissa of a number that fills it ends as the number of units that it is rounded to. -/
theorem bitsOfNat_mod_two {n : Nat} (h : 23 < n.log2) :
    bitsOfNat n % 2 = units (excess n) n % 2 := by
  have hn : n ≠ 0 := by
    rintro rfl
    exact absurd h (by decide)
  rw [bitsOfNat, if_neg hn, Nat.sub_eq_zero_of_le (Nat.le_of_lt h), Nat.pow_eq, Nat.pow_zero,
    Nat.mul_one]
  omega

/-- No single has a magnitude nearer to a number than what the number is rounded to. If another is
just as near, the mantissa is even. -/
theorem nearest_spec (n x : Nat) :
    ((nearest n * scaledOne : Nat) - (n * scaledOne : Nat) : Int).natAbs
        ≤ ((scaledMagnitude x : Int) - (n * scaledOne : Nat)).natAbs ∧
      (scaledMagnitude x ≠ nearest n * scaledOne →
        ((scaledMagnitude x : Int) - (n * scaledOne : Nat)).natAbs
            = ((nearest n * scaledOne : Nat) - (n * scaledOne : Nat) : Int).natAbs →
          bitsOfNat n % 2 = 0) := by
  rcases Nat.lt_or_ge 23 n.log2 with hlog | hlog
  · have hn : n ≠ 0 := by
      rintro rfl
      exact absurd hlog (by decide)
    have hlow : 0x800000 * Nat.pow 2 (excess n) ≤ n := by
      change Nat.pow 2 23 * _ ≤ n
      rw [← pow_add_eq, excess, Nat.add_sub_cancel' (Nat.le_of_lt hlog)]
      exact Nat.log2_self_le hn
    have hscale (c : Nat) :
        c * Nat.pow 2 (excess n + 149) = c * Nat.pow 2 (excess n) * scaledOne := by
      rw [pow_add_eq, ← Nat.mul_assoc, scaledOne]
    rw [bitsOfNat_mod_two hlog, natAbs_mul_sub_mul, nearest]
    rcases multiple_or_small x (excess n + 149) with ⟨c, hc⟩ | hsmall
    · obtain ⟨hle, heven⟩ := units_nearest (excess n) n c
      rw [hc, hscale, natAbs_mul_sub_mul]
      refine ⟨Nat.mul_le_mul_right scaledOne hle, fun hne heq => heven ?_ ?_⟩
      · rintro rfl
        exact hne rfl
      · exact Nat.eq_of_mul_eq_mul_right (pow_pos 149) heq
    · -- The least mantissa with its leading bit is a multiple, and strictly nearer than `x`.
      have hle := Nat.mul_le_mul_right scaledOne (units_nearest (excess n) n 0x800000).1
      have hlow' := Nat.mul_le_mul_right scaledOne hlow
      rw [← natAbs_mul_sub_mul (0x800000 * Nat.pow 2 (excess n))] at hle
      rw [hscale] at hsmall
      omega
  · have hexact : nearest n = n := by
      rw [nearest, excess, Nat.sub_eq_zero_of_le hlog, units_zero]
      exact Nat.mul_one n
    rw [hexact]
    omega

/-- The single with the bits `b` is the nearest to an integer: no finite single is nearer, and it
has an even mantissa if another is just as near. -/
structure IsNearest (v : Int) (b : Nat) : Prop where
  finite : IsFinite b
  nearest (x : Nat) : IsFinite x →
    (scaled b - v * scaledOne).natAbs ≤ (scaled x - v * scaledOne).natAbs
  even (x : Nat) : IsFinite x → scaled x ≠ scaled b →
    (scaled x - v * scaledOne).natAbs = (scaled b - v * scaledOne).natAbs → b % 2 = 0

theorem scaled_bits {v : Int} (h : v.natAbs.log2 < 127) :
    scaled (bits v) = if v < 0 then -((nearest v.natAbs * scaledOne : Nat) : Int)
      else (nearest v.natAbs * scaledOne : Nat) := by
  rw [scaled, scaledMagnitude_bits h, sign_bits h]
  by_cases hv : v < 0 <;> simp [hv]

theorem mul_scaledOne (v : Int) :
    v * scaledOne = if v < 0 then -((v.natAbs * scaledOne : Nat) : Int)
      else (v.natAbs * scaledOne : Nat) := by
  rw [Int.natCast_mul]
  split
  case isTrue hv => rw [Int.ofNat_natAbs_of_nonpos (Int.le_of_lt hv), Int.neg_mul, Int.neg_neg]
  case isFalse hv => rw [Int.natAbs_of_nonneg (Int.not_lt.1 hv)]

/-- An integer goes to the nearest single, and from the middle between two to the even one. -/
theorem isNearest_bits {v : Int} (h : v.natAbs.log2 < 127) : IsNearest v (bits v) := by
  have hparity : bits v % 2 = bitsOfNat v.natAbs % 2 := by
    unfold bits
    split <;> omega
  have hzero : v.natAbs * scaledOne = 0 → nearest v.natAbs * scaledOne = 0 := by
    intro hv
    rw [(Nat.mul_eq_zero.1 hv).resolve_right (Nat.ne_of_gt (pow_pos 149))]
    rfl
  refine ⟨isFinite_bits h, fun x _ => ?_, fun x _ => ?_⟩
  all_goals
    obtain ⟨hle, heven⟩ := nearest_spec v.natAbs x
    rw [scaled_bits h, mul_scaledOne]
    unfold scaled
    generalize nearest v.natAbs * scaledOne = a at *
    generalize v.natAbs * scaledOne = n at *
    generalize scaledMagnitude x = b at *
  · split <;> split <;> omega
  · split <;> split <;> omega

/-! ### The integer part of a single -/

theorem toInt_limited (negative : Bool) (n : Nat) :
    (limited negative n).toInt
      = if negative then -Int.ofNat (min n 0x80000000) else Int.ofNat (min n 0x7FFFFFFF) := by
  unfold limited
  apply Int32.toInt_ofInt_of_le
  · split <;> simp only [Int.ofNat_eq_natCast] <;> omega
  · split <;> simp only [Int.ofNat_eq_natCast] <;> omega

/-- The number is the integer part of a single within 32 bits: the fraction is dropped, the limits
of 32 bits stand for what is beyond them, and zero stands for what is no number. -/
structure IsIntegerPart (b : Nat) (x : Int32) : Prop where
  number : isNaN b = false →
    x.toInt = max (-0x80000000) (min 0x7FFFFFFF ((scaled b).tdiv scaledOne))
  noNumber : isNaN b = true → x = 0

theorem toInt_integer {b : Nat} (h : isNaN b = false) :
    (integer b).toInt = max (-0x80000000) (min 0x7FFFFFFF ((scaled b).tdiv scaledOne)) := by
  have hmagnitude : Int.tdiv (scaledMagnitude b) scaledOne = magnitude b := by
    rw [magnitude_eq, Int.ofNat_tdiv]
  have hinteger : integer b = limited (b / 0x80000000 % 2 == 1) (magnitude b) := by
    simp [integer, h]
  rw [hinteger, toInt_limited, scaled]
  by_cases hsign : b / 0x80000000 % 2 = 1
  · simp only [hsign, beq_self_eq_true, if_true, Int.neg_tdiv, hmagnitude, Int.ofNat_eq_natCast]
    omega
  · simp only [hsign, beq_eq_false_iff_ne.2 hsign, if_false, Bool.false_eq_true, hmagnitude,
      Int.ofNat_eq_natCast]
    omega

/-- The way to an integer leads to the integer part. -/
theorem isIntegerPart_integer (b : Nat) : IsIntegerPart b (integer b) := by
  refine ⟨toInt_integer, fun h => ?_⟩
  rw [integer, if_pos h]

/-- The way from an integer to its single and back leads to the nearest number that fits a
mantissa, within 32 bits. -/
theorem integer_bits {v : Int} (h : v.natAbs.log2 < 127) :
    integer (bits v) = limited (v < 0) (nearest v.natAbs) := by
  have hnumber : isNaN (bits v) = false := by
    have hlt := bitsOfNat_lt h
    unfold isNaN bits
    split <;> simp <;> omega
  have hmagnitude : magnitude (bits v) = nearest v.natAbs := by
    rw [magnitude_eq, scaledMagnitude_bits h]
    exact Nat.mul_div_cancel _ (pow_pos 149)
  rw [integer, hnumber, sign_bits h, hmagnitude]
  by_cases hv : v < 0 <;> simp [hv]

/-! ### Singles in their order -/

theorem scaledMagnitude_lt_succ {b : Nat} (h : b + 1 < 0x80000000) :
    scaledMagnitude b < scaledMagnitude (b + 1) := by
  have hpos := pow_pos (b / 0x800000 - 1)
  unfold scaledMagnitude
  dsimp only
  rw [Nat.mod_eq_of_lt (show b / 0x800000 < 0x100 by omega),
    Nat.mod_eq_of_lt (show (b + 1) / 0x800000 < 0x100 by omega)]
  by_cases hcarry : (b + 1) / 0x800000 = b / 0x800000
  · rw [hcarry]
    split
    · omega
    · exact Nat.mul_lt_mul_of_pos_right (by omega) hpos
  · have hnext : (b + 1) / 0x800000 = b / 0x800000 + 1 := by omega
    have hfraction : (b + 1) % 0x800000 = 0 := by omega
    rw [hnext, hfraction, if_neg (Nat.succ_ne_zero _), Nat.add_sub_cancel, Nat.add_zero]
    split
    case isTrue hzero =>
      rw [hzero]
      change b % 0x800000 < 0x800000
      omega
    case isFalse hexponent =>
      have hdouble : Nat.pow 2 (b / 0x800000) = Nat.pow 2 (b / 0x800000 - 1) * 2 := by
        rw [← show Nat.pow 2 1 = 2 from rfl, ← pow_add_eq,
          show b / 0x800000 - 1 + 1 = b / 0x800000 by omega]
      rw [hdouble, ← Nat.mul_assoc, Nat.mul_right_comm]
      exact Nat.mul_lt_mul_of_pos_right (by omega) hpos

/-- The magnitudes of singles are in the order of their bits. -/
theorem scaledMagnitude_lt {b c : Nat} (hbc : b < c) (hc : c < 0x80000000) :
    scaledMagnitude b < scaledMagnitude c := by
  induction hbc with
  | refl => exact scaledMagnitude_lt_succ hc
  | step hbc ih => exact Nat.lt_trans (ih (by omega)) (scaledMagnitude_lt_succ hc)

/-- No number that is a single is nearer to a number than what it is rounded to. -/
theorem nearest_closest {m x : Nat} (h : scaledMagnitude x = m * scaledOne) (n : Nat) :
    ((nearest n : Int) - n).natAbs ≤ ((m : Int) - n).natAbs := by
  have hspec := (nearest_spec n x).1
  rw [h, natAbs_mul_sub_mul, natAbs_mul_sub_mul] at hspec
  exact Nat.le_of_mul_le_mul_right hspec (pow_pos 149)

theorem nearest_nearest {n : Nat} (h : n.log2 < 127) : nearest (nearest n) = nearest n := by
  have hclosest := nearest_closest (scaledMagnitude_bitsOfNat h) (nearest n)
  omega

/-- A number and the one that it is rounded to have the same single. -/
theorem bitsOfNat_nearest {n : Nat} (hn : n.log2 < 127) (h : (nearest n).log2 < 127) :
    bitsOfNat (nearest n) = bitsOfNat n := by
  have hscaled : scaledMagnitude (bitsOfNat (nearest n)) = scaledMagnitude (bitsOfNat n) := by
    rw [scaledMagnitude_bitsOfNat hn, scaledMagnitude_bitsOfNat h, nearest_nearest hn]
  have hlt := bitsOfNat_lt hn
  have hlt' := bitsOfNat_lt h
  rcases Nat.lt_trichotomy (bitsOfNat (nearest n)) (bitsOfNat n) with hlow | heq | hhigh
  · exact absurd hscaled (Nat.ne_of_lt (scaledMagnitude_lt hlow (by omega)))
  · exact heq
  · exact absurd hscaled (Nat.ne_of_gt (scaledMagnitude_lt hhigh (by omega)))

end Single

end BrickMachine
