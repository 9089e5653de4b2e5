import BrickMachine.Machine.Arithmetic
import Mathlib.Algebra.Ring.Int.Defs
import Mathlib.Algebra.Ring.Nat

/-!
# What the arithmetic gives

`BinaryOp.Gives`, `UnaryOp.Gives` and `Comparison.Relates` say in terms of integers and of single
bits what the operations on numbers of 32 bits are to give, and the operations are shown to give it.

Division is the delicate one. The quotient of the least number by -1 is too great by one, and the
least number itself stands for it; with that quotient the remainder is zero, as the equation between
quotient and remainder, which holds modulo `2 ^ 32`, wants it.
-/

namespace BrickMachine

/-! ### What is to be given -/

/-- `q` is the quotient of `a` by `b`, truncated toward zero, or the least number in place of the
only quotient that is no number. -/
def IsQuotient (a b q : Int32) : Prop :=
  if a = Int32.minValue ∧ b = -1 then q = Int32.minValue else q.toInt = a.toInt.tdiv b.toInt

/-- `r` is what the quotient of `a` by `b` leaves of `a`: less than `b` and with the sign of `a`. -/
def IsRemainder (a b r : Int32) : Prop :=
  (∃ q, IsQuotient a b q ∧ (q.toInt * b.toInt + r.toInt).bmod (2 ^ 32) = a.toInt) ∧
    r.toInt.natAbs < b.toInt.natAbs ∧ (r = 0 ∨ r.toInt.sign = a.toInt.sign)

def IsSquareRoot (a r : Int32) : Prop :=
  0 ≤ r.toInt ∧ r.toInt * r.toInt ≤ a.toInt ∧ a.toInt < (r.toInt + 1) * (r.toInt + 1)

def BinaryOp.Gives (op : BinaryOp) (a b v : Int32) : Prop :=
  match op with
  | add => v.toInt = (a.toInt + b.toInt).bmod (2 ^ 32)
  | sub => v.toInt = (a.toInt - b.toInt).bmod (2 ^ 32)
  | mul => v.toInt = (a.toInt * b.toInt).bmod (2 ^ 32)
  | div => if b = 0 then v = 0 else IsQuotient a b v
  | mod => if b = 0 then v = 0 else IsRemainder a b v
  | and => ∀ i, v.toBitVec.getLsbD i = (a.toBitVec.getLsbD i && b.toBitVec.getLsbD i)
  | or => ∀ i, v.toBitVec.getLsbD i = (a.toBitVec.getLsbD i || b.toBitVec.getLsbD i)
  | xor => ∀ i, v.toBitVec.getLsbD i = (a.toBitVec.getLsbD i ^^ b.toBitVec.getLsbD i)

def UnaryOp.Gives (op : UnaryOp) (a v : Int32) : Prop :=
  match op with
  | neg => v.toInt = (-a.toInt).bmod (2 ^ 32)
  | abs => v.toInt = (a.toInt.natAbs : Int).bmod (2 ^ 32)
  | sqrt => if a.toInt < 0 then v = 0 else IsSquareRoot a v
  | not => if a = 0 then v = 1 else v = 0

def Comparison.Relates (c : Comparison) (x y : Int) : Prop :=
  match c with
  | less => x < y
  | greater => x > y
  | lessEqual => x ≤ y
  | greaterEqual => x ≥ y
  | equal => x = y
  | notEqual => x ≠ y

/-! ### Quotients and remainders -/

theorem isQuotient_div (a b : Int32) : IsQuotient a b (a / b) := by
  unfold IsQuotient
  split
  case isTrue h =>
    obtain ⟨rfl, rfl⟩ := h
    exact Int32.minValue_div_neg_one
  case isFalse h =>
    rcases Decidable.not_and_iff_not_or_not.1 h with ha | hb
    · exact Int32.toInt_div_of_ne_left a b ha
    · exact Int32.toInt_div_of_ne_right a b hb

/-- Quotient and remainder give the dividend back, up to wrapping around. -/
theorem bmod_div_mul_add_mod (a b : Int32) :
    ((a / b).toInt * b.toInt + (a % b).toInt).bmod (2 ^ 32) = a.toInt := by
  have hrange : a.toInt.bmod (2 ^ 32) = a.toInt := Int32.toInt_bmod_size a
  rw [Int32.toInt_div, Int32.toInt_mod, Int.add_bmod, Int.bmod_mul_bmod, ← Int.add_bmod,
    Int.tdiv_mul_add_tmod, hrange]

theorem isRemainder_mod {a b : Int32} (hb : b ≠ 0) : IsRemainder a b (a % b) := by
  have hb : b.toInt ≠ 0 := fun h => hb (Int32.toInt_inj.1 h)
  refine ⟨⟨a / b, isQuotient_div a b, bmod_div_mul_add_mod a b⟩, ?_, ?_⟩
  · rw [Int32.toInt_mod, Int.natAbs_tmod]
    exact Nat.mod_lt _ (Int.natAbs_pos.2 hb)
  · rw [← Int32.toInt_inj, Int32.toInt_mod, Int32.toInt_zero]
    by_cases hdvd : b.toInt ∣ a.toInt
    · exact Or.inl (Int.tmod_eq_zero_of_dvd hdvd)
    · refine Or.inr ?_
      rw [Int.sign_tmod, if_neg hdvd]

/-! ### Roots -/

/-- Each round halves the distance in which the root is found. -/
theorem refineRoot_spec {n : Nat} (k r : Nat) (hle : r * r ≤ n)
    (hlt : n < (r + 2 ^ k) * (r + 2 ^ k)) :
    refineRoot n k r * refineRoot n k r ≤ n ∧
      n < (refineRoot n k r + 1) * (refineRoot n k r + 1) := by
  induction k generalizing r with
  | zero => exact ⟨hle, hlt⟩
  | succ k ih =>
      rw [refineRoot]
      split
      case isTrue hbetter =>
        apply ih _ hbetter
        change n < (r + 2 ^ k + 2 ^ k) * (r + 2 ^ k + 2 ^ k)
        rwa [Nat.add_assoc, ← Nat.two_mul, ← Nat.pow_succ']
      case isFalse hworse => exact ih r hle (Nat.lt_of_not_le hworse)

theorem squareRoot_spec {n : Nat} (hn : n < 2 ^ 32) :
    squareRoot n * squareRoot n ≤ n ∧ n < (squareRoot n + 1) * (squareRoot n + 1) :=
  refineRoot_spec 16 0 (Nat.zero_le n) (by simpa using hn)

theorem isSquareRoot_squareRoot {a : Int32} (ha : 0 ≤ a.toInt) :
    IsSquareRoot a (Int32.ofNat (squareRoot a.toInt.toNat)) := by
  have hsmall := a.toInt_lt
  obtain ⟨n, hn⟩ := Int.eq_ofNat_of_zero_le ha
  rw [hn] at hsmall
  obtain ⟨hle, hlt⟩ := squareRoot_spec (n := n) (by omega)
  have hroot : squareRoot n < 2 ^ 31 := by
    have hself : squareRoot n ≤ squareRoot n * squareRoot n := Nat.le_mul_self _
    omega
  unfold IsSquareRoot
  rw [hn, Int.toNat_natCast, Int32.toInt_ofNat_of_lt hroot]
  exact ⟨Int.natCast_nonneg _, mod_cast hle, mod_cast hlt⟩

/-! ### The operations -/

theorem BinaryOp.gives_apply (op : BinaryOp) (a b : Int32) : op.Gives a b (op.apply a b) := by
  cases op with
  | add => exact Int32.toInt_add a b
  | sub => exact Int32.toInt_sub a b
  | mul => exact Int32.toInt_mul a b
  | div =>
      unfold Gives apply
      dsimp only
      split
      case isTrue => rfl
      case isFalse => exact isQuotient_div a b
  | mod =>
      unfold Gives apply
      dsimp only
      split
      case isTrue => rfl
      case isFalse hb => exact isRemainder_mod hb
  | and => exact fun i => BitVec.getLsbD_and
  | or => exact fun i => BitVec.getLsbD_or
  | xor => exact fun i => BitVec.getLsbD_xor

/-- The least number is its own absolute value. -/
theorem toInt_abs (a : Int32) : a.abs.toInt = (a.toInt.natAbs : Int).bmod (2 ^ 32) := by
  change a.toBitVec.abs.toInt = (a.toBitVec.toInt.natAbs : Int).bmod (2 ^ 32)
  rw [BitVec.abs_eq, BitVec.msb_eq_toInt]
  split
  case isTrue h =>
    rw [BitVec.toInt_neg, Int.ofNat_natAbs_of_nonpos (Int.le_of_lt (of_decide_eq_true h))]
  case isFalse h =>
    rw [Int.natAbs_of_nonneg (Int.not_lt.1 fun hneg => h (decide_eq_true hneg))]
    exact (Int32.toInt_bmod_size a).symm

theorem UnaryOp.gives_apply (op : UnaryOp) (a : Int32) : op.Gives a (op.apply a) := by
  cases op with
  | neg => exact Int32.toInt_neg a
  | abs => exact toInt_abs a
  | sqrt =>
      unfold Gives apply
      dsimp only
      have hneg : a < 0 ↔ a.toInt < 0 := Int32.lt_iff_toInt_lt
      split
      case isTrue h => rw [if_pos (hneg.2 h)]
      case isFalse h =>
        rw [if_neg (mt hneg.1 h)]
        exact isSquareRoot_squareRoot (Int.not_lt.1 h)
  | not =>
      unfold Gives apply ofBool
      dsimp only
      split
      case isTrue h => simp [h]
      case isFalse h => simp [h]

theorem Comparison.holds_iff {c : Comparison} {a b : Int32} :
    c.holds a b = true ↔ c.Relates a.toInt b.toInt := by
  cases c <;>
    simp [holds, Relates, Int32.lt_iff_toInt_lt, Int32.le_iff_toInt_le, Int32.toInt_inj]

end BrickMachine
