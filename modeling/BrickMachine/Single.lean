/-!
# Single-precision numbers

A single is a binary fraction of 32 bits: a sign, eight bits of exponent and 23 bits of a
mantissa of 24, whose leading bit is not kept. This module goes from integers to singles and
back on their bits, in exact arithmetic:

* `bits` gives the single nearest to an integer, a half going to the even neighbour;
* `integer` gives the integer part of a single, or the nearest 32-bit number if it has none.

The way from a number to its single and back leads to the `nearest` number that has a single.
-/

namespace BrickMachine

namespace Single

/-! ### From integers -/

/-- How many low bits of a number the mantissa has no room for. -/
def excess (n : Nat) : Nat := n.log2 - 23

/-- A number counted in units of `2 ^ k`, to the nearest; a half goes to the even neighbour. -/
def units (k n : Nat) : Nat :=
  let unit := Nat.pow 2 k
  if unit < 2 * (n % unit) ∨ (2 * (n % unit) = unit ∧ n / unit % 2 = 1) then n / unit + 1
  else n / unit

def nearest (n : Nat) : Nat := units (excess n) n * Nat.pow 2 (excess n)

/-- The bits of the single nearest to a natural number. The leading bit of the mantissa adds one
to the exponent, and so does the carry of a mantissa that is rounded up to one more bit. -/
def bitsOfNat (n : Nat) : Nat :=
  if n = 0 then 0
  else (n.log2 + 126) * 0x800000 + units (excess n) n * Nat.pow 2 (23 - n.log2)

def bits (v : Int) : Nat := (if v < 0 then 0x80000000 else 0) + bitsOfNat v.natAbs

def ofInt (v : Int) : Float32 := Float32.ofBits (UInt32.ofNat (bits v))

/-! ### To integers -/

/-- The integer part of the magnitude of a single. An infinity counts as the power of two after
the greatest finite one. -/
def magnitude (bits : Nat) : Nat :=
  let exponent := bits / 0x800000 % 0x100
  let mantissa := 0x800000 + bits % 0x800000
  if exponent < 150 then mantissa / Nat.pow 2 (150 - exponent)
  else mantissa * Nat.pow 2 (exponent - 150)

def isNaN (bits : Nat) : Bool := 0x7F800000 < bits % 0x80000000

/-- The integer with a sign and a magnitude, or the limit of 32 bits that it exceeds. -/
def limited (negative : Bool) (n : Nat) : Int32 :=
  Int32.ofInt (if negative then -Int.ofNat (min n 0x80000000) else Int.ofNat (min n 0x7FFFFFFF))

/-- The integer part of a single within 32 bits; zero for what is no number. -/
def integer (bits : Nat) : Int32 :=
  if isNaN bits then 0 else limited (bits / 0x80000000 % 2 == 1) (magnitude bits)

def toInt32 (x : Float32) : Int32 := integer x.toBits.toNat

/-! ### There and back -/

theorem units_zero (n : Nat) : units 0 n = n := by
  simp [units, Nat.mod_one]

/-- Rounding goes to one of the two neighbours. -/
theorem units_bounds (k n : Nat) :
    n / Nat.pow 2 k ≤ units k n ∧ units k n ≤ n / Nat.pow 2 k + 1 := by
  unfold units
  dsimp only
  split <;> omega

end Single

end BrickMachine
