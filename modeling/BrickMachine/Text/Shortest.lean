/-!
# The shortest decimal of a binary fraction

A binary floating-point number stands for all the reals that round to it, and `shortest` gives a
decimal among them with as few digits as possible and, of those, the nearest to the number. The
search goes over ever finer decimal grids. If a grid has a point in the interval at all, then
one of the two grid points next to the number is in it, so only these are tried.

All arithmetic is exact. The ends of the interval belong to it if the mantissa is even, because
ties round to even.
-/

namespace BrickMachine

structure BinaryFormat where
  fractionBits : Nat
  exponentBits : Nat
  deriving DecidableEq, Repr

namespace BinaryFormat

def single : BinaryFormat := ⟨23, 8⟩

def double : BinaryFormat := ⟨52, 11⟩

end BinaryFormat

/-- The number `mantissa * 2 ^ exponent`, or its negative. -/
structure BinaryFraction where
  negative : Bool
  mantissa : Nat
  exponent : Int
  /-- Whether the next number below is only half as far away as the next above. -/
  nearBelow : Bool
  deriving DecidableEq, Repr

/-- The number that bits stand for; none for infinities and what is no number. -/
def BinaryFormat.fraction? (f : BinaryFormat) (bits : Nat) : Option BinaryFraction :=
  let fractions := Nat.pow 2 f.fractionBits
  let exponents := Nat.pow 2 f.exponentBits
  let fraction := bits % fractions
  let exponent := bits / fractions % exponents
  let negative := bits / (fractions * exponents) % 2 == 1
  let least : Int := 2 - exponents / 2 - f.fractionBits
  if exponent = exponents - 1 then none
  else if exponent = 0 then some ⟨negative, fraction, least, false⟩
  else
    some ⟨negative, fractions + fraction, least + (exponent - 1),
      fraction == 0 && exponent != 1⟩

structure DecimalFraction where
  digits : Nat
  exponent : Int
  deriving DecidableEq, Repr

namespace BinaryFraction

/-- The grid of the multiples of `10 ^ k` beside a number: a multiple `c` is compared with the
number `u * 2 ^ (exponent - 2)` by comparing `c * step` with `u * unit`. -/
structure Grid where
  step : Nat
  unit : Nat
  deriving DecidableEq, Repr

def grid (x : BinaryFraction) (k : Int) : Grid where
  step := Nat.pow 10 k.toNat * Nat.pow 2 (2 - x.exponent).toNat
  unit := Nat.pow 10 (-k).toNat * Nat.pow 2 (x.exponent - 2).toNat

def contains (x : BinaryFraction) (g : Grid) (c : Nat) : Bool :=
  let low := (4 * x.mantissa - (if x.nearBelow then 1 else 2)) * g.unit
  let high := (4 * x.mantissa + 2) * g.unit
  let p := c * g.step
  if x.mantissa % 2 = 0 then low ≤ p && p ≤ high else low < p && p < high

/-- The nearest of the two points of a grid beside the number that rounds to it; of two that are
equally near, the even one. -/
def nearest? (x : BinaryFraction) (g : Grid) : Option Nat :=
  let v := 4 * x.mantissa * g.unit
  let below := v / g.step
  let above := below + 1
  let toBelow := v - below * g.step
  let toAbove := above * g.step - v
  match x.contains g below, x.contains g above with
  | false, false => none
  | true, false => some below
  | false, true => some above
  | true, true =>
    if toBelow < toAbove ∨ (toBelow = toAbove ∧ below % 2 = 0) then some below else some above

/-- The first hit on the grids of `10 ^ k`, `10 ^ (k - 1)`, …, of which `n` are tried. -/
def search (x : BinaryFraction) (k : Int) : Nat → DecimalFraction
  | 0 => ⟨0, 0⟩
  | n + 1 =>
    match x.nearest? (x.grid k) with
    | some c => ⟨c, k⟩
    | none => x.search (k - 1) n

def maxGrids : Nat := 40

def shortest (x : BinaryFraction) : DecimalFraction :=
  if x.mantissa = 0 then ⟨0, 0⟩
  else
    let bits : Int := x.mantissa.log2 + 1 + x.exponent
    x.search (bits * 30103 / 100000 + 1) maxGrids

end BinaryFraction

/-- A decimal in positional notation, with at least one digit on either side of the point. -/
def DecimalFraction.positional (d : DecimalFraction) : String :=
  let digits := Nat.toDigits 10 d.digits
  let whole := digits ++ List.replicate d.exponent.toNat '0'
  let places := (-d.exponent).toNat
  let padded := List.replicate (places + 1 - whole.length) '0' ++ whole
  let point := padded.length - places
  let fraction := padded.drop point
  String.ofList (padded.take point ++ '.' :: (if fraction.isEmpty then ['0'] else fraction))

def BinaryFormat.text? (f : BinaryFormat) (bits : Nat) : Option String :=
  (f.fraction? bits).map fun x =>
    (if x.negative then "-" else "") ++ x.shortest.positional

end BrickMachine
