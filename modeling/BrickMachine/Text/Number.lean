/-!
# Numbers in fixed-width fields

Columns of a report are padded with spaces, addresses with zeros, and code words are shown in
hexadecimal with lower-case digits.
-/

namespace BrickMachine

namespace Text

def padLeft (width : Nat) (c : Char) (s : String) : String :=
  String.ofList (List.replicate (width - s.length) c) ++ s

def padRight (width : Nat) (s : String) : String :=
  s ++ String.ofList (List.replicate (width - s.length) ' ')

def zeroPadded (width n : Nat) : String := padLeft width '0' (toString n)

/-- A signed number with zeros up to a width, in which the sign counts. -/
def zeroPaddedInt (width : Nat) (n : Int) : String :=
  if n < 0 then "-" ++ zeroPadded (width - 1) n.natAbs else zeroPadded width n.natAbs

def signed (n : Int) : String :=
  if n < 0 then toString n else "+" ++ toString n

def hex (width n : Nat) : String :=
  padLeft width '0' (String.ofList (Nat.toDigits 16 n))

def bracketed (numbers : List String) : String :=
  "[" ++ ", ".intercalate numbers ++ "]"

end Text

end BrickMachine
