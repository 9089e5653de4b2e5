/-!
# Sound file names

A program names a sound file by an array of bytes that ends in a zero. The name must have at
least three characters and, with the zero, at most twenty bytes. In the accepted name every
character other than a letter, a digit, a space or one of `.`, `!`, `-`, `_` has become `_`, and
the last three characters are `wav`, whatever they were.
-/

namespace BrickMachine

namespace SoundName

/-- The most bytes of a name, with the zero at its end. -/
def maxLength : Nat := 20

def extension : List Char := ['w', 'a', 'v']

def charOf (b : UInt8) : Char := Char.ofNat b.toNat

def isAllowed (c : Char) : Bool :=
  c.isAlphanum || c == ' ' || c == '.' || c == '!' || c == '-' || c == '_'

def clean (b : UInt8) : Char :=
  if isAllowed (charOf b) then charOf b else '_'

/-- The name without the zero, cleaned and with its extension. -/
def cleanAll (stem : List UInt8) : List Char :=
  (stem.take (stem.length - extension.length)).map clean ++ extension

def ofBytes? (bytes : List UInt8) : Option (List Char) :=
  if extension.length < bytes.length ∧ bytes.length ≤ maxLength ∧ bytes.getLast? = some 0 then
    some (cleanAll bytes.dropLast)
  else
    none

end SoundName

end BrickMachine
