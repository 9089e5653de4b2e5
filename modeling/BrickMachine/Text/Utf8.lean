/-!
# UTF-8

`next` reads one character off the front of a list of bytes. Bytes that start no character are
taken off as well: the longest run of them that could still have become one, and at least one
byte. `decode?` reads a whole text and refuses ill-formed ones, `decodeLossy` puts U+FFFD in the
place of every ill-formed run.
-/

namespace BrickMachine

namespace Utf8

def isTail (b : UInt8) : Bool := 0x80 ≤ b && b ≤ 0xBF

def tailBits (b : UInt8) : Nat := b.toNat % 64

/-- How many bytes continue the character that a byte starts, and the range of the first of
them; none if the byte starts no character of several bytes. -/
def lead? (b : UInt8) : Option (Nat × UInt8 × UInt8) :=
  if 0xC2 ≤ b && b ≤ 0xDF then some (1, 0x80, 0xBF)
  else if b == 0xE0 then some (2, 0xA0, 0xBF)
  else if b == 0xED then some (2, 0x80, 0x9F)
  else if 0xE1 ≤ b && b ≤ 0xEF then some (2, 0x80, 0xBF)
  else if b == 0xF0 then some (3, 0x90, 0xBF)
  else if 0xF1 ≤ b && b ≤ 0xF3 then some (3, 0x80, 0xBF)
  else if b == 0xF4 then some (3, 0x80, 0x8F)
  else none

def leadBits (b : UInt8) (n : Nat) : Nat := b.toNat % Nat.pow 2 (6 - n)

/-- Reads `n` continuing bytes after the bits `acc`. The first component is none if fewer than
`n` of them follow; the second is what is left. -/
def tails (acc : Nat) : Nat → List UInt8 → Option Char × List UInt8
  | 0, rest => (some (Char.ofNat acc), rest)
  | n + 1, b :: rest =>
    if isTail b then tails (acc * 64 + tailBits b) n rest else (none, b :: rest)
  | _ + 1, [] => (none, [])

/-- Reads the character whose first byte is `b`. -/
def next (b : UInt8) (rest : List UInt8) : Option Char × List UInt8 :=
  if b < 0x80 then
    (some (Char.ofNat b.toNat), rest)
  else
    match lead? b, rest with
    | some (n + 1, low, high), c :: rest' =>
      if low ≤ c && c ≤ high then
        tails (leadBits b (n + 1) * 64 + tailBits c) n rest'
      else
        (none, rest)
    | _, _ => (none, rest)

theorem length_tails_le (acc n : Nat) (bs : List UInt8) :
    (tails acc n bs).2.length ≤ bs.length := by
  induction n generalizing acc bs with
  | zero => simp [tails]
  | succ n ih =>
    cases bs with
    | nil => simp [tails]
    | cons b rest =>
      simp only [tails]
      split
      · exact Nat.le_succ_of_le (ih _ rest)
      · simp

theorem length_next_le (b : UInt8) (rest : List UInt8) :
    (next b rest).2.length ≤ rest.length := by
  unfold next
  split
  · simp
  · split
    · split
      · exact Nat.le_succ_of_le (length_tails_le _ _ _)
      · simp
    · simp

def chars : List UInt8 → List (Option Char)
  | [] => []
  | b :: rest => (next b rest).1 :: chars (next b rest).2
termination_by bytes => bytes.length
decreasing_by exact Nat.lt_succ_of_le (length_next_le b rest)

def decode? (bytes : List UInt8) : Option String :=
  ((chars bytes).mapM id).map String.ofList

def decodeLossy (bytes : List UInt8) : String :=
  String.ofList ((chars bytes).map (·.getD '\uFFFD'))

end Utf8

end BrickMachine
