import BrickMachine.Code.Opcode
import BrickMachine.Text.Number

/-!
# Instructions in code

Code is a sequence of words, and two forms of instruction share it. Bit 11 of the first word
tells them apart.

* The *short form* has an opcode number in bits 8 to 10 and a signed difference in the low byte.
  ACQUIRE and RELEASE take the difference itself as their operand and are one word long. MOV and
  SUBCALL take a second word, and their operands are that word plus the difference, modulo
  2 ^ 16, and the word itself.
* The *long form* has the opcode in the low byte, flags in bits 8 to 11 and the size in bytes in
  the top four bits. The size field 14 says that the size stands in the next word, which is then
  also the first operand, unless the size is that of a single word.

`decode` reads the instruction at one place. What it answers depends on the words of the
instruction alone if its size is among them, and an instruction that it accepts has at least the
operands that its opcode needs.
-/

namespace BrickMachine

inductive Malformation where
  | outsideCode | shortCut | sizeCut | emptyInstruction | cut | tooFewOperands
  deriving DecidableEq, Repr

def Malformation.message : Malformation → String
  | outsideCode => "program counter past end of code"
  | shortCut => "short instruction past end of code"
  | sizeCut => "size word past end of code"
  | emptyInstruction => "zero instruction length"
  | cut => "instruction runs past end of code"
  | tooFewOperands => "too few operands"

inductive DecodeError where
  | malformed (reason : Malformation)
  | unknownOpcode (number : UInt8) (short : Bool)
  deriving DecidableEq, Repr

def DecodeError.message (pc : Nat) : DecodeError → String
  | malformed reason => s!"malformed instruction at pc {pc}: " ++ reason.message
  | unknownOpcode number short =>
    "invalid " ++ (if short then "short" else "long") ++ " opcode 0x"
      ++ Text.hex 2 number.toNat ++ s!" at pc {pc}"

structure Instruction where
  opcode : Opcode
  /-- The flags of a long instruction; a short one has none. -/
  flags : UInt8
  /-- The number of code words, the first word included. -/
  length : Nat
  operands : List UInt16
  short : Bool
  deriving DecidableEq, Repr

/-! ### The fields of a first word -/

namespace FirstWord

def isShort (w : UInt16) : Bool := w.toNat / 0x800 % 2 == 1

def shortCode (w : UInt16) : UInt8 := UInt8.ofNat (w.toNat / 0x100 % 8)

def opcodeByte (w : UInt16) : UInt8 := UInt8.ofNat (w.toNat % 0x100)

def flags (w : UInt16) : UInt8 := UInt8.ofNat (w.toNat / 0x100 % 16)

def sizeField (w : UInt16) : Nat := w.toNat / 0x1000

/-- The size field that moves the size to the next word. -/
def sizeFollows : Nat := 14

/-- The signed low byte of a short instruction, extended to a word. -/
def difference (w : UInt16) : UInt16 :=
  let low := w.toNat % 0x100
  UInt16.ofNat (if low < 0x80 then low else low + 0xFF00)

end FirstWord

namespace Instruction

/-- Whether a short instruction with this opcode is a single word. -/
def isOneWord : Opcode → Bool
  | .acquire | .release => true
  | _ => false

def decodeShort (code : Array UInt16) (pc : Nat) (w : UInt16) : Except DecodeError Instruction :=
  match Opcode.ofShortCode? (FirstWord.shortCode w) with
  | none => .error (.unknownOpcode (FirstWord.shortCode w) true)
  | some op =>
    let diff := FirstWord.difference w
    if isOneWord op then
      .ok { opcode := op, flags := 0, length := 1, operands := [diff], short := true }
    else
      match code[pc + 1]? with
      | none => .error (.malformed .shortCut)
      | some next =>
        .ok { opcode := op, flags := 0, length := 2, operands := [next + diff, next],
              short := true }

/-- The size in bytes of the long instruction at `pc`, whose first word is `w`. -/
def sizeAt? (code : Array UInt16) (pc : Nat) (w : UInt16) : Option Nat :=
  if FirstWord.sizeField w = FirstWord.sizeFollows then
    code[pc + 1]?.map (·.toNat)
  else
    some (FirstWord.sizeField w)

def decodeLong (code : Array UInt16) (pc : Nat) (w : UInt16) : Except DecodeError Instruction :=
  match sizeAt? code pc w with
  | none => .error (.malformed .sizeCut)
  | some size =>
    let length := size / 2
    if length = 0 then
      .error (.malformed .emptyInstruction)
    else if code.size < pc + length then
      .error (.malformed .cut)
    else
      match Opcode.ofByte? (FirstWord.opcodeByte w) with
      | none => .error (.unknownOpcode (FirstWord.opcodeByte w) false)
      | some op =>
        if length - 1 < op.minOperands then
          .error (.malformed .tooFewOperands)
        else
          .ok { opcode := op, flags := FirstWord.flags w, length := length,
                operands := (code.extract (pc + 1) (pc + length)).toList, short := false }

def decode (code : Array UInt16) (pc : Nat) : Except DecodeError Instruction :=
  match code[pc]? with
  | none => .error (.malformed .outsideCode)
  | some w => if FirstWord.isShort w then decodeShort code pc w else decodeLong code pc w

/-- An instruction is at least one word long. -/
theorem length_pos_of_decode {code : Array UInt16} {pc : Nat} {i : Instruction}
    (h : decode code pc = .ok i) : 0 < i.length := by
  unfold decode at h
  split at h
  · cases h
  · split at h
    · unfold decodeShort at h
      split at h
      · cases h
      · dsimp only at h
        split at h
        · cases h; exact Nat.one_pos
        · split at h
          · cases h
          · cases h; exact Nat.two_pos
    · unfold decodeLong at h
      split at h
      · cases h
      · dsimp only at h
        split at h
        · cases h
        · split at h
          · cases h
          · split at h
            · cases h
            · split at h
              · cases h
              · cases h
                exact Nat.pos_of_ne_zero (by assumption)

end Instruction

end BrickMachine
