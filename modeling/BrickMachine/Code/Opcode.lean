/-!
# Opcodes

The instruction set has 47 opcodes. `byte` is an opcode's number in the long form of an
instruction, `shortCode?` its number in the short form, which only four of them have. An opcode
also says how many operand words it needs at least (`minOperands`), whether its first operand
is the size of the instruction, and whether its flags select a comparison.
-/

namespace BrickMachine

inductive Opcode where
  | add | sub | neg | mul | div | mod | and | or | xor | not
  | cmp | tst
  | index | replace | arrSize | arrBuild | arrSubset | arrInit | mov | set
  | flatten | unflatten | numToString | stringToNum
  | strCat | strSubset | strToByteArr | byteArrToStr
  | jmp | brCmp | brTst | syscall | stop | finClump | finClumpImmed
  | acquire | release | subCall | subRet
  | setIn | setOut | getIn | getOut | wait | getTick
  | sqrt | abs
  deriving DecidableEq, Repr

namespace Opcode

def byte : Opcode → UInt8
  | add => 0x00
  | sub => 0x01
  | neg => 0x02
  | mul => 0x03
  | div => 0x04
  | mod => 0x05
  | and => 0x06
  | or => 0x07
  | xor => 0x08
  | not => 0x09
  | cmp => 0x11
  | tst => 0x12
  | index => 0x15
  | replace => 0x16
  | arrSize => 0x17
  | arrBuild => 0x18
  | arrSubset => 0x19
  | arrInit => 0x1A
  | mov => 0x1B
  | set => 0x1C
  | flatten => 0x1D
  | unflatten => 0x1E
  | numToString => 0x1F
  | stringToNum => 0x20
  | strCat => 0x21
  | strSubset => 0x22
  | strToByteArr => 0x23
  | byteArrToStr => 0x24
  | jmp => 0x25
  | brCmp => 0x26
  | brTst => 0x27
  | syscall => 0x28
  | stop => 0x29
  | finClump => 0x2A
  | finClumpImmed => 0x2B
  | acquire => 0x2C
  | release => 0x2D
  | subCall => 0x2E
  | subRet => 0x2F
  | setIn => 0x30
  | setOut => 0x31
  | getIn => 0x32
  | getOut => 0x33
  | wait => 0x34
  | getTick => 0x35
  | sqrt => 0x36
  | abs => 0x37

def ofByte? : UInt8 → Option Opcode
  | 0x00 => some add
  | 0x01 => some sub
  | 0x02 => some neg
  | 0x03 => some mul
  | 0x04 => some div
  | 0x05 => some mod
  | 0x06 => some and
  | 0x07 => some or
  | 0x08 => some xor
  | 0x09 => some not
  | 0x11 => some cmp
  | 0x12 => some tst
  | 0x15 => some index
  | 0x16 => some replace
  | 0x17 => some arrSize
  | 0x18 => some arrBuild
  | 0x19 => some arrSubset
  | 0x1A => some arrInit
  | 0x1B => some mov
  | 0x1C => some set
  | 0x1D => some flatten
  | 0x1E => some unflatten
  | 0x1F => some numToString
  | 0x20 => some stringToNum
  | 0x21 => some strCat
  | 0x22 => some strSubset
  | 0x23 => some strToByteArr
  | 0x24 => some byteArrToStr
  | 0x25 => some jmp
  | 0x26 => some brCmp
  | 0x27 => some brTst
  | 0x28 => some syscall
  | 0x29 => some stop
  | 0x2A => some finClump
  | 0x2B => some finClumpImmed
  | 0x2C => some acquire
  | 0x2D => some release
  | 0x2E => some subCall
  | 0x2F => some subRet
  | 0x30 => some setIn
  | 0x31 => some setOut
  | 0x32 => some getIn
  | 0x33 => some getOut
  | 0x34 => some wait
  | 0x35 => some getTick
  | 0x36 => some sqrt
  | 0x37 => some abs
  | _ => none

@[simp] theorem ofByte?_byte (op : Opcode) : ofByte? op.byte = some op := by
  cases op <;> rfl

/-- The opcode's number in a short instruction. -/
def shortCode? : Opcode → Option UInt8
  | mov => some 0
  | acquire => some 1
  | release => some 2
  | subCall => some 3
  | _ => none

def ofShortCode? : UInt8 → Option Opcode
  | 0 => some mov
  | 1 => some acquire
  | 2 => some release
  | 3 => some subCall
  | _ => none

theorem ofShortCode?_of_shortCode? {op : Opcode} {n : UInt8} (h : op.shortCode? = some n) :
    ofShortCode? n = some op := by
  cases op <;> simp [shortCode?] at h <;> subst h <;> rfl

def name : Opcode → String
  | add => "ADD"
  | sub => "SUB"
  | neg => "NEG"
  | mul => "MUL"
  | div => "DIV"
  | mod => "MOD"
  | and => "AND"
  | or => "OR"
  | xor => "XOR"
  | not => "NOT"
  | cmp => "CMP"
  | tst => "TST"
  | index => "INDEX"
  | replace => "REPLACE"
  | arrSize => "ARRSIZE"
  | arrBuild => "ARRBUILD"
  | arrSubset => "ARRSUBSET"
  | arrInit => "ARRINIT"
  | mov => "MOV"
  | set => "SET"
  | flatten => "FLATTEN"
  | unflatten => "UNFLATTEN"
  | numToString => "NUMTOSTRING"
  | stringToNum => "STRINGTONUM"
  | strCat => "STRCAT"
  | strSubset => "STRSUBSET"
  | strToByteArr => "STRTOBYTEARR"
  | byteArrToStr => "BYTEARRTOSTR"
  | jmp => "JMP"
  | brCmp => "BRCMP"
  | brTst => "BRTST"
  | syscall => "SYSCALL"
  | stop => "STOP"
  | finClump => "FINCLUMP"
  | finClumpImmed => "FINCLUMPIMMED"
  | acquire => "ACQUIRE"
  | release => "RELEASE"
  | subCall => "SUBCALL"
  | subRet => "SUBRET"
  | setIn => "SETIN"
  | setOut => "SETOUT"
  | getIn => "GETIN"
  | getOut => "GETOUT"
  | wait => "WAIT"
  | getTick => "GETTICK"
  | sqrt => "SQRT"
  | abs => "ABS"

/-- The fewest operand words that a long instruction must carry. The opcodes that execute
without an effect need none. -/
def minOperands : Opcode → Nat
  | add | sub | mul | div | mod | and | or | xor => 3
  | cmp | index | arrInit | brCmp | setIn | getIn | getOut => 3
  | replace | arrSubset => 4
  | neg | not | abs | sqrt | tst | arrSize | arrBuild | mov | set => 2
  | brTst | syscall | subCall | setOut | wait => 2
  | jmp | subRet | getTick => 1
  | flatten | unflatten | numToString | stringToNum => 0
  | strCat | strSubset | strToByteArr | byteArrToStr => 0
  | stop | finClump | finClumpImmed | acquire | release => 0

/-- Whether the first operand is the size of the instruction in bytes. -/
def hasSizeOperand : Opcode → Bool
  | arrBuild | setOut => true
  | _ => false

def usesComparison : Opcode → Bool
  | cmp | tst | brCmp | brTst => true
  | _ => false

def isBranch : Opcode → Bool
  | jmp | brCmp | brTst => true
  | _ => false

def all : List Opcode :=
  [add, sub, neg, mul, div, mod, and, or, xor, not, cmp, tst,
   index, replace, arrSize, arrBuild, arrSubset, arrInit, mov, set,
   flatten, unflatten, numToString, stringToNum, strCat, strSubset, strToByteArr, byteArrToStr,
   jmp, brCmp, brTst, syscall, stop, finClump, finClumpImmed, acquire, release, subCall, subRet,
   setIn, setOut, getIn, getOut, wait, getTick, sqrt, abs]

end Opcode

end BrickMachine
