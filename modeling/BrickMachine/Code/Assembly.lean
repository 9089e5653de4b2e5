import BrickMachine.Code.Operation

/-!
# Assembly

A program's code is written as a list of statements, each of which becomes a few words. The
three constructors `long`, `sized` and `short` are the three encodings of an instruction, and
`raw` puts down words as they are. The named statements below give every instruction that the
machine executes its usual operands.

Branch offsets count from the first word of the branching instruction.
-/

namespace BrickMachine

inductive Statement where
  | raw (words : List UInt16)
  /-- A long instruction, with its size in the first word. -/
  | long (op : Opcode) (flags : UInt8) (operands : List UInt16)
  /-- A long instruction, with its size as first operand. -/
  | sized (op : Opcode) (operands : List UInt16)
  /-- A short instruction; MOV and SUBCALL take a second word. -/
  | short (op : Opcode) (difference : UInt8) (next : Option UInt16)
  deriving DecidableEq, Repr

namespace Statement

/-- The first word of a long instruction. A size of more than 15 bytes does not fit its field
and loses its high bits. -/
def longWord (size : Nat) (flags : UInt8) (op : Opcode) : UInt16 :=
  UInt16.ofNat (size % 16 * 0x1000 + flags.toNat % 16 * 0x100 + op.byte.toNat)

/-- The first word of a short instruction. An opcode without a short form gets the number 7,
which no opcode has. -/
def shortWord (op : Opcode) (difference : UInt8) : UInt16 :=
  UInt16.ofNat (0x800 + (op.shortCode?.getD 7).toNat * 0x100 + difference.toNat)

def words : Statement → List UInt16
  | raw ws => ws
  | long op flags operands => longWord (2 * (operands.length + 1)) flags op :: operands
  | sized op operands =>
    longWord FirstWord.sizeFollows 0 op :: UInt16.ofNat (2 * (operands.length + 2)) :: operands
  | short op difference next => shortWord op difference :: next.toList

/-! ### Arithmetic, logic and comparison -/

def add (dst a b : UInt16) : Statement := long .add 0 [dst, a, b]
def sub (dst a b : UInt16) : Statement := long .sub 0 [dst, a, b]
def mul (dst a b : UInt16) : Statement := long .mul 0 [dst, a, b]
def div (dst a b : UInt16) : Statement := long .div 0 [dst, a, b]
def mod (dst a b : UInt16) : Statement := long .mod 0 [dst, a, b]
def and (dst a b : UInt16) : Statement := long .and 0 [dst, a, b]
def or (dst a b : UInt16) : Statement := long .or 0 [dst, a, b]
def xor (dst a b : UInt16) : Statement := long .xor 0 [dst, a, b]
def neg (dst src : UInt16) : Statement := long .neg 0 [dst, src]
def not (dst src : UInt16) : Statement := long .not 0 [dst, src]
def abs (dst src : UInt16) : Statement := long .abs 0 [dst, src]
def sqrt (dst src : UInt16) : Statement := long .sqrt 0 [dst, src]
def cmp (c : Comparison) (dst a b : UInt16) : Statement := long .cmp c.flags [dst, a, b]
def tst (c : Comparison) (dst a : UInt16) : Statement := long .tst c.flags [dst, a]

/-! ### Data -/

def set (dst literal : UInt16) : Statement := long .set 0 [dst, literal]
def mov (dst src : UInt16) : Statement := long .mov 0 [dst, src]

/-- The short MOV. It moves to `dst` if the entries are within a signed byte of each other. -/
def movShort (dst src : UInt16) : Statement := short .mov (dst - src).toUInt8 (some src)

def index (dst array position : UInt16) : Statement := long .index 0 [dst, array, position]
def replace (dst src position new : UInt16) : Statement :=
  long .replace 0 [dst, src, position, new]
def arrSize (dst array : UInt16) : Statement := long .arrSize 0 [dst, array]
def arrBuild (dst : UInt16) (sources : List UInt16) : Statement :=
  sized .arrBuild (dst :: sources)
def arrSubset (dst src position length : UInt16) : Statement :=
  long .arrSubset 0 [dst, src, position, length]
def arrInit (dst value count : UInt16) : Statement := long .arrInit 0 [dst, value, count]

/-! ### Control flow -/

def jmp (offset : UInt16) : Statement := long .jmp 0 [offset]
def brCmp (c : Comparison) (offset a b : UInt16) : Statement := long .brCmp c.flags [offset, a, b]
def brTst (c : Comparison) (offset a : UInt16) : Statement := long .brTst c.flags [offset, a]
def stop : Statement := long .stop 0 [noEntry]
def finClump : Statement := long .finClump 0 [noEntry, noEntry]
def finClumpImmed (clump : UInt16) : Statement := long .finClumpImmed 0 [clump]
def acquire (mutex : UInt16) : Statement := long .acquire 0 [mutex]
def release (mutex : UInt16) : Statement := long .release 0 [mutex]
def subCall (clump slot : UInt16) : Statement := long .subCall 0 [clump, slot]
def subRet (slot : UInt16) : Statement := long .subRet 0 [slot]

/-! ### Channels, calls and time -/

def syscall (id cluster : UInt16) : Statement := long .syscall 0 [id, cluster]
def setIn (src channel property : UInt16) : Statement := long .setIn 0 [src, channel, property]

def setOut (channel : UInt16) (settings : List (UInt16 × UInt16)) : Statement :=
  sized .setOut (channel :: settings.flatMap (fun s => [s.1, s.2]))

def getIn (dst channel property : UInt16) : Statement := long .getIn 0 [dst, channel, property]
def getOut (dst channel property : UInt16) : Statement := long .getOut 0 [dst, channel, property]
def wait (duration : UInt16) : Statement := long .wait 0 [noEntry, duration]
def getTick (dst : UInt16) : Statement := long .getTick 0 [dst]

end Statement

def assemble (statements : List Statement) : List UInt16 :=
  statements.flatMap Statement.words

@[simp] theorem assemble_nil : assemble [] = [] := rfl

@[simp] theorem assemble_cons (s : Statement) (rest : List Statement) :
    assemble (s :: rest) = s.words ++ assemble rest := rfl

end BrickMachine
