import BrickMachine.Code.Comparison
import BrickMachine.Code.Instruction

/-!
# Operations

An `Operation` is an instruction with its operand words given their meaning: which word names
the destination, which is a literal, which is a signed offset. `Instruction.operation?` gives
the operation, and it exists exactly when the instruction has the operands that its opcode
needs, so a decoded instruction always has one.

Two opcodes carry their size as first operand, ARRBUILD and SETOUT. The size says how many of
the words after the destination or channel take part: half the size, less the three words before
them. Words past the end of the instruction never do.
-/

namespace BrickMachine

inductive BinaryOp where
  | add | sub | mul | div | mod | and | or | xor
  deriving DecidableEq, Repr

inductive UnaryOp where
  | neg | abs | sqrt | not
  deriving DecidableEq, Repr

/-- An instruction with named operands. Operands that name a dataspace entry are words, a literal
is called by what it says. -/
inductive Operation where
  | binary (op : BinaryOp) (dst lhs rhs : UInt16)
  | unary (op : UnaryOp) (dst src : UInt16)
  | compare (flags : UInt8) (dst lhs rhs : UInt16)
  | test (flags : UInt8) (dst src : UInt16)
  | index (dst array position : UInt16)
  | replace (dst src position new : UInt16)
  | arraySize (dst array : UInt16)
  | arrayBuild (dst : UInt16) (sources : List UInt16)
  | arraySubset (dst src position length : UInt16)
  | arrayInit (dst value count : UInt16)
  | move (dst src : UInt16)
  | set (dst literal : UInt16)
  | unsupported (op : Opcode)
  | jump (offset : Int)
  | branchCompare (flags : UInt8) (offset : Int) (lhs rhs : UInt16)
  | branchTest (flags : UInt8) (offset : Int) (src : UInt16)
  | stop
  | idle
  | call (clump slot : UInt16)
  | ret (slot : UInt16)
  | syscall (id cluster : UInt16)
  | setInput (src channel property : UInt16)
  | setOutput (channel : UInt16) (settings : List (UInt16 × UInt16))
  | getInput (dst channel property : UInt16)
  | getOutput (dst channel property : UInt16)
  | wait (duration : UInt16)
  | getTick (dst : UInt16)
  deriving DecidableEq, Repr

/-- The operand word that names no dataspace entry. -/
def noEntry : UInt16 := 0xFFFF

def signedWord (w : UInt16) : Int :=
  if w.toNat < 0x8000 then w.toNat else w.toNat - 0x10000

/-- How many words after the destination or channel an instruction of a given size uses. -/
def payloadLength (size : UInt16) : Nat := size.toNat / 2 - 3

/-- The list cut into pairs; a last single element is left out. -/
def pairs {α : Type} : List α → List (α × α)
  | a :: b :: rest => (a, b) :: pairs rest
  | _ => []

namespace Operation

def one (f : UInt16 → Operation) : List UInt16 → Option Operation
  | a :: _ => some (f a)
  | _ => none

def two (f : UInt16 → UInt16 → Operation) : List UInt16 → Option Operation
  | a :: b :: _ => some (f a b)
  | _ => none

def three (f : UInt16 → UInt16 → UInt16 → Operation) : List UInt16 → Option Operation
  | a :: b :: c :: _ => some (f a b c)
  | _ => none

def four (f : UInt16 → UInt16 → UInt16 → UInt16 → Operation) : List UInt16 → Option Operation
  | a :: b :: c :: d :: _ => some (f a b c d)
  | _ => none

def sized (f : UInt16 → List UInt16 → Operation) : List UInt16 → Option Operation
  | size :: a :: rest => some (f a (rest.take (payloadLength size)))
  | _ => none

def of? (op : Opcode) (flags : UInt8) (operands : List UInt16) : Option Operation :=
  match op with
  | .add => three (.binary .add) operands
  | .sub => three (.binary .sub) operands
  | .mul => three (.binary .mul) operands
  | .div => three (.binary .div) operands
  | .mod => three (.binary .mod) operands
  | .and => three (.binary .and) operands
  | .or => three (.binary .or) operands
  | .xor => three (.binary .xor) operands
  | .neg => two (.unary .neg) operands
  | .abs => two (.unary .abs) operands
  | .sqrt => two (.unary .sqrt) operands
  | .not => two (.unary .not) operands
  | .cmp => three (.compare flags) operands
  | .tst => two (.test flags) operands
  | .index => three .index operands
  | .replace => four .replace operands
  | .arrSize => two .arraySize operands
  | .arrBuild => sized .arrayBuild operands
  | .arrSubset => four .arraySubset operands
  | .arrInit => three .arrayInit operands
  | .mov => two .move operands
  | .set => two .set operands
  | .flatten | .unflatten | .numToString | .stringToNum => some (.unsupported op)
  | .strCat | .strSubset | .strToByteArr | .byteArrToStr => some (.unsupported op)
  | .jmp => one (fun offset => .jump (signedWord offset)) operands
  | .brCmp => three (fun offset => .branchCompare flags (signedWord offset)) operands
  | .brTst => two (fun offset => .branchTest flags (signedWord offset)) operands
  | .stop => some .stop
  | .finClump | .finClumpImmed | .acquire | .release => some .idle
  | .subCall => two .call operands
  | .subRet => one .ret operands
  | .syscall => two .syscall operands
  | .setIn => three .setInput operands
  | .setOut => sized (fun channel payload => .setOutput channel (pairs payload)) operands
  | .getIn => three .getInput operands
  | .getOut => three .getOutput operands
  | .wait => two (fun _ duration => .wait duration) operands
  | .getTick => one .getTick operands

theorem one_eq_none_iff {f : UInt16 → Operation} {ws : List UInt16} :
    one f ws = none ↔ ws.length < 1 := by
  rcases ws with _ | ⟨a, _⟩ <;> simp [one]

theorem two_eq_none_iff {f : UInt16 → UInt16 → Operation} {ws : List UInt16} :
    two f ws = none ↔ ws.length < 2 := by
  rcases ws with _ | ⟨a, _ | ⟨b, _⟩⟩ <;> simp [two]

theorem three_eq_none_iff {f : UInt16 → UInt16 → UInt16 → Operation} {ws : List UInt16} :
    three f ws = none ↔ ws.length < 3 := by
  rcases ws with _ | ⟨a, _ | ⟨b, _ | ⟨c, _⟩⟩⟩ <;> simp [three]

theorem four_eq_none_iff {f : UInt16 → UInt16 → UInt16 → UInt16 → Operation}
    {ws : List UInt16} : four f ws = none ↔ ws.length < 4 := by
  rcases ws with _ | ⟨a, _ | ⟨b, _ | ⟨c, _ | ⟨d, _⟩⟩⟩⟩ <;> simp [four]

theorem sized_eq_none_iff {f : UInt16 → List UInt16 → Operation} {ws : List UInt16} :
    sized f ws = none ↔ ws.length < 2 := by
  rcases ws with _ | ⟨a, _ | ⟨b, _⟩⟩ <;> simp [sized]

/-- An opcode has an operation exactly on as many operand words as it asks for. -/
theorem of?_eq_none_iff {op : Opcode} {flags : UInt8} {ws : List UInt16} :
    of? op flags ws = none ↔ ws.length < op.minOperands := by
  cases op <;> simp only [of?, Opcode.minOperands, one_eq_none_iff, two_eq_none_iff,
    three_eq_none_iff, four_eq_none_iff, sized_eq_none_iff] <;> simp

end Operation

def Instruction.operation? (i : Instruction) : Option Operation :=
  Operation.of? i.opcode i.flags i.operands

end BrickMachine
