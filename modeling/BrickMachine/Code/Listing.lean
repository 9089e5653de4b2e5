import BrickMachine.Code.Operation
import BrickMachine.Text.Json

/-!
# Listings

A listing shows code word for word, one instruction on a line. The words of the lines, one after
the other, are the code: where no instruction can be decoded a line takes one word and shows the
reason. An operand is shown as an entry, unless the opcode takes it for a literal.
-/

namespace BrickMachine

/-- An operand word, as its opcode uses it. -/
inductive OperandView where
  | entry (number : UInt16)
  | noEntry
  | literal (value : UInt16)
  /-- An offset from the first word of the instruction. -/
  | offset (value : Int)
  deriving DecidableEq, Repr

namespace OperandView

def text : OperandView → String
  | entry number => s!"r{number}"
  | noEntry => "NOT_A_DS_ID"
  | literal value => s!"#{value}"
  | offset value => Text.signed value

def toJson : OperandView → Json
  | entry number => .object [("kind", .string "entry"), ("value", .nat number.toNat)]
  | noEntry => .object [("kind", .string "not_a_ds_id")]
  | literal value => .object [("kind", .string "immediate"), ("value", .nat value.toNat)]
  | offset value => .object [("kind", .string "offset"), ("value", .int value)]

end OperandView

/-- Whether operand `i` of an opcode is a literal. After the size and the channel of SETOUT,
properties and entries alternate. -/
def Opcode.takesLiteral (op : Opcode) (i : Nat) : Bool :=
  match op with
  | .jmp | .brCmp | .brTst | .syscall | .subCall | .finClumpImmed | .arrBuild => i == 0
  | .set => i == 1
  | .setIn | .getIn | .getOut => i == 2
  | .finClump => true
  | .setOut => i == 0 || (2 ≤ i && i % 2 == 0)
  | _ => false

namespace Instruction

def operandView (op : Opcode) (i : Nat) (w : UInt16) : OperandView :=
  if op.takesLiteral i then
    if op.isBranch then .offset (signedWord w) else .literal w
  else if w = noEntry then .noEntry
  else .entry w

def operandViews (i : Instruction) : List OperandView :=
  i.operands.mapIdx (operandView i.opcode)

def comparisonSymbol? (i : Instruction) : Option String :=
  if i.opcode.usesComparison then
    some (((Comparison.ofFlags? i.flags).map Comparison.symbol).getD "?")
  else
    none

def branchTarget? (i : Instruction) (pc : Nat) : Option Int :=
  if i.opcode.isBranch then i.operands.head?.map (pc + signedWord ·) else none

end Instruction

structure Line where
  pc : Nat
  words : List UInt16
  content : Except DecodeError Instruction

namespace Line

def instructionText (pc : Nat) (i : Instruction) : String :=
  let comparison := (i.comparisonSymbol?.map (" " ++ ·)).getD ""
  let operands := i.operandViews.map OperandView.text
  let shown := if operands.isEmpty then "" else " " ++ ", ".intercalate operands
  let target := ((i.branchTarget? pc).map (" ; -> " ++ Text.zeroPaddedInt 4 ·)).getD ""
  i.opcode.name ++ comparison ++ shown ++ target ++ (if i.short then " ; short" else "")

def text (l : Line) : String :=
  Text.zeroPadded 4 l.pc ++ ": " ++
    match l.content with
    | .ok i => instructionText l.pc i
    | .error cause =>
      ".word 0x" ++ Text.hex 4 ((l.words.head?.map (·.toNat)).getD 0) ++ " ; "
        ++ cause.message l.pc

def toJson (l : Line) : Json :=
  let place := [("pc", Json.nat l.pc), ("words", Json.list (Json.nat ·.toNat) l.words)]
  match l.content with
  | .ok i =>
    .object <| place
      ++ [("opcode", .string i.opcode.name), ("short", .bool i.short)]
      ++ (i.comparisonSymbol?.map fun s => ("mode", Json.string s)).toList
      ++ [("operands", .list OperandView.toJson i.operandViews)]
      ++ ((i.branchTarget? l.pc).map fun t => ("target", Json.int t)).toList
  | .error cause =>
    .object <| place
      ++ [("opcode", .null), ("short", .bool false), ("operands", .array []),
          ("error", .string (cause.message l.pc))]

end Line

def listingFrom (code : Array UInt16) (pc : Nat) : List Line :=
  if pc < code.size then
    match h : Instruction.decode code pc with
    | .ok i =>
      ⟨pc, (code.extract pc (pc + i.length)).toList, .ok i⟩ :: listingFrom code (pc + i.length)
    | .error cause =>
      ⟨pc, (code.extract pc (pc + 1)).toList, .error cause⟩ :: listingFrom code (pc + 1)
  else
    []
termination_by code.size - pc
decreasing_by
  · have := Instruction.length_pos_of_decode h
    omega
  · omega

def listing (code : Array UInt16) : List Line := listingFrom code 0

end BrickMachine
