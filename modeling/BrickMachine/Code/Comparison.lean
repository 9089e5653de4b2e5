/-!
# Comparisons

The flags of a comparing or branching instruction select one of six comparisons by its number.
-/

namespace BrickMachine

inductive Comparison where
  | less | greater | lessEqual | greaterEqual | equal | notEqual
  deriving DecidableEq, Repr

namespace Comparison

/-- The number that selects the comparison. -/
def flags : Comparison → UInt8
  | less => 0
  | greater => 1
  | lessEqual => 2
  | greaterEqual => 3
  | equal => 4
  | notEqual => 5

def ofFlags? : UInt8 → Option Comparison
  | 0 => some less
  | 1 => some greater
  | 2 => some lessEqual
  | 3 => some greaterEqual
  | 4 => some equal
  | 5 => some notEqual
  | _ => none

@[simp] theorem ofFlags?_flags (c : Comparison) : ofFlags? c.flags = some c := by
  cases c <;> rfl

def holds (c : Comparison) (a b : Int32) : Bool :=
  match c with
  | less => a < b
  | greater => b < a
  | lessEqual => a ≤ b
  | greaterEqual => b ≤ a
  | equal => a == b
  | notEqual => a != b

def symbol : Comparison → String
  | less => "<"
  | greater => ">"
  | lessEqual => "<="
  | greaterEqual => ">="
  | equal => "=="
  | notEqual => "!="

end Comparison

end BrickMachine
