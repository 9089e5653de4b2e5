import BrickMachine.Code.Operation

/-!
# Arithmetic

Numbers have 32 bits and a sign. Sums, differences, products and negations wrap around.
Quotients are truncated toward zero and remainders take the sign of the dividend; by zero both
are zero. The square root is the greatest number whose square is not greater, and zero for
negative numbers. The logical operations work on bits, and NOT answers whether its operand is
zero.
-/

namespace BrickMachine

def ofBool (b : Bool) : Int32 := if b then 1 else 0

/-- The root `r` improved by its `k` lowest bits, so that its square is as close below `n` as
they allow. -/
def refineRoot (n : Nat) : Nat → Nat → Nat
  | 0, r => r
  | k + 1, r =>
    let better := r + Nat.pow 2 k
    refineRoot n k (if better * better ≤ n then better else r)

/-- The greatest number of sixteen bits whose square is at most `n`. -/
def squareRoot (n : Nat) : Nat := refineRoot n 16 0

def BinaryOp.apply (op : BinaryOp) (a b : Int32) : Int32 :=
  match op with
  | add => a + b
  | sub => a - b
  | mul => a * b
  | div => if b = 0 then 0 else a / b
  | mod => if b = 0 then 0 else a % b
  | and => a &&& b
  | or => a ||| b
  | xor => a ^^^ b

def UnaryOp.apply (op : UnaryOp) (a : Int32) : Int32 :=
  match op with
  | neg => -a
  | abs => a.abs
  | sqrt => if a < 0 then 0 else Int32.ofNat (squareRoot a.toInt.toNat)
  | not => ofBool (a == 0)

end BrickMachine
