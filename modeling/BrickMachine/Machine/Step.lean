import BrickMachine.Machine.Execute

/-!
# One step of the machine

A step executes the next instruction, if there is one to execute. A halted machine stays as it
is, a finished one has nothing to run, and while a WAIT is in effect nothing runs; none of these
changes anything. Otherwise the program counter moves behind the instruction before it is carried
out, and an error that is fatal halts the machine.
-/

namespace BrickMachine

namespace Machine

inductive StepOutcome where
  | executed
  | finished
  | waiting (resumeAt : UInt32)
  | halted
  deriving DecidableEq, Repr

variable {R : Type} [Robot R]

def executeInstruction (pc : Nat) (i : Instruction) : Exec R Unit :=
  match i.operation? with
  | some op => execute pc op
  | none => throw (.undecodable pc (.malformed .tooFewOperands))

/-- The machine after an instruction, halted if the result is a fatal error. -/
def conclude (result : Except Error Unit) (m : Machine R) :
    Except Error StepOutcome × Machine R :=
  match result with
  | .ok () => (.ok .executed, m)
  | .error e => (.error e, if e.isFatal then { m with halted := true } else m)

/-- One step: what it did, and the machine afterwards. -/
def step (m : Machine R) : Except Error StepOutcome × Machine R :=
  if m.halted then (.ok .halted, m)
  else if m.isFinished then (.ok .finished, m)
  else if m.isWaiting then (.ok (.waiting m.control.resumeAt), m)
  else
    let pc := m.control.pc
    match Instruction.decode m.image.code pc with
    | .error cause => conclude (.error (.undecodable pc cause)) m
    | .ok i =>
      let (result, m') := (executeInstruction pc i).run
        { m with control := { m.control with pc := pc + i.length } }
      conclude result m'

end Machine

end BrickMachine
