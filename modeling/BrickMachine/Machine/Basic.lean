import BrickMachine.Code.Operation
import BrickMachine.Machine.Clock
import BrickMachine.Memory.Load
import BrickMachine.Robot.Basic

/-!
# The machine

A machine runs one program: it has the program's image and memory, a place in the code, a robot
and a clock. It is either running or halted, and once halted it stays so until it is reset.

What goes wrong while an instruction executes is a `Machine.Error`. A memory error leaves the
machine running; every other error halts it. Some instructions are accepted without being carried
out, and the machine keeps a `Diagnostic` for each such place in the code.
-/

namespace BrickMachine

inductive Machine.Error where
  | stopped (pc : Nat)
  | undecodable (pc : Nat) (cause : DecodeError)
  | unknownComparison (pc : Nat) (flags : UInt8)
  | branchTarget (pc : Nat) (target : Int)
  | unknownClump (pc : Nat) (clump : UInt16)
  | returnWithoutCall (pc : Nat)
  | memory (e : MemoryError)
  deriving DecidableEq, Repr

namespace Machine.Error

def isFatal : Error → Bool
  | memory _ => false
  | _ => true

def message : Error → String
  | stopped pc => s!"program stopped at pc {pc}"
  | undecodable pc cause => cause.message pc
  | unknownComparison pc flags => s!"invalid compare mode {flags} at pc {pc}"
  | branchTarget pc target => s!"branch at pc {pc} targets {target}"
  | unknownClump pc clump => s!"call to unknown clump {clump} at pc {pc}"
  | returnWithoutCall pc => s!"return without call at pc {pc}"
  | memory e => e.message

end Machine.Error

/-- What the machine accepted without carrying it out. -/
inductive Notice where
  | unsupportedOpcode (op : Opcode)
  | compositeMove (dst src : SlotType)
  deriving DecidableEq, Repr

def Notice.message : Notice → String
  | unsupportedOpcode op => "ignored " ++ op.name
  | compositeMove dst src => "ignored MOV from " ++ src.name ++ " to " ++ dst.name

structure Diagnostic where
  pc : Nat
  notice : Notice
  deriving DecidableEq, Repr

structure Control where
  /-- The word of the next instruction. -/
  pc : Nat := 0
  clump : Nat := 0
  /-- The return addresses of active calls, the latest first. -/
  callStack : List Nat := []
  /-- The tick before which nothing runs. -/
  resumeAt : UInt32 := 0
  deriving DecidableEq, Repr

structure Machine (R : Type) where
  image : Image
  memory : Memory
  control : Control
  halted : Bool
  robot : R
  clock : Clock
  /-- The diagnostics not taken yet, in the order in which they arose. -/
  diagnostics : Array Diagnostic
  /-- All diagnostics since the start, taken or not. -/
  seen : List Diagnostic

namespace Machine

variable {R : Type}

/-- The control of a program that starts: it begins with clump 0, or at the first word if there
is no clump. -/
def startControl (image : Image) : Control where
  pc := (image.clumps[0]?.map (·.codeStart.toNat)).getD 0

def start (image : Image) (robot : R) (clock : Clock) : Except Corruption (Machine R) := do
  let memory ← Memory.load image
  .ok
    { image, memory, robot, clock
      control := startControl image
      halted := false
      diagnostics := #[]
      seen := [] }

/-- The machine with its memory built anew and its control back at the first clump, running and
without a diagnostic. The robot and the clock stay as they are. -/
def reset (m : Machine R) : Except Corruption (Machine R) := do
  let memory ← Memory.load m.image
  .ok
    { m with
      memory
      control := startControl m.image
      halted := false
      diagnostics := #[]
      seen := [] }

def isFinished (m : Machine R) : Bool := m.image.code.size ≤ m.control.pc

def isWaiting (m : Machine R) : Bool := m.clock.tick < m.control.resumeAt

inductive Status where
  | ready | waiting | halted
  deriving DecidableEq, Repr

def status (m : Machine R) : Status :=
  if m.halted then .halted else if m.isWaiting then .waiting else .ready

def Status.name : Status → String
  | ready => "ready"
  | waiting => "waiting"
  | halted => "halted"

/-- The machine with a diagnostic noted, unless it has been noted before. -/
def note (m : Machine R) (d : Diagnostic) : Machine R :=
  if d ∈ m.seen then m
  else { m with diagnostics := m.diagnostics.push d, seen := d :: m.seen }

/-- The machine without the diagnostics that it holds. They still count as seen. -/
def withoutDiagnostics (m : Machine R) : Machine R := { m with diagnostics := #[] }

end Machine

end BrickMachine
