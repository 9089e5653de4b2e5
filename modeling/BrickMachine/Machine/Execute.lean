import BrickMachine.Machine.Arithmetic
import BrickMachine.Machine.Basic
import BrickMachine.Memory.Elements

/-!
# Executing an operation

`execute pc op` carries out an operation of the instruction at `pc`, on a machine whose program
counter stands behind that instruction. It reads all its operands before it changes anything,
with three exceptions: a return takes its address off the call stack even if the caller's slot
cannot be read, the settings of an output channel leave one by one, and an array whose elements
cannot be written has been resized before.
-/

namespace BrickMachine

/-- A part of an instruction: it may fail, and works on the machine. -/
abbrev Exec (R : Type) (α : Type) := ExceptT Machine.Error (StateM (Machine R)) α

namespace Exec

variable {R : Type} {α : Type}

def ask (f : Memory → Except MemoryError α) : Exec R α := fun m =>
  ((f m.memory).mapError .memory, m)

def change (c : Change α) : Exec R α := fun m =>
  let (result, memory) := c.run m.memory
  (result.mapError .memory, { m with memory })

def act (f : Machine R → Machine R) : Exec R Unit := fun m => (.ok (), f m)

def look (f : Machine R → α) : Exec R α := fun m => (.ok (f m), m)

/-- What the robot answers to a question, which may change it. -/
def consult (f : R → α × R) : Exec R α := fun m =>
  let (a, robot) := f m.robot
  (.ok a, { m with robot })

def scalar (e : UInt16) : Exec R Int32 := ask (·.scalar e.toNat)

def setScalar (e : UInt16) (v : Int32) : Exec R Unit :=
  change (Change.update (·.setScalar e.toNat v))

/-- An index or count, read as an unsigned number; none if the operand names no entry. -/
def index? (e : UInt16) : Exec R (Option Nat) :=
  if e = noEntry then pure none else do
    let v ← scalar e
    pure (some v.toUInt32.toNat)

/-- An index or count that is zero if the operand names no entry. -/
def index (e : UInt16) : Exec R Nat := do
  let i ← index? e
  pure (i.getD 0)

def comparison (pc : Nat) (flags : UInt8) : Exec R Comparison :=
  match Comparison.ofFlags? flags with
  | some c => pure c
  | none => throw (.unknownComparison pc flags)

def branch (pc : Nat) (offset : Int) : Exec R Unit :=
  let target := pc + offset
  if target < 0 then
    throw (.branchTarget pc target)
  else
    act fun m => { m with control := { m.control with pc := target.toNat } }

/-! ### Arrays and moves -/

def arrayBuild (dst : UInt16) (sources : List UInt16) : Exec R Unit := do
  let vs ← ask (·.scalars (sources.map (·.toNat)))
  change (Memory.assign dst.toNat vs)

def arrayInit (dst value count : UInt16) : Exec R Unit := do
  let v ← scalar value
  let n ← index count
  change (Change.update (·.setArrayLength dst.toNat n))
  change (Memory.storeElements dst.toNat 0 (List.replicate n v))

/-- Makes a part of one array the contents of another. The part starts at most at the end of the
source, and ends there if no length is given. -/
def arraySubset (dst src position length : UInt16) : Exec R Unit := do
  let available ← ask (·.arrayLength src.toNat)
  let start ← index position
  let wanted ← index? length
  let start := min start available
  let count := (wanted.map (min · (available - start))).getD (available - start)
  let vs ← ask (·.elements src.toNat start count)
  change (Memory.assign dst.toNat vs)

/-- Copies an array and overwrites elements of the copy from `position` on, as far as it
reaches. -/
def replace (dst src position new : UInt16) : Exec R Unit := do
  let start ← index position
  let vs ← ask (·.values new.toNat)
  if dst ≠ src then
    change (Memory.copyArray dst.toNat src.toNat)
  let n ← ask (·.arrayLength dst.toNat)
  change (Memory.storeElements dst.toNat start (vs.take (n - start)))

/-- Copies an array to an array or a number to a number. A move between anything else is
noted and not carried out. -/
def move (pc : Nat) (dst src : UInt16) : Exec R Unit := do
  let dstType ← ask (·.slotType dst.toNat)
  let srcType ← ask (·.slotType src.toNat)
  if dstType = .array ∧ srcType = .array then
    change (Memory.copyArray dst.toNat src.toNat)
  else if dstType.isFlat ∧ srcType.isFlat then do
    let v ← scalar src
    setScalar dst v
  else
    act (·.note ⟨pc, .compositeMove dstType srcType⟩)

/-! ### Calls -/

/-- Goes on at the start of a clump. The number of the calling clump goes to a slot and the
place behind the call to the stack. -/
def call (pc : Nat) (clump slot : UInt16) : Exec R Unit := do
  let target ← look (·.image.clumps[clump.toNat]?)
  match target with
  | none => throw (.unknownClump pc clump)
  | some c => do
    let caller ← look (·.control.clump)
    setScalar slot (Int32.ofNat caller)
    act fun m =>
      { m with
        control :=
          { m.control with
            pc := c.codeStart.toNat
            clump := clump.toNat
            callStack := m.control.pc :: m.control.callStack } }

/-- Goes on behind the latest call. The number of the calling clump is read back from a slot. -/
def ret (pc : Nat) (slot : UInt16) : Exec R Unit := do
  let stack ← look (·.control.callStack)
  match stack with
  | [] => throw (.returnWithoutCall pc)
  | address :: rest => do
    act fun m => { m with control := { m.control with pc := address, callStack := rest } }
    let caller ← scalar slot
    act fun m => { m with control := { m.control with clump := caller.toUInt32.toNat } }

/-! ### The robot and the clock -/

variable [Robot R]

def syscall (id cluster : UInt16) : Exec R Unit := fun m =>
  let (result, robot, memory) := Robot.syscall id cluster.toNat m.robot m.memory
  (result.mapError .memory, { m with robot, memory })

def setChannel (channel : Int32) : List (UInt16 × UInt16) → Exec R Unit
  | [] => pure ()
  | (property, src) :: rest => do
    let v ← scalar src
    act fun m => { m with robot := Robot.setOutput m.robot channel property v }
    setChannel channel rest

def setChannels (settings : List (UInt16 × UInt16)) : List Int32 → Exec R Unit
  | [] => pure ()
  | channel :: channels => do
    setChannel channel settings
    setChannels settings channels

def wait (duration : UInt16) : Exec R Unit := do
  let v ← scalar duration
  act fun m =>
    { m with control := { m.control with resumeAt := m.clock.deadline v.toInt.toNat } }

end Exec

def execute {R : Type} [Robot R] (pc : Nat) : Operation → Exec R Unit
  | .binary op dst lhs rhs => do
    let a ← Exec.scalar lhs
    let b ← Exec.scalar rhs
    Exec.setScalar dst (op.apply a b)
  | .unary op dst src => do
    let a ← Exec.scalar src
    Exec.setScalar dst (op.apply a)
  | .compare flags dst lhs rhs => do
    let c ← Exec.comparison pc flags
    let a ← Exec.scalar lhs
    let b ← Exec.scalar rhs
    Exec.setScalar dst (ofBool (c.holds a b))
  | .test flags dst src => do
    let c ← Exec.comparison pc flags
    let a ← Exec.scalar src
    Exec.setScalar dst (ofBool (c.holds a 0))
  | .index dst array position => do
    let i ← Exec.index position
    let v ← Exec.ask (·.element array.toNat i)
    Exec.setScalar dst v
  | .replace dst src position new => Exec.replace dst src position new
  | .arraySize dst array => do
    let n ← Exec.ask (·.arrayLength array.toNat)
    Exec.setScalar dst (Int32.ofNat n)
  | .arrayBuild dst sources => Exec.arrayBuild dst sources
  | .arraySubset dst src position length => Exec.arraySubset dst src position length
  | .arrayInit dst value count => Exec.arrayInit dst value count
  | .move dst src => Exec.move pc dst src
  | .set dst literal => Exec.setScalar dst (Int32.ofNat literal.toNat)
  | .unsupported op => Exec.act (·.note ⟨pc, .unsupportedOpcode op⟩)
  | .jump offset => Exec.branch pc offset
  | .branchCompare flags offset lhs rhs => do
    let c ← Exec.comparison pc flags
    let a ← Exec.scalar lhs
    let b ← Exec.scalar rhs
    if c.holds a b then Exec.branch pc offset else pure ()
  | .branchTest flags offset src => do
    let c ← Exec.comparison pc flags
    let a ← Exec.scalar src
    if c.holds a 0 then Exec.branch pc offset else pure ()
  | .stop => throw (.stopped pc)
  | .idle => pure ()
  | .call clump slot => Exec.call pc clump slot
  | .ret slot => Exec.ret pc slot
  | .syscall id cluster => Exec.syscall id cluster
  | .setInput src channel property => do
    let v ← Exec.scalar src
    let p ← Exec.scalar channel
    Exec.act fun m => { m with robot := Robot.setInput m.robot p property v }
  | .setOutput channel settings => do
    let channels ← Exec.ask (·.values channel.toNat)
    Exec.setChannels settings channels
  | .getInput dst channel property => do
    let p ← Exec.scalar channel
    let v ← Exec.consult (Robot.input · p property)
    Exec.setScalar dst v
  | .getOutput dst channel property => do
    let p ← Exec.scalar channel
    let v ← Exec.consult (Robot.output · p property)
    Exec.setScalar dst v
  | .wait duration => Exec.wait duration
  | .getTick dst => do
    let tick ← Exec.look (·.clock.tick)
    Exec.setScalar dst tick.toInt32

end BrickMachine
