import BrickMachine.Machine.Step

/-!
# Running a machine

A runner steps its machine until something ends the run: the program finishes, an error halts
it, a limit is reached, or it waits for a clock that will not move. A run is made of *turns*, and
a turn makes at most one step of the machine. It ends the run, or executes one instruction, or
waits until the machine can go on.

Executing takes no time; time passes while a run sleeps through a wait. A driven clock is moved
to the end of the wait instead. A fixed clock never gets there, so a run that sleeps on one ends
when its time is over, or at once if it has all the time there is.

The error that ended a run is kept until the next run begins, and as long as the machine stays
halted.
-/

namespace BrickMachine

namespace Run

inductive Outcome where
  | finished
  | stopped (pc : Nat)
  /-- A fatal error halted the machine. -/
  | halted (error : Option Machine.Error)
  /-- A memory error ended the run. -/
  | faulted (error : MemoryError)
  | stepLimit
  | timeBudget
  | waiting (resumeAt : UInt32)
  | paused
  deriving DecidableEq, Repr

namespace Outcome

/-- Whether the run ended in an error other than STOP. -/
def isFailure : Outcome → Bool
  | halted _ | faulted _ => true
  | _ => false

def haltText : Option Machine.Error → String
  | some e => e.message
  | none => "halted"

end Outcome

structure Summary where
  /-- The instructions executed, those that failed included. -/
  steps : Nat
  outcome : Outcome
  diagnostics : Array Diagnostic
  deriving DecidableEq, Repr

structure Limits where
  /-- The most instructions to execute. -/
  steps : Option Nat
  /-- The most milliseconds to take. -/
  time : Option Nat
  /-- Whether the run sleeps through waits. -/
  sleeps : Bool
  deriving DecidableEq, Repr

structure Progress where
  steps : Nat := 0
  slept : Nat := 0
  deriving DecidableEq, Repr

def Limits.stepsReached (l : Limits) (p : Progress) : Bool :=
  l.steps.any (· ≤ p.steps)

def Limits.timeReached (l : Limits) (p : Progress) : Bool :=
  l.time.any (· ≤ p.slept)

end Run

/-- A machine with the policy and the history of its runs. -/
structure Runner (R : Type) where
  machine : Machine R
  paused : Bool := false
  haltOnFault : Bool := false
  maxSteps : Option Nat := none
  timeBudget : Option Nat := none
  totalSteps : Nat := 0
  /-- The error that ended the latest run. -/
  error : Option Machine.Error := none

namespace Runner

open Run

variable {R : Type}

/-- The error worth reporting as a failed run: a fatal one other than STOP, or a memory error if
those end runs. -/
def failure (r : Runner R) : Option Machine.Error :=
  r.error.filter fun
    | .stopped _ => false
    | .memory _ => r.haltOnFault
    | _ => true

/-- The runner at the start of its program again, neither paused nor with a history. -/
def reload (r : Runner R) : Except Corruption (Runner R) := do
  let machine ← r.machine.reset
  .ok { r with machine, paused := false, totalSteps := 0, error := none }

def haltedOutcome (r : Runner R) : Outcome :=
  match r.error with
  | some (.stopped pc) => .stopped pc
  | error => .halted error

/-- Lets time pass until the machine can go on at a tick. The first component is the outcome if
that ends the run. -/
def await (l : Limits) (p : Progress) (r : Runner R) (tick : UInt32) :
    Option Outcome × Progress × Runner R :=
  match r.machine.clock.advanceTo? tick with
  | some clock => (none, p, { r with machine := { r.machine with clock } })
  | none =>
    if !l.sleeps then (some (.waiting tick), p, r)
    else
      match r.machine.clock.motion with
      | .running =>
        let wait := tick.toNat - r.machine.clock.tick.toNat
        let nap := (l.time.map fun budget => min wait (budget - p.slept)).getD wait
        let clock := { r.machine.clock with tick := r.machine.clock.deadline nap }
        (none, { p with slept := p.slept + nap }, { r with machine := { r.machine with clock } })
      | _ =>
        match l.time with
        | some budget => (some .timeBudget, { p with slept := max p.slept budget }, r)
        | none => (some (.waiting tick), p, r)

variable [Robot R]

def advance (l : Limits) (p : Progress) (r : Runner R) : Option Outcome × Progress × Runner R :=
  let (result, machine) := r.machine.step
  let r := { r with machine }
  let counted := { p with steps := p.steps + 1 }
  match result with
  | .ok .executed => (none, counted, r)
  | .ok .finished => (some .finished, p, r)
  | .ok .halted => (some r.haltedOutcome, p, r)
  | .ok (.waiting tick) => r.await l p tick
  | .error (.memory e) =>
    if r.haltOnFault then
      (some (.faulted e), counted, { r with error := some (.memory e) })
    else
      (none, counted, r)
  | .error e =>
    let r := { r with error := some e }
    (some r.haltedOutcome, counted, r)

/-- One turn of a run: it ends at a limit, or makes a step. -/
def turn (l : Limits) (p : Progress) (r : Runner R) : Option Outcome × Progress × Runner R :=
  if r.paused then (some .paused, p, r)
  else if l.stepsReached p then (some .stepLimit, p, r)
  else if l.timeReached p then (some .timeBudget, p, r)
  else r.advance l p

/-- At most a number of turns. The outcome is none if the run has not ended by then. -/
def turns (l : Limits) : Nat → Progress → Runner R → Option Outcome × Progress × Runner R
  | 0, p, r => (none, p, r)
  | n + 1, p, r =>
    match r.turn l p with
    | (some outcome, p, r) => (some outcome, p, r)
    | (none, p, r) => turns l n p r

/-- More turns than a run without a step limit can take in a lifetime. -/
def endlessTurns : Nat := 0x4000000000000000

/-- The turns that a run within its limits can take: before each instruction the machine may
have to wait once, and one more turn ends the run. -/
def turnLimit (l : Limits) : Nat :=
  (l.steps.map fun n => 2 * n + 1).getD endlessTurns

def run (l : Limits) (r : Runner R) : Summary × Runner R :=
  let r := if r.machine.halted then r else { r with error := none }
  let (outcome, p, r) := turns l (turnLimit l) {} r
  ({ steps := p.steps
     outcome := outcome.getD .stepLimit
     diagnostics := r.machine.diagnostics },
   { r with totalSteps := r.totalSteps + p.steps })

/-- Executes at most `n` instructions, without sleeping. -/
def runSteps (n : Nat) (r : Runner R) : Summary × Runner R :=
  r.run { steps := some n, time := none, sleeps := false }

def runFor (ms : Nat) (r : Runner R) : Summary × Runner R :=
  r.run { steps := r.maxSteps, time := some ms, sleeps := true }

def runToCompletion (r : Runner R) : Summary × Runner R :=
  r.run { steps := r.maxSteps, time := r.timeBudget, sleeps := true }

end Runner

end BrickMachine
