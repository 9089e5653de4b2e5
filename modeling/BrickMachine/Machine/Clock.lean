/-!
# Clocks

A program reads time in ticks of a millisecond, 32 bits wide. A clock differs from another in
how it moves: a *driven* clock moves to whatever later tick a run waits for, a *fixed* one never
moves while a program runs, and a *running* one moves as time passes. Any clock can be put to
another tick between runs.
-/

namespace BrickMachine

inductive ClockMotion where
  | driven | fixed | running
  deriving DecidableEq, Repr

structure Clock where
  tick : UInt32
  motion : ClockMotion
  deriving DecidableEq, Repr

namespace Clock

def driven (tick : UInt32) : Clock := ⟨tick, .driven⟩

def fixed (tick : UInt32) : Clock := ⟨tick, .fixed⟩

def running : Clock := ⟨0, .running⟩

def put (c : Clock) (tick : UInt32) : Clock := { c with tick }

/-- The clock after a number of milliseconds, if it can move; the first tick follows the last. -/
def after (c : Clock) (ms : UInt32) : Clock :=
  match c.motion with
  | .fixed => c
  | .driven | .running => c.put (c.tick + ms)

/-- The clock moved forward to a tick, if it can be driven. It never moves back. -/
def advanceTo? (c : Clock) (tick : UInt32) : Option Clock :=
  match c.motion with
  | .driven => some { c with tick := max c.tick tick }
  | .fixed | .running => none

/-- The tick a number of milliseconds from now, or the last tick there is. -/
def deadline (c : Clock) (ms : Nat) : UInt32 :=
  UInt32.ofNat (min (c.tick.toNat + ms) 0xFFFFFFFF)

end Clock

end BrickMachine
