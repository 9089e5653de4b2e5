import BrickMachine.Files
import BrickMachine.Single
import BrickMachine.Toml.Grammar

/-!
# Settings

The settings say how a program runs: on which clock, within which limits, with which sensor
values, and what its report holds. They come from a TOML file, in which every name may be absent
and other names mean nothing, and from switches that only ever set a limit or turn something on.
-/

namespace BrickMachine

inductive ClockMode where
  /-- Time passes. -/
  | wall
  /-- Waits are skipped. -/
  | simulated
  deriving DecidableEq, Repr

namespace ClockMode

def name : ClockMode → String
  | wall => "wall"
  | simulated => "simulated"

def ofName? (s : String) : Option ClockMode :=
  if s = "wall" then some wall else if s = "simulated" then some simulated else none

end ClockMode

structure Settings where
  clock : ClockMode := .wall
  /-- The most instructions to execute. -/
  maxSteps : Option Nat := none
  /-- The most milliseconds to take. -/
  timeBudget : Option Nat := none
  /-- Whether memory errors end a run. -/
  haltOnFault : Bool := false
  trace : Bool := false
  /-- Whether the report holds what is in memory. -/
  dumpMemory : Bool := false
  /-- The values of the four sensors. -/
  sensors : List Float32 := [0, 0, 0, 0]
  deriving DecidableEq

namespace Settings

/-- Whether the settings are those of an empty file. A sensor at negative zero counts as one at
zero. -/
def isDefault (s : Settings) : Bool :=
  s.sensors.all (· == 0) && { s with sensors := ({} : Settings).sensors } == ({} : Settings)

/-! ### Settings in TOML -/

/-- The value of a name, read by `f`; a name that is absent has a default. -/
def field {α : Type} (es : Toml.Entries) (key : String) (default : α)
    (f : Toml.Value → Option α) : Option α :=
  match es.get? key with
  | none => some default
  | some v => f v

def count? : Toml.Value → Option Nat
  | .integer n => if 0 ≤ n then some n.toNat else none
  | _ => none

def flag? : Toml.Value → Option Bool
  | .boolean b => some b
  | _ => none

def isEmpty : Toml.Value → Bool
  | .array items => items.isEmpty
  | .table _ entries => entries.isEmpty
  | .tables elements => elements.isEmpty
  | _ => false

/-- A clock mode. It is given by its name, or by a table whose only entry has that name and an
empty value. -/
def clockMode? : Toml.Value → Option ClockMode
  | .string s => ClockMode.ofName? s
  | .table _ [(key, v)] => if isEmpty v then ClockMode.ofName? key else none
  | _ => none

def sensor? : Toml.Value → Option Float32
  | .integer n => some (Single.ofInt n)
  | .float x => some x.toFloat32
  | _ => none

/-- The values of the sensors. There have to be four, and more are ignored. -/
def sensors? : Toml.Value → Option (List Float32)
  | .array items =>
    if 4 ≤ items.length then (items.take 4).mapM sensor? else none
  | _ => none

def ofEntries? (es : Toml.Entries) : Option Settings := do
  let clock ← field es "clock" .wall clockMode?
  let maxSteps ← field es "max_steps" none (fun v => (count? v).map some)
  let timeBudget ← field es "time_budget_ms" none (fun v => (count? v).map some)
  let haltOnFault ← field es "halt_on_fault" false flag?
  let trace ← field es "trace" false flag?
  let dumpMemory ← field es "dump_memory" false flag?
  let sensors ← field es "sensors" [0, 0, 0, 0] sensors?
  pure { clock, maxSteps, timeBudget, haltOnFault, trace, dumpMemory, sensors }

def parse? (text : String) : Option Settings := do
  let es ← Toml.parse? text
  ofEntries? es

inductive Error where
  | unreadable (path : String) (cause : ReadError)
  | malformed (path : String)
  deriving DecidableEq, Repr

def Error.message : Error → String
  | unreadable path cause => "failed to read " ++ path ++ ": " ++ cause.message
  | malformed path => "failed to parse " ++ path

def load (files : Files) (path : String) : Except Error Settings :=
  match files.text path with
  | .error cause => .error (.unreadable path cause)
  | .ok text =>
    match parse? text with
    | some s => .ok s
    | none => .error (.malformed path)

/-! ### Switches -/

structure Switches where
  maxSteps : Option Nat := none
  timeBudget : Option Nat := none
  simulatedClock : Bool := false
  haltOnFault : Bool := false
  trace : Bool := false
  dumpMemory : Bool := false
  deriving DecidableEq, Repr

/-- The settings after switches. A switch that is not given leaves its setting alone. -/
def switched (s : Settings) (w : Switches) : Settings :=
  { s with
    clock := if w.simulatedClock then .simulated else s.clock
    maxSteps := w.maxSteps <|> s.maxSteps
    timeBudget := w.timeBudget <|> s.timeBudget
    haltOnFault := s.haltOnFault || w.haltOnFault
    trace := s.trace || w.trace
    dumpMemory := s.dumpMemory || w.dumpMemory }

end Settings

end BrickMachine
