import BrickMachine.Image.Reader
import BrickMachine.Report.Run
import BrickMachine.Settings

/-!
# Running a program file

A program file is loaded, run on a headless robot within the limits of the settings, and
reported on. It fails if the file is no program or if the run ends in a fatal error; a STOP is no
failure, and a memory error is one only where the settings say so.
-/

namespace BrickMachine

inductive LoadError where
  | unreadable (cause : ReadError)
  | corrupt (c : Corruption)
  deriving DecidableEq, Repr

def LoadError.message : LoadError → String
  | unreadable cause => "failed to read image: " ++ cause.message
  | corrupt c => c.message

inductive RunError where
  | load (e : LoadError)
  | machine (e : Machine.Error)
  | settings (e : Settings.Error)
  deriving DecidableEq, Repr

def RunError.message : RunError → String
  | load e => e.message
  | machine e => e.message
  | settings e => e.message

def Image.load (files : Files) (path : String) : Except LoadError Image := do
  let bytes ← (files path).mapError .unreadable
  (Image.ofBytes bytes).mapError .corrupt

namespace Settings

def startClock (s : Settings) : Clock :=
  match s.clock with
  | .wall => .running
  | .simulated => .driven 0

def runner {R : Type} (s : Settings) (machine : Machine R) : Runner R where
  machine := machine
  haltOnFault := s.haltOnFault
  maxSteps := s.maxSteps
  timeBudget := s.timeBudget

end Settings

namespace RunReport

def of (file : String) (settings : Settings) (summary : Run.Summary)
    (r : Runner HeadlessRobot) : RunReport where
  file := file
  summary := summary
  status := r.machine.status
  totalSteps := r.totalSteps
  events := r.machine.robot.events
  memory := if settings.dumpMemory then some r.machine.memory.snapshot else none

end RunReport

def runImage (name : String) (image : Image) (settings : Settings) :
    Except RunError RunReport := do
  let robot := HeadlessRobot.ofSensors settings.sensors
  let machine ← (Machine.start image robot settings.startClock).mapError (.load ∘ .corrupt)
  let (summary, r) := (settings.runner machine).runToCompletion
  match r.failure with
  | some e => .error (.machine e)
  | none => .ok (RunReport.of name settings summary r)

def runFile (files : Files) (path : String) (settings : Settings) :
    Except RunError RunReport := do
  let image ← (Image.load files path).mapError .load
  runImage path image settings

end BrickMachine
