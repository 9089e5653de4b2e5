import BrickMachine.CommandLine.Arguments
import BrickMachine.Report.Image
import BrickMachine.Run.File

/-!
# Answering a command

A command either prints its report and exits with 0, or fails with a message and exits with 1.
Arguments that form no command exit with 2.
-/

namespace BrickMachine

namespace CommandLine

structure Response where
  exitCode : Nat
  output : String
  error : Option String
  deriving DecidableEq, Repr

def shown (format : Format) (text : String) (structured : Json) : String :=
  match format with
  | .human => text
  | .json => structured.pretty ++ "\n"

namespace Command

def output (files : Files) : Command → Except RunError String
  | run file settingsFile switches format => do
    let settings ←
      match settingsFile with
      | some path => (Settings.load files path).mapError .settings
      | none => .ok {}
    let report ← runFile files file (settings.switched switches)
    .ok (shown format report.text report.toJson)
  | dump file format => do
    let image ← (Image.load files file).mapError .load
    let memory ← (Memory.load image).mapError (.load ∘ .corrupt)
    let report := ImageReport.of image memory
    .ok (shown format report.text report.toJson)

end Command

def respond (files : Files) (args : List String) : Response :=
  match Command.parse args with
  | .error e => { exitCode := 2, output := "", error := some e.message }
  | .ok command =>
    match command.output files with
    | .ok output => { exitCode := 0, output, error := none }
    | .error e => { exitCode := 1, output := "", error := some e.message }

end CommandLine

end BrickMachine
