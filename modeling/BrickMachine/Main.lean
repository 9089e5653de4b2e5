import BrickMachine.CommandLine.Respond

/-!
# The program

Reads the files that a command names, answers the command, and prints.
-/

namespace BrickMachine

def directoryCode : UInt32 := 21

/-- What reading a file gives. A path that the system does not take is too long: the arguments of a
program hold no NUL. -/
def readFile (path : String) : IO (Except ReadError (List UInt8)) := do
  try
    let bytes ← IO.FS.readBinFile path
    pure (.ok bytes.toList)
  catch
    | .noFileOrDirectory .. => pure (.error .notFound)
    | .inappropriateType _ code _ =>
      pure (.error (if code = directoryCode then .isDirectory else .notDirectory))
    | .invalidArgument .. => pure (.error .nameTooLong)
    | e => pure (.error (.other (toString e)))

def readFiles : List String → IO (List (String × Except ReadError (List UInt8)))
  | [] => pure []
  | path :: rest => do
    let content ← readFile path
    let more ← readFiles rest
    pure ((path, content) :: more)

end BrickMachine

open BrickMachine in
def main (args : List String) : IO UInt32 := do
  let names :=
    match CommandLine.Command.parse args with
    | .ok command => command.files
    | .error _ => []
  let contents ← readFiles names
  let response :=
    CommandLine.respond (fun path => (contents.lookup path).getD (.error .notFound)) args
  IO.print response.output
  match response.error with
  | some message => IO.eprintln ("error: " ++ message)
  | none => pure ()
  pure (UInt32.ofNat response.exitCode)
