import BrickMachine.Settings

/-!
# Arguments

A command is given by its name, one file and options. An option starts with two dashes; its value
follows as `--name=value` or as the next argument, which must not look like an option itself. No
option may be given twice, and after `--` every argument is a file. Whatever breaks these rules is
a `UsageError`.
-/

namespace BrickMachine

namespace CommandLine

inductive UsageError where
  | noCommand
  | unknownCommand (name : String)
  | unknownOption (arg : String)
  | repeatedOption (name : String)
  | noValue (name : String)
  | unexpectedValue (name : String)
  | invalidValue (name value : String)
  | noFile
  | emptyFile
  | unexpectedArgument (arg : String)
  deriving DecidableEq, Repr

def UsageError.message : UsageError → String
  | noCommand => "no command is given"
  | unknownCommand name => "there is no command '" ++ name ++ "'"
  | unknownOption arg => "there is no option '" ++ arg ++ "'"
  | repeatedOption name => "the option '--" ++ name ++ "' is given twice"
  | noValue name => "the option '--" ++ name ++ "' needs a value"
  | unexpectedValue name => "the option '--" ++ name ++ "' takes no value"
  | invalidValue name value => "'" ++ value ++ "' is no value of '--" ++ name ++ "'"
  | noFile => "no file is given"
  | emptyFile => "a file name is empty"
  | unexpectedArgument arg => "the argument '" ++ arg ++ "' is one too many"

inductive Arity where
  | switch | value
  deriving DecidableEq, Repr

abbrev Options := List (String × Arity)

/-- Arguments sorted into files and options. A switch has an empty value. -/
structure Sorted where
  files : List String := []
  options : List (String × String) := []
  deriving DecidableEq, Repr

namespace Sorted

def addOption (s : Sorted) (name value : String) : Except UsageError Sorted :=
  if (s.options.lookup name).isSome then .error (.repeatedOption name)
  else .ok { s with options := s.options ++ [(name, value)] }

def addFile (s : Sorted) (name : String) : Sorted := { s with files := s.files ++ [name] }

def has (s : Sorted) (name : String) : Bool := (s.options.lookup name).isSome

end Sorted

/-- An argument that starts with a dash and is more than that. -/
def looksLikeOption (arg : String) : Bool := arg.startsWith "-" && arg != "-"

def splitValue (arg : String) : String × Option String :=
  let cs := arg.toList
  match cs.dropWhile (· != '=') with
  | [] => (arg, none)
  | _ :: value => (String.ofList (cs.takeWhile (· != '=')), some (String.ofList value))

def sort (known : Options) : List String → Sorted → Except UsageError Sorted
  | [], s => .ok s
  | arg :: rest, s =>
    if arg = "--" then .ok (rest.foldl Sorted.addFile s)
    else if !looksLikeOption arg then sort known rest (s.addFile arg)
    else
      let (dashed, given) := splitValue arg
      let name := String.ofList (dashed.toList.drop 2)
      match if dashed.startsWith "--" then known.lookup name else none with
      | none => .error (.unknownOption arg)
      | some .switch =>
        if given.isSome then .error (.unexpectedValue name)
        else do
          let s ← s.addOption name ""
          sort known rest s
      | some .value =>
        match given, rest with
        | some value, rest => do
          let s ← s.addOption name value
          sort known rest s
        | none, value :: rest =>
          if looksLikeOption value then .error (.noValue name)
          else do
            let s ← s.addOption name value
            sort known rest s
        | none, [] => .error (.noValue name)

/-! ### Values -/

/-- The count that decimal digits stand for; a plus sign may stand before them. Counts have 64
bits. -/
def count? (text : String) : Option Nat :=
  let digits := match text.toList with
    | '+' :: ds => ds
    | ds => ds
  if digits.isEmpty || !digits.all Char.isDigit then none
  else
    let n := digits.foldl (fun n c => n * 10 + (c.toNat - '0'.toNat)) 0
    if n < UInt64.size then some n else none

inductive Format where
  | human | json
  deriving DecidableEq, Repr

def Format.ofName? (s : String) : Option Format :=
  if s = "human" then some .human else if s = "json" then some .json else none

namespace Sorted

def value {α : Type} (s : Sorted) (name : String) (read : String → Option α) :
    Except UsageError (Option α) :=
  match s.options.lookup name with
  | none => .ok none
  | some text =>
    match read text with
    | some a => .ok (some a)
    | none => .error (.invalidValue name text)

def file (s : Sorted) : Except UsageError String :=
  match s.files with
  | [] => .error .noFile
  | [name] => if name.isEmpty then .error .emptyFile else .ok name
  | _ :: extra :: _ => .error (.unexpectedArgument extra)

end Sorted

/-! ### Commands -/

inductive Command where
  /-- Runs a program. -/
  | run (file : String) (settings : Option String) (switches : Settings.Switches)
    (format : Format)
  /-- Reports on an image. -/
  | dump (file : String) (format : Format)
  deriving DecidableEq, Repr

namespace Command

def runOptions : Options :=
  [("config", .value), ("max-steps", .value), ("time-budget-ms", .value),
   ("simulated-clock", .switch), ("halt-on-fault", .switch), ("trace", .switch),
   ("dump-memory", .switch), ("format", .value)]

def dumpOptions : Options := [("format", .value)]

def path? (s : String) : Option String := if s.isEmpty then none else some s

def parseRun (args : List String) : Except UsageError Command := do
  let s ← sort runOptions args {}
  let file ← s.file
  let settings ← s.value "config" path?
  let maxSteps ← s.value "max-steps" count?
  let timeBudget ← s.value "time-budget-ms" count?
  let format ← s.value "format" Format.ofName?
  let switches : Settings.Switches :=
    { maxSteps, timeBudget
      simulatedClock := s.has "simulated-clock"
      haltOnFault := s.has "halt-on-fault"
      trace := s.has "trace"
      dumpMemory := s.has "dump-memory" }
  .ok (.run file settings switches (format.getD .human))

def parseDump (args : List String) : Except UsageError Command := do
  let s ← sort dumpOptions args {}
  let file ← s.file
  let format ← s.value "format" Format.ofName?
  .ok (.dump file (format.getD .human))

def parse : List String → Except UsageError Command
  | [] => .error .noCommand
  | "run" :: args => parseRun args
  | "dump" :: args => parseDump args
  | name :: _ => .error (.unknownCommand name)

def files : Command → List String
  | run file settings _ _ => settings.toList ++ [file]
  | dump file _ => [file]

end Command

end CommandLine

end BrickMachine
