import BrickMachine.Memory.Snapshot
import BrickMachine.Robot.Headless
import BrickMachine.Run.Runner
import BrickMachine.Text.Json

/-!
# The report on a run

After a run the report says which file ran, how the run ended, what the machine left out and
what the program asked of the robot, and on request what the memory holds. It has a text form
for reading, in which every event is a line of JSON, and a structured form.
-/

namespace BrickMachine

def Diagnostic.toJson (d : Diagnostic) : Json :=
  .object <| ("pc", .nat d.pc) ::
    match d.notice with
    | .unsupportedOpcode op =>
      [("kind", .string "unsupported_opcode"), ("opcode", .string op.name)]
    | .compositeMove dst src =>
      [("kind", .string "composite_move"), ("dst", .string dst.keyword),
       ("src", .string src.keyword)]

/-- An event in structured output; `volume` writes a volume. -/
def Event.toJsonWith (volume : Float32 → Json) : Event → Json
  | playFile file looping v =>
    .object
      [("event", .string "play_file"), ("filename", .string file), ("looping", .bool looping),
       ("volume", volume v)]
  | playTone frequency duration looping v =>
    .object
      [("event", .string "play_tone"), ("frequency", .int frequency.toInt),
       ("duration", .int duration.toInt), ("looping", .bool looping), ("volume", volume v)]
  | lowSpeedWrite channel bytes =>
    .object
      [("event", .string "low_speed_write"), ("port", .int channel.toInt),
       ("bytes", .list (Json.nat ·.toNat) bytes)]
  | lowSpeedRead channel bytes =>
    .object
      [("event", .string "low_speed_read"), ("port", .int channel.toInt),
       ("bytes", .list (Json.nat ·.toNat) bytes)]
  | ignoredSyscall id =>
    .object
      [("event", .string "ignored_syscall"), ("id", .nat id.toNat),
       ("name", .string (Syscall.name id))]
  | setInput channel property value =>
    .object
      [("event", .string "set_input"), ("port", .int channel.toInt),
       ("property", .string (Input.propertyName property)), ("value", .int value.toInt)]
  | setOutput channel property value =>
    .object
      [("event", .string "set_output"), ("port", .int channel.toInt),
       ("property", .string (Output.propertyName property)), ("value", .int value.toInt)]

def Event.toJson : Event → Json := Event.toJsonWith Json.single

def Snapshot.toJson (s : Snapshot) : Json :=
  .object
    [("scalars", .list (fun v =>
        .object
          [("entry", .nat v.entry), ("slot_type", .string v.slotType.keyword),
           ("value", .int v.value.toInt)]) s.scalars),
     ("arrays", .list (fun v =>
        .object
          [("entry", .nat v.entry), ("dope_vector", .nat v.block),
           ("element_type", .optional (fun t => .string t.keyword) v.elementType),
           ("elements", .list (Json.int ·.toInt) v.elements)]) s.arrays)]

namespace Run

namespace Outcome

def text : Outcome → String
  | finished => "finished"
  | stopped pc => s!"stopped at pc {pc}"
  | halted error => "halted: " ++ haltText error
  | faulted error => "faulted: " ++ error.message
  | stepLimit => "step limit reached"
  | timeBudget => "time budget exhausted"
  | waiting resumeAt => s!"waiting until tick {resumeAt}"
  | paused => "paused"

def jsonFields : Outcome → List (String × Json)
  | finished => [("outcome", .string "finished")]
  | stopped pc => [("outcome", .string "stopped"), ("pc", .nat pc)]
  | halted error => [("outcome", .string "halted"), ("error", .string (haltText error))]
  | faulted error => [("outcome", .string "faulted"), ("error", .string error.message)]
  | stepLimit => [("outcome", .string "step_limit")]
  | timeBudget => [("outcome", .string "time_budget")]
  | waiting resumeAt => [("outcome", .string "waiting"), ("until", .nat resumeAt.toNat)]
  | paused => [("outcome", .string "paused")]

end Outcome

def Summary.jsonFields (s : Summary) : List (String × Json) :=
  [("steps", .nat s.steps)] ++ s.outcome.jsonFields
    ++ [("diagnostics", .list Diagnostic.toJson s.diagnostics.toList)]

end Run

structure RunReport where
  file : String
  summary : Run.Summary
  status : Machine.Status
  totalSteps : Nat
  events : Array Event
  memory : Option Snapshot

namespace RunReport

def textLines (r : RunReport) : List String :=
  let diagnostics :=
    if r.summary.diagnostics.isEmpty then ["diagnostics: none"]
    else "diagnostics:" ::
      r.summary.diagnostics.toList.map fun d =>
        "  pc " ++ toString d.pc ++ ": " ++ d.notice.message
  ["file: " ++ r.file, "outcome: " ++ r.summary.outcome.text,
   "steps: " ++ toString r.totalSteps]
    ++ diagnostics
    ++ ["events: " ++ toString r.events.size]
    ++ r.events.toList.map fun e => "  " ++ e.toJson.compact

def text (r : RunReport) : String :=
  String.join (r.textLines.map (· ++ "\n"))

def toJsonWith (event : Event → Json) (r : RunReport) : Json :=
  .object <|
    [("file", .string r.file)] ++ r.summary.jsonFields
    ++ [("status", .string r.status.name), ("total_steps", .nat r.totalSteps),
        ("events", .list event r.events.toList)]
    ++ (r.memory.map fun s => ("memory", s.toJson)).toList

def toJson : RunReport → Json := toJsonWith Event.toJson

end RunReport

end BrickMachine
