import BrickMachine.Bytes
import BrickMachine.Code.Assembly
import BrickMachine.Code.Comparison
import BrickMachine.Code.Instruction
import BrickMachine.Code.Listing
import BrickMachine.Code.Opcode
import BrickMachine.Code.Operation
import BrickMachine.CommandLine.Arguments
import BrickMachine.CommandLine.Respond
import BrickMachine.Files
import BrickMachine.Image.Basic
import BrickMachine.Image.Dataspace
import BrickMachine.Image.DopeVector
import BrickMachine.Image.Program
import BrickMachine.Image.Reader
import BrickMachine.Image.Writer
import BrickMachine.Machine.Arithmetic
import BrickMachine.Machine.Basic
import BrickMachine.Machine.Clock
import BrickMachine.Machine.Execute
import BrickMachine.Machine.Step
import BrickMachine.Main
import BrickMachine.Memory.Basic
import BrickMachine.Memory.Elements
import BrickMachine.Memory.Load
import BrickMachine.Memory.Snapshot
import BrickMachine.Report.Image
import BrickMachine.Report.Run
import BrickMachine.Robot.Basic
import BrickMachine.Robot.Channel
import BrickMachine.Robot.Headless
import BrickMachine.Run.File
import BrickMachine.Run.Runner
import BrickMachine.Settings
import BrickMachine.Single
import BrickMachine.Slot.Basic
import BrickMachine.Slot.Codec
import BrickMachine.Syscall.Name
import BrickMachine.Syscall.Request
import BrickMachine.Syscall.SoundName
import BrickMachine.Text.Json
import BrickMachine.Text.Number
import BrickMachine.Text.Parser
import BrickMachine.Text.Shortest
import BrickMachine.Text.Utf8
import BrickMachine.Toml.Grammar
import BrickMachine.Toml.Value
import BrickMachine.Proofs.Image.RoundTrip
import BrickMachine.Proofs.Image.CutShort
import BrickMachine.Proofs.Code.Encodings
import BrickMachine.Proofs.Code.Stream
import BrickMachine.Proofs.Code.Locality
import BrickMachine.Proofs.Code.Listing
import BrickMachine.Proofs.Code.Operands
import BrickMachine.Proofs.Code.OwnWords
import BrickMachine.Proofs.Effect
import BrickMachine.Proofs.Failure
import BrickMachine.Proofs.Memory.Access
import BrickMachine.Proofs.Memory.Contents
import BrickMachine.Proofs.Memory.Frame
import BrickMachine.Proofs.Memory.Shape
import BrickMachine.Proofs.Machine.Local
import BrickMachine.Proofs.Machine.Arrays
import BrickMachine.Proofs.Machine.Failure
import BrickMachine.Proofs.Machine.Halting
import BrickMachine.Proofs.Machine.Control
import BrickMachine.Proofs.Machine.Calls
import BrickMachine.Proofs.Machine.Waiting
import BrickMachine.Proofs.Machine.Listing
import BrickMachine.Proofs.Machine.Relocation
import BrickMachine.Proofs.Machine.Timeless
import BrickMachine.Proofs.Machine.Sensors
import BrickMachine.Proofs.Run.Turns
import BrickMachine.Proofs.Run.Chunks
import BrickMachine.Proofs.Run.StartTime
import BrickMachine.Proofs.Run.Termination
import BrickMachine.Proofs.Bounds.Basic
import BrickMachine.Proofs.Bounds.Memory
import BrickMachine.Proofs.Bounds.Elements
import BrickMachine.Proofs.Bounds.Syscall
import BrickMachine.Proofs.Bounds.Execute
import BrickMachine.Proofs.Bounds.Step
import BrickMachine.Proofs.Run.Errors
import BrickMachine.Proofs.Machine.Shape
import BrickMachine.Proofs.Machine.Edits
import BrickMachine.Proofs.Machine.Diagnostics
import BrickMachine.Proofs.Dataspace.Declaration
import BrickMachine.Proofs.Dataspace.Entries
import BrickMachine.Proofs.Slot.Rounding
import BrickMachine.Proofs.Slot.Codec
import BrickMachine.Proofs.Slot.Truncation
import BrickMachine.Proofs.Dataspace.Statics
import BrickMachine.Proofs.Dataspace.Arrays
import BrickMachine.Proofs.Dataspace.Access
import BrickMachine.Proofs.Dataspace.Loading
import BrickMachine.Proofs.Memory.Walk
import BrickMachine.Proofs.Memory.Slots
import BrickMachine.Proofs.Machine.Arithmetic
import BrickMachine.Proofs.Machine.Computing
import BrickMachine.Proofs.Machine.Outputs
import BrickMachine.Proofs.Memory.Stores
import BrickMachine.Proofs.Robot.SystemCalls
import BrickMachine.Proofs.Robot.History
import BrickMachine.Proofs.Robot.Channels
import BrickMachine.Proofs.Robot.LowSpeed
import BrickMachine.Proofs.Memory.Resizing
import BrickMachine.Proofs.Memory.Views
import BrickMachine.Proofs.Slot.RoundTrip
import BrickMachine.Proofs.Memory.TableBytes
import BrickMachine.Proofs.Run.Reload
import BrickMachine.Proofs.Robot.SoundNames
