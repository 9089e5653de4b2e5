import BrickMachine.Memory.Basic
import BrickMachine.Syscall.Name
import BrickMachine.Syscall.SoundName
import BrickMachine.Text.Utf8

/-!
# System call requests

A system call has its parameters in a cluster of the dataspace: the entries after the cluster's
own, which are the call's fields. Field 1 receives the status. A `Request` is a call with its
parameters read from memory; reading fails where a field cannot be read as what it should be.
-/

namespace BrickMachine

namespace Syscall

def statusField : Nat := 1

/-- The text in a byte array: the bytes before the first zero. -/
def text (data : Buffer) : String :=
  Utf8.decodeLossy (data.toList.takeWhile (· != 0))

/-- The volume that a program gives in quarters. -/
def volume (quarters : Int32) : Float32 := Single.ofInt quarters.toInt * 0.25

inductive Request where
  /-- Plays a file, unless its name is not acceptable. -/
  | playFile (file : Option String) (looping : Bool) (volume : Float32)
  | playTone (frequency duration : Int32) (looping : Bool) (volume : Float32)
  | lowSpeedWrite (channel : Int32) (bytes : List UInt8) (bytesExpected : Int32)
  | lowSpeedRead (channel : Int32) (length : Int32)
  | lowSpeedCheckStatus (channel : Int32)
  | unsupported (id : UInt16)
  deriving DecidableEq

def Request.read (m : Memory) (id : UInt16) (base : Nat) : Except MemoryError Request :=
  let scalar (field : Nat) := m.scalar (base + field)
  let data (field : Nat) := m.arrayData (base + field)
  if id = Syscall.soundPlayFile then do
    let name ← data 2
    let looping ← scalar 4
    let quarters ← scalar 5
    .ok (.playFile ((SoundName.ofBytes? name.toList).map String.ofList) (looping != 0)
      (Syscall.volume quarters))
  else if id = Syscall.soundPlayTone then do
    let frequency ← scalar 2
    let duration ← scalar 3
    let looping ← scalar 4
    let quarters ← scalar 5
    .ok (.playTone frequency duration (looping != 0) (Syscall.volume quarters))
  else if id = Syscall.lowSpeedWrite then do
    let channel ← scalar 2
    let bytes ← data 3
    let bytesExpected ← scalar 5
    .ok (.lowSpeedWrite channel bytes.toList bytesExpected)
  else if id = Syscall.lowSpeedRead then do
    let channel ← scalar 2
    let length ← scalar 5
    .ok (.lowSpeedRead channel length)
  else if id = Syscall.lowSpeedCheckStatus then do
    let channel ← scalar 2
    .ok (.lowSpeedCheckStatus channel)
  else
    .ok (.unsupported id)

end Syscall

end BrickMachine
