import BrickMachine.Memory.Basic

/-!
# Robots

A program acts on the world through a robot: it makes system calls and sets and reads properties
of channels. A system call works on the program's memory, so it answers the robot and the memory
afterwards, whether it succeeds or not; the channels have no part in memory. Reading a property may
change the robot too, so a read answers the value and the robot afterwards.
-/

namespace BrickMachine

/-- What a program can do to the outside world. -/
class Robot (R : Type) where
  /-- Makes a system call with the parameters in the cluster at entry `base`. -/
  syscall (id : UInt16) (base : Nat) (r : R) (m : Memory) : Except MemoryError Unit × R × Memory
  setInput (r : R) (channel : Int32) (property : UInt16) (value : Int32) : R
  input (r : R) (channel : Int32) (property : UInt16) : Int32 × R
  setOutput (r : R) (channel : Int32) (property : UInt16) (value : Int32) : R
  output (r : R) (channel : Int32) (property : UInt16) : Int32 × R

end BrickMachine
