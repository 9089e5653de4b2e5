import BrickMachine.Robot.Basic
import BrickMachine.Robot.Channel
import BrickMachine.Syscall.Request

/-!
# A robot without a body

A headless robot has four sensors whose values are given from outside. It remembers how its
channels are configured and keeps a log of everything that the program asked for. Motors turn at
the speed that was set last, and nothing ever blocks them.

One of its sensors may be read over the low-speed bus, by a small protocol. A write that starts
with `02 42` takes a measurement at the channel it names: the sensor value, limited to a byte, goes
to the front of the reply buffer, and from then on one byte is ready. A read resizes the
program's array to what is ready and copies the reply into it.
-/

namespace BrickMachine

inductive Event where
  | playFile (file : String) (looping : Bool) (volume : Float32)
  | playTone (frequency duration : Int32) (looping : Bool) (volume : Float32)
  | lowSpeedWrite (channel : Int32) (bytes : List UInt8)
  | lowSpeedRead (channel : Int32) (bytes : List UInt8)
  | ignoredSyscall (id : UInt16)
  | setInput (channel : Int32) (property : UInt16) (value : Int32)
  | setOutput (channel : Int32) (property : UInt16) (value : Int32)
  deriving DecidableEq

/-- The number with the limits `low` and `high` enforced; what is no number stays none. -/
def clampFloat (low high x : Float32) : Float32 :=
  if x < low then low else if high < x then high else x

structure HeadlessRobot where
  sensors : Vector Float32 4
  inputs : ChannelTable := {}
  outputs : ChannelTable := {}
  /-- The reply buffer of the low-speed bus. -/
  reply : Vector UInt8 16 := Vector.replicate 16 0
  /-- How many bytes of the reply are ready. -/
  ready : Nat := 0
  events : Array Event := #[]
  deriving DecidableEq

namespace HeadlessRobot

/-- A robot whose sensors have the given values; missing ones are zero. -/
def ofSensors (values : List Float32) : HeadlessRobot where
  sensors := Vector.ofFn fun i => values[i.val]?.getD 0

/-- The robot with one sensor set; there are four. -/
def setSensor (r : HeadlessRobot) (channel : Nat) (value : Float32) : HeadlessRobot :=
  { r with sensors := r.sensors.setIfInBounds channel value }

def sensor (r : HeadlessRobot) (channel : Int32) : Float32 :=
  if 0 ≤ channel then r.sensors[channel.toInt.toNat]?.getD 0 else 0

def log (r : HeadlessRobot) (e : Event) : HeadlessRobot :=
  { r with events := r.events.push e }

def withoutEvents (r : HeadlessRobot) : HeadlessRobot := { r with events := #[] }

/-! ### Channels -/

/-- Stores a property of an input channel. Data is never invalid, so that property is not kept. -/
def setInput (r : HeadlessRobot) (channel : Int32) (property : UInt16) (value : Int32) :
    HeadlessRobot :=
  if property = Input.invalidData then r
  else
    { r with inputs := r.inputs.set channel property value }.log (.setInput channel property value)

/-- A property of an input channel. The scaled value is the sensor in percent. -/
def input (r : HeadlessRobot) (channel : Int32) (property : UInt16) : Int32 :=
  if property = Input.invalidData then 0
  else if property = Input.scaledValue then Single.toInt32 (clampFloat 0 1 (r.sensor channel) * 100)
  else r.inputs.get channel property

def setOutput (r : HeadlessRobot) (channel : Int32) (property : UInt16) (value : Int32) :
    HeadlessRobot :=
  { r with outputs := r.outputs.set channel property value }.log (.setOutput channel property value)

/-- The speed that a motor was set to: the low byte, signed. -/
def motorSpeed (r : HeadlessRobot) (channel : Int32) : Int8 :=
  (r.outputs.get channel Output.speed).toInt8

def output (r : HeadlessRobot) (channel : Int32) (property : UInt16) : Int32 :=
  if property = Output.flags then 0
  else if property = Output.mode then 1
  else if property = Output.speed ∨ property = Output.actualSpeed then
    (r.motorSpeed channel).toInt32
  else if property = Output.runState then
    if r.motorSpeed channel = 0 then 0 else 0x20
  else if property = Output.regMode then
    if r.outputs.get channel Output.regMode &&& 2 = 0 then 1 else 3
  else if property = Output.overload then 0
  else r.outputs.get channel property

/-! ### System calls -/

def measurementRequest : List UInt8 := [0x02, 0x42]

def measurement (value : Float32) : UInt8 :=
  (Single.toInt32 (clampFloat 0 255 value)).toUInt32.toUInt8

def lowSpeedWrite (r : HeadlessRobot) (channel : Int32) (bytes : List UInt8) : HeadlessRobot :=
  if measurementRequest.isPrefixOf bytes then
    { r with reply := r.reply.set 0 (measurement (r.sensor channel)), ready := 1 }
  else
    r

/-- A part of a system call: it may fail, and works on the robot and the memory. -/
abbrev Call (α : Type) := ExceptT MemoryError (StateM (HeadlessRobot × Memory)) α

namespace Call

def ask {α : Type} (f : Memory → Except MemoryError α) : Call α := fun s => (f s.2, s)

def update (f : Memory → Except MemoryError Memory) : Call Unit := fun (r, m) =>
  match f m with
  | .ok m' => (.ok (), r, m')
  | .error e => (.error e, r, m)

def act (f : HeadlessRobot → HeadlessRobot) : Call Unit := fun (r, m) => (.ok (), f r, m)

def look {α : Type} (f : HeadlessRobot → α) : Call α := fun s => (.ok (f s.1), s)

end Call

def perform (base : Nat) : Syscall.Request → Call Unit
  | .playFile (some file) looping volume => Call.act (·.log (.playFile file looping volume))
  | .playFile none _ _ => pure ()
  | .playTone frequency duration looping volume =>
    Call.act (·.log (.playTone frequency duration looping volume))
  | .lowSpeedWrite channel bytes _ =>
    Call.act fun r => (r.lowSpeedWrite channel bytes).log (.lowSpeedWrite channel bytes)
  | .lowSpeedRead channel _ => do
    let ready ← Call.look (·.ready)
    let reply ← Call.look (·.reply)
    Call.update (·.setArrayLength (base + 3) ready)
    Call.update (·.setArrayData (base + 3) reply.toList)
    let bytes ← Call.ask (·.arrayData (base + 3))
    Call.act (·.log (.lowSpeedRead channel bytes.toList))
  | .lowSpeedCheckStatus _ => do
    let ready ← Call.look (·.ready)
    Call.update (·.setScalar (base + 3) (Int32.ofNat ready))
  | .unsupported id => Call.act (·.log (.ignoredSyscall id))

/-- A whole system call. Every call that is carried out has the status zero. -/
def call (id : UInt16) (base : Nat) : Call Unit := do
  let request ← Call.ask (Syscall.Request.read · id base)
  perform base request
  Call.update (·.setScalar (base + Syscall.statusField) 0)

instance : Robot HeadlessRobot where
  syscall id base r m := (call id base).run (r, m)
  setInput := setInput
  input r channel property := (r.input channel property, r)
  setOutput := setOutput
  output r channel property := (r.output channel property, r)

end HeadlessRobot

end BrickMachine
