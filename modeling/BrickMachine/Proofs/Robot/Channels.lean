import BrickMachine.Proofs.Robot.History
import BrickMachine.Proofs.Robot.Sensing

/-!
# What the channels of a headless robot read

A property of a channel reads what was stored for it last, but some have a meaning of their own. Of
an output channel the speed is one byte, from which the actual speed and the run state follow, the
regulation mode depends on one bit, and three properties are fixed; of an input channel the data is
never invalid, and the scaled value comes from the sensor.

`channels_after` says this of every history of the robot, and that what was stored for other
channels, system calls and sensors do not count for an output.
-/

namespace BrickMachine

/-- The properties of output channels that do not simply read what was stored for them. -/
def Output.derived : List UInt16 := [flags, mode, speed, actualSpeed, runState, regMode, overload]

def Input.derived : List UInt16 := [scaledValue, invalidData]

namespace HeadlessRobot

def Use.output? (channel : Int32) (property : UInt16) : Use → Option Int32
  | setOutput c p value => if c = channel ∧ p = property then some value else none
  | _ => none

def Use.input? (channel : Int32) (property : UInt16) : Use → Option Int32
  | setInput c p value => if c = channel ∧ p = property then some value else none
  | _ => none

def lastOutput (uses : List Use) (channel : Int32) (property : UInt16) : Int32 :=
  (uses.filterMap (·.output? channel property)).getLastD 0

def lastInput (uses : List Use) (channel : Int32) (property : UInt16) : Int32 :=
  (uses.filterMap (·.input? channel property)).getLastD 0

def Use.setsOutput (channel : Int32) : Use → Bool
  | setOutput c _ _ => c == channel
  | _ => false

def Use.setsInput : Use → Bool
  | setInput .. => true
  | _ => false

/-! ### What is stored -/

theorem outputs_apply (channel : Int32) (property : UInt16) (use : Use) (r : HeadlessRobot) :
    (use.apply r).outputs.get channel property
      = (use.output? channel property).getD (r.outputs.get channel property) := by
  cases use with
  | setOutput c p value =>
      change (r.outputs.set c p value).get channel property = (ite _ _ _ : Option Int32).getD _
      rw [ChannelTable.get_set]
      split <;> rfl
  | setInput c p value =>
      change (r.setInput c p value).outputs.get channel property = _
      unfold setInput
      split <;> rfl
  | syscall id base m =>
      change (Robot.syscall id base r m).2.1.outputs.get channel property = _
      rw [(serves_syscall id base r m).outputs]
      rfl
  | setSensor | takeEvents => rfl

/-- What is stored for a property that is not kept is never read. -/
theorem inputs_apply (channel : Int32) {property : UInt16}
    (hproperty : property ≠ Input.invalidData) (use : Use) (r : HeadlessRobot) :
    (use.apply r).inputs.get channel property
      = (use.input? channel property).getD (r.inputs.get channel property) := by
  cases use with
  | setInput c p value =>
      change (r.setInput c p value).inputs.get channel property = (ite _ _ _ : Option Int32).getD _
      unfold setInput
      split
      case isTrue hp =>
        have hother : ¬ (c = channel ∧ p = property) := fun h => hproperty (h.2 ▸ hp)
        rw [if_neg hother]
        rfl
      case isFalse hp =>
        change (r.inputs.set c p value).get channel property = _
        rw [ChannelTable.get_set]
        split <;> rfl
  | syscall id base m =>
      change (Robot.syscall id base r m).2.1.inputs.get channel property = _
      rw [(serves_syscall id base r m).inputs]
      rfl
  | setSensor | setOutput | takeEvents => rfl

/-! ### What is read -/

/-- What the properties of an output channel read, if `last` was stored for them last. -/
structure ReadsOutput (r : HeadlessRobot) (channel : Int32) (last : UInt16 → Int32) : Prop where
  flags : r.output channel Output.flags = 0
  mode : r.output channel Output.mode = 1
  overload : r.output channel Output.overload = 0
  /-- The low byte, signed. -/
  speed : (r.output channel Output.speed).toInt = (last Output.speed).toInt.bmod 256
  actualSpeed : r.output channel Output.actualSpeed = r.output channel Output.speed
  runState : r.output channel Output.runState
    = if r.output channel Output.speed = 0 then 0 else 0x20
  regMode : r.output channel Output.regMode
    = if (last Output.regMode).toBitVec.getLsbD 1 then 3 else 1
  stored (property : UInt16) : property ∉ Output.derived →
    r.output channel property = last property

/-- What the properties of an input channel read, if `last` was stored for them last and its sensor
has the given value. -/
structure ReadsInput (r : HeadlessRobot) (channel : Int32) (sensor : Float32)
    (last : UInt16 → Int32) : Prop where
  invalidData : r.input channel Input.invalidData = 0
  scaledValue : IsPercent sensor (r.input channel Input.scaledValue)
  stored (property : UInt16) : property ∉ Input.derived → r.input channel property = last property

theorem and_two_eq_zero_iff (v : Int32) : v &&& 2 = 0 ↔ v.toBitVec.getLsbD 1 = false := by
  have htwo : (2#32 : BitVec 32) = BitVec.twoPow 32 1 := rfl
  rw [← Int32.toBitVec_inj, Int32.toBitVec_and]
  change v.toBitVec &&& 2#32 = 0#32 ↔ _
  rw [htwo, BitVec.and_twoPow]
  have hnonzero : BitVec.twoPow 32 1 ≠ 0#32 := by decide
  cases v.toBitVec.getLsbD 1 <;> simp [hnonzero]

theorem readsOutput (r : HeadlessRobot) (channel : Int32) :
    r.ReadsOutput channel (r.outputs.get channel) where
  flags := rfl
  mode := rfl
  overload := rfl
  speed := by
    change (r.motorSpeed channel).toInt32.toInt = _
    rw [Int8.toInt_toInt32]
    exact Int32.toInt_toInt8 _
  actualSpeed := rfl
  runState := by
    change (if r.motorSpeed channel = 0 then (0 : Int32) else 0x20)
      = if (r.motorSpeed channel).toInt32 = 0 then 0 else 0x20
    have hzero : (r.motorSpeed channel).toInt32 = 0 ↔ r.motorSpeed channel = 0 := by
      rw [← Int32.toInt_inj, Int8.toInt_toInt32, ← Int8.toInt_inj]
      rfl
    simp only [hzero]
  regMode := by
    change (if r.outputs.get channel Output.regMode &&& 2 = 0 then (1 : Int32) else 3) = _
    simp only [and_two_eq_zero_iff]
    cases (r.outputs.get channel Output.regMode).toBitVec.getLsbD 1 <;> rfl
  stored property h := by
    simp only [Output.derived, List.mem_cons, not_or] at h
    simp [output, h]

/-- The properties read nothing else than that. -/
theorem ReadsOutput.unique {r r' : HeadlessRobot} {channel : Int32} {last : UInt16 → Int32}
    (h : r.ReadsOutput channel last) (h' : r'.ReadsOutput channel last) :
    r.output channel = r'.output channel := by
  have hspeed : r.output channel Output.speed = r'.output channel Output.speed := by
    rw [← Int32.toInt_inj, h.speed, h'.speed]
  funext property
  by_cases hproperty : property ∈ Output.derived
  · simp only [Output.derived, List.mem_cons, List.not_mem_nil, or_false] at hproperty
    rcases hproperty with rfl | rfl | rfl | rfl | rfl | rfl | rfl
    · rw [h.flags, h'.flags]
    · rw [h.mode, h'.mode]
    · exact hspeed
    · rw [h.actualSpeed, h'.actualSpeed, hspeed]
    · rw [h.runState, h'.runState, hspeed]
    · rw [h.regMode, h'.regMode]
    · rw [h.overload, h'.overload]
  · rw [h.stored property hproperty, h'.stored property hproperty]

theorem readsInput (r : HeadlessRobot) (channel : Int32) :
    r.ReadsInput channel (r.sensor channel) (r.inputs.get channel) where
  invalidData := rfl
  scaledValue := isPercent_scaledValue r channel
  stored property h := by
    simp only [Input.derived, List.mem_cons, not_or] at h
    simp [input, h]

/-! ### Histories -/

def lastSensor (values : List Float32) (uses : List Use) (channel : Int32) : Float32 :=
  (uses.filterMap (·.sensor? channel)).getLastD ((ofSensors values).sensor channel)

section

variable (values : List Float32) (uses : List Use) (channel : Int32)

theorem readsOutput_after :
    ((ofSensors values).after uses).ReadsOutput channel (lastOutput uses channel) := by
  have hlast : ((ofSensors values).after uses).outputs.get channel = lastOutput uses channel :=
    funext fun property => after_eq_getLastD (f := (·.outputs.get channel property))
      (outputs_apply channel property) _ uses
  rw [← hlast]
  exact readsOutput _ channel

theorem readsInput_after :
    ((ofSensors values).after uses).ReadsInput channel (lastSensor values uses channel)
      (lastInput uses channel) := by
  have hsensor : ((ofSensors values).after uses).sensor channel = lastSensor values uses channel :=
    after_eq_getLastD (f := (·.sensor channel)) (sensor_apply channel) _ uses
  have hreads := readsInput ((ofSensors values).after uses) channel
  rw [hsensor] at hreads
  refine ⟨hreads.invalidData, hreads.scaledValue, fun property h => ?_⟩
  have hproperty : property ≠ Input.invalidData := by
    rintro rfl
    exact h (by decide)
  rw [hreads.stored property h]
  exact after_eq_getLastD (f := (·.inputs.get channel property))
    (inputs_apply channel hproperty) _ uses

/-- Only what is stored for the channel itself counts for its output. -/
theorem lastOutput_congr {uses' : List Use}
    (h : uses'.filter (·.setsOutput channel) = uses.filter (·.setsOutput channel)) :
    lastOutput uses' channel = lastOutput uses channel := by
  funext property
  have hcounts (use : Use) (huse : use.setsOutput channel = false) :
      use.output? channel property = none := by
    cases use with
    | setOutput c p value =>
        have hc : c ≠ channel := by simpa [Use.setsOutput] using huse
        exact if_neg fun h => hc h.1
    | _ => rfl
  rw [lastOutput, filterMap_congr_of_filter hcounts h, lastOutput]

/-- What is stored for input channels does not count for sensors. -/
theorem lastSensor_filter :
    lastSensor values (uses.filter (!·.setsInput)) channel = lastSensor values uses channel := by
  have hcounts (use : Use) (huse : (!use.setsInput) = false) : use.sensor? channel = none := by
    cases use with
    | setSensor => cases huse
    | _ => rfl
  have hfilter : (uses.filter (!·.setsInput)).filter (!·.setsInput)
      = uses.filter (!·.setsInput) := by simp
  rw [lastSensor, filterMap_congr_of_filter hcounts hfilter, lastSensor]

end

/-- Storing something for a channel logs one event, unless it is for the property that is not kept;
this changes nothing. -/
structure LogsSettings (r : HeadlessRobot) (channel : Int32) : Prop where
  output (property : UInt16) (value : Int32) : (r.setOutput channel property value).events
    = r.events.push (.setOutput channel property value)
  input (property : UInt16) (value : Int32) : property ≠ Input.invalidData →
    (r.setInput channel property value).events = r.events.push (.setInput channel property value)
  invalidData (value : Int32) : r.setInput channel Input.invalidData value = r

theorem logsSettings (r : HeadlessRobot) (channel : Int32) : r.LogsSettings channel where
  output _ _ := rfl
  input property value hproperty := by
    rw [setInput, if_neg hproperty]
    rfl
  invalidData _ := rfl

/-- After any history, a channel reads what was stored for it last, but for the properties with a
meaning of their own. The output channel depends on what was stored for it, and on nothing else that
happened; the scaled value of the input channel does not depend on what was stored for inputs. What
is stored next is logged. -/
theorem channels_after (values : List Float32) (uses : List Use) (channel : Int32) :
    ((ofSensors values).after uses).ReadsOutput channel (lastOutput uses channel) ∧
    ((ofSensors values).after uses).ReadsInput channel (lastSensor values uses channel)
      (lastInput uses channel) ∧
    (∀ values' uses', uses'.filter (·.setsOutput channel) = uses.filter (·.setsOutput channel) →
      ((ofSensors values').after uses').output channel
        = ((ofSensors values).after uses).output channel) ∧
    ((ofSensors values).after (uses.filter (!·.setsInput))).input channel Input.scaledValue
      = ((ofSensors values).after uses).input channel Input.scaledValue ∧
    ((ofSensors values).after uses).LogsSettings channel := by
  have hreads := readsOutput_after values uses channel
  have hinput := readsInput_after values uses channel
  refine ⟨hreads, hinput, fun values' uses' h => ?_, ?_, logsSettings _ channel⟩
  · have hother := readsOutput_after values' uses' channel
    rw [lastOutput_congr uses channel h] at hother
    exact hother.unique hreads
  · have hother := readsInput_after values (uses.filter (!·.setsInput)) channel
    rw [lastSensor_filter] at hother
    exact hother.scaledValue.unique hinput.scaledValue

/-- A history in which other channels, inputs, a system call and a sensor come between what is
stored for output channel 0. -/
def steering : List Use :=
  [.setOutput 0 Output.speed 300, .setInput 0 Output.speed 7, .setOutput 1 Output.speed 5,
    .setSensor 0 1, .setOutput 0 Output.actualSpeed 9, .setInput 0 Input.scaledValue 50,
    .syscall Syscall.lowSpeedRead 0 statusOverArray, .setOutput 0 Output.regMode 6,
    .setInput 0 Input.invalidData 1, .takeEvents]

theorem channels_after_steering :
    let r := (ofSensors []).after steering
    (r.output 0 Output.speed).toInt = 44 ∧ r.output 0 Output.actualSpeed = r.output 0 Output.speed ∧
    r.output 0 Output.runState = 0x20 ∧ r.output 0 Output.regMode = 3 ∧ r.output 0 4 = 0 ∧
    r.input 0 Output.speed = 7 ∧ r.input 0 Input.invalidData = 0 ∧
    r.input 0 Input.scaledValue = 100 ∧
    ((ofSensors [1]).after [.setOutput 0 Output.speed 300, .setOutput 0 Output.actualSpeed 9,
      .setOutput 0 Output.regMode 6]).output 0 = r.output 0 ∧
    Output.speed ≠ Input.invalidData ∧
    (r.setInput 0 Output.speed 8).events = r.events.push (.setInput 0 Output.speed 8) ∧
    r.setInput 0 Input.invalidData 8 = r := by
  intro r
  obtain ⟨hout, hin, hown, _, hlogs⟩ := channels_after [] steering 0
  have hspeed : (lastOutput steering 0 Output.speed).toInt.bmod 256 = 44 := by decide
  have hmode : (lastOutput steering 0 Output.regMode).toBitVec.getLsbD 1 = true := by decide
  have hsensor : lastSensor [] steering 0 = 1 := rfl
  have hpercent : IsPercent 1 100 := by
    refine ⟨?_, ?_, ?_, fun _ _ _ => ⟨?_, ?_⟩⟩ <;> decide
  have hturns : r.output 0 Output.speed ≠ 0 := by
    intro h
    have hzero := hout.speed.trans hspeed
    rw [h] at hzero
    cases hzero
  refine ⟨hout.speed.trans hspeed, hout.actualSpeed, ?_, ?_, hout.stored 4 (by decide),
    hin.stored Output.speed (by decide), hin.invalidData,
    (hsensor ▸ hin.scaledValue).unique hpercent, hown [1] _ rfl, by decide,
    hlogs.input Output.speed 8 (by decide), hlogs.invalidData 8⟩
  · rw [hout.runState, if_neg hturns]
  · rw [hout.regMode, if_pos hmode]

end HeadlessRobot

end BrickMachine
