import BrickMachine.Bytes

/-!
# Channels

A robot has input channels with sensors and output channels with motors. A channel has numbered
properties; programs set and read them, and `ChannelTable` keeps what was set last.
-/

namespace BrickMachine

namespace Input

/-- The properties of input channels that have a meaning here. -/
def scaledValue : UInt16 := 4
def invalidData : UInt16 := 5

def propertyNames : Array String :=
  #["IO_IN_TYPE", "IO_IN_MODE", "IO_IN_ADRAW", "IO_IN_NORMRAW", "IO_IN_SCALED_VAL",
    "IO_IN_INVALID_DATA"]

def propertyName (property : UInt16) : String :=
  propertyNames[property.toNat]?.getD "IO_IN_?"

end Input

namespace Output

/-- The properties of output channels that have a meaning here. -/
def flags : UInt16 := 0
def mode : UInt16 := 1
def speed : UInt16 := 2
def actualSpeed : UInt16 := 3
def runState : UInt16 := 6
def regMode : UInt16 := 8
def overload : UInt16 := 9

def propertyNames : Array String :=
  #["IO_OUT_FLAGS", "IO_OUT_MODE", "IO_OUT_SPEED", "IO_OUT_ACTUAL_SPEED",
    "IO_OUT_TACH_COUNT", "IO_OUT_TACH_LIMIT", "IO_OUT_RUN_STATE", "IO_OUT_TURN_RATIO",
    "IO_OUT_REG_MODE", "IO_OUT_OVERLOAD", "IO_OUT_REG_P_VAL", "IO_OUT_REG_I_VAL",
    "IO_OUT_REG_D_VAL", "IO_OUT_BLOCK_TACH_COUNT", "IO_OUT_ROTATION_COUNT"]

def propertyName (property : UInt16) : String :=
  propertyNames[property.toNat]?.getD "IO_OUT_?"

end Output

structure ChannelSetting where
  channel : Int32
  property : UInt16
  value : Int32
  deriving DecidableEq, Repr

def ChannelSetting.isFor (channel : Int32) (property : UInt16) (s : ChannelSetting) : Bool :=
  s.channel == channel && s.property == property

structure ChannelTable where
  settings : List ChannelSetting := []
  deriving DecidableEq, Repr

namespace ChannelTable

/-- The value stored for a property of a channel; zero if none is. -/
def get (t : ChannelTable) (channel : Int32) (property : UInt16) : Int32 :=
  (t.settings.find? (ChannelSetting.isFor channel property)).elim 0 ChannelSetting.value

def set (t : ChannelTable) (channel : Int32) (property : UInt16) (value : Int32) : ChannelTable :=
  ⟨⟨channel, property, value⟩ :: t.settings.filter (!ChannelSetting.isFor channel property ·)⟩

@[simp] theorem get_set_self (t : ChannelTable) (channel : Int32) (property : UInt16)
    (value : Int32) :
    (t.set channel property value).get channel property = value := by
  simp [get, set, ChannelSetting.isFor]

theorem get_set_of_ne (t : ChannelTable) {channel channel' : Int32} {property property' : UInt16}
    (value : Int32) (h : channel = channel' → property ≠ property') :
    (t.set channel property value).get channel' property' = t.get channel' property' := by
  have hnew : ChannelSetting.isFor channel' property' ⟨channel, property, value⟩ = false := by
    simpa [ChannelSetting.isFor] using h
  have hkeep : (fun s => (!ChannelSetting.isFor channel property s) &&
      ChannelSetting.isFor channel' property' s) = ChannelSetting.isFor channel' property' := by
    funext s
    by_cases hs : s.channel = channel ∧ s.property = property
    · obtain ⟨rfl, rfl⟩ := hs
      by_cases hp : s.channel = channel' <;> simp [ChannelSetting.isFor, hp, h]
    · simp only [not_and] at hs
      by_cases hp : s.channel = channel <;> simp [ChannelSetting.isFor, hp, hs]
  simp [get, set, hnew, List.find?_filter, hkeep]

/-- A value that was stored is read until the next is stored for the same property. -/
theorem get_set (t : ChannelTable) (channel channel' : Int32) (property property' : UInt16)
    (value : Int32) :
    (t.set channel property value).get channel' property'
      = if channel = channel' ∧ property = property' then value else t.get channel' property' := by
  by_cases h : channel = channel' ∧ property = property'
  · obtain ⟨rfl, rfl⟩ := h
    simp
  · rw [if_neg h, get_set_of_ne t value (not_and.1 h)]

end ChannelTable

end BrickMachine
