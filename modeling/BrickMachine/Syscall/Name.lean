/-!
# System calls by number

A SYSCALL instruction names its call by a number. The firmware knows 48 calls; five of them are
answered here.
-/

namespace BrickMachine

namespace Syscall

/-- The numbers of the calls that are answered. -/
def soundPlayFile : UInt16 := 0x09
def soundPlayTone : UInt16 := 0x0A
def lowSpeedWrite : UInt16 := 0x15
def lowSpeedRead : UInt16 := 0x16
def lowSpeedCheckStatus : UInt16 := 0x17

def names : Array String :=
  #["NXTFileOpenRead", "NXTFileOpenWrite", "NXTFileOpenAppend", "NXTFileRead",
    "NXTFileWrite", "NXTFileClose", "NXTFileResolveHandle", "NXTFileRename",
    "NXTFileDelete", "NXTSoundPlayFile", "NXTSoundPlayTone", "NXTSoundGetState",
    "NXTSoundSetState", "NXTDrawText", "NXTDrawPoint", "NXTDrawLine",
    "NXTDrawCircle", "NXTDrawRect", "NXTDrawPicture", "NXTSetScreenMode",
    "NXTReadButton", "NXTCommLSWrite", "NXTCommLSRead", "NXTCommLSCheckStatus",
    "NXTRandomNumber", "NXTGetStartTick", "NXTMessageWrite", "NXTMessageRead",
    "NXTCommBTCheckStatus", "NXTCommBTWrite", "NXTCommBTRead", "NXTKeepAlive",
    "NXTIOMapRead", "NXTIOMapWrite", "NXTColorSensorRead", "NXTBTPower",
    "NXTBTConnection", "NXTCommHSWrite", "NXTCommHSRead", "NXTCommHSCheckStatus",
    "NXTReadSemData", "NXTWriteSemData", "NXTComputeCalibValue", "NXTUpdateCalibCacheData",
    "NXTDatalogWrite", "NXTDatalogGetTimes", "NXTSetSleepTimeout", "NXTListFiles"]

def name (id : UInt16) : String :=
  names[id.toNat]?.getD "Not_A_Valid_Syscall"

end Syscall

end BrickMachine
