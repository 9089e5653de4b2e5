import BrickMachine.Bytes
import BrickMachine.Slot.Basic

/-!
# Program images

An image is a compiled program: a table of contents that types every dataspace entry, the
default data that the dataspace starts from, the clumps, which are the program's tasks and
subroutines, and one sequence of code words that all clumps share. A header gives the sizes of
the dataspace and the place of its arrays.

An image never changes. A `Corruption` says which section of an image is not as it should be,
and why.
-/

namespace BrickMachine

structure Header where
  entryCount : UInt16
  initialSize : UInt16
  /-- Bytes taken by the slots; an array contributes its dope vector index only. -/
  staticSize : UInt16
  defaultDataSize : UInt16
  /-- Where the defaults of arrays start within the default data. -/
  dynamicDefaultOffset : UInt16
  dynamicDefaultSize : UInt16
  memoryManagerHead : UInt16
  memoryManagerTail : UInt16
  /-- Where the dope vector table starts within the dataspace. -/
  dopeVectorOffset : UInt16
  deriving DecidableEq, Repr

structure TocEntry where
  slotType : SlotType
  flags : UInt8
  /-- The offset of a slot, or the number of members of a cluster. -/
  descriptor : UInt16
  deriving DecidableEq, Repr

namespace TocEntry

/-- The flag of a slot that starts at zero and has no default data. -/
def zeroDefaultFlag : UInt8 := 1

def hasZeroDefault (e : TocEntry) : Bool := e.flags.toNat % 2 == 1

end TocEntry

/-- A task or subroutine. -/
structure Clump where
  fireCount : UInt8
  /-- The clumps that start when this one ends. -/
  dependents : List UInt8
  /-- The clump's first code word. -/
  codeStart : UInt16
  deriving DecidableEq, Repr

structure Image where
  version : UInt8
  header : Header
  toc : Array TocEntry
  defaultData : Array UInt8
  clumps : Array Clump
  code : Array UInt16
  deriving DecidableEq, Repr

namespace Image

def currentVersion : UInt8 := 5

/-- An image made from its parts. The counts in the header are those of the parts. -/
def ofParts (header : Header) (toc : Array TocEntry) (defaultData : Array UInt8)
    (clumps : Array Clump) (code : Array UInt16) : Image where
  version := currentVersion
  header :=
    { header with
      entryCount := UInt16.ofNat toc.size
      defaultDataSize := UInt16.ofNat defaultData.size }
  toc := toc
  defaultData := defaultData
  clumps := clumps
  code := code

end Image

inductive Section where
  | header | dataspaceHeader | codeHeader | tableOfContents | defaultData
  | clumpRecords | clumpDependents | code | staticData | dopeVectors
  deriving DecidableEq, Repr

def Section.name : Section → String
  | header => "header"
  | dataspaceHeader => "dataspace header"
  | codeHeader => "code header"
  | tableOfContents => "table of contents"
  | defaultData => "default data"
  | clumpRecords => "clump records"
  | clumpDependents => "clump dependents"
  | code => "code"
  | staticData => "static data"
  | dopeVectors => "dope vectors"

/-- What lies outside the default data. -/
inductive DynamicPart where
  | table | contents
  deriving DecidableEq, Repr

def DynamicPart.name : DynamicPart → String
  | table => "dope vector table"
  | contents => "array data"

inductive Defect where
  | endOfFile
  | noFormatString
  | unknownType (entry : Nat) (tag : UInt8)
  | slotOutside (entry offset : Nat)
  | noDefault (entry : Nat)
  | emptyTable
  | outsideDefaults (part : DynamicPart) (address : Nat)
  deriving DecidableEq, Repr

def Defect.message : Defect → String
  | endOfFile => "unexpected end of file"
  | noFormatString => "missing format string"
  | unknownType entry tag => s!"entry {entry} has unknown type {tag}"
  | slotOutside entry offset => s!"entry {entry} at offset {offset} exceeds static size"
  | noDefault entry => s!"default value of entry {entry} past end of default data"
  | emptyTable => "empty dope vector table"
  | outsideDefaults part address =>
    part.name ++ s!" at address {address} outside default data"

structure Corruption where
  place : Section
  defect : Defect
  deriving DecidableEq, Repr

def Corruption.message (c : Corruption) : String :=
  "corrupt image (" ++ c.place.name ++ "): " ++ c.defect.message

end BrickMachine
