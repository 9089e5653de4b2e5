import BrickMachine.Code.Listing
import BrickMachine.Memory.Snapshot

/-!
# The report on an image

The report shows everything that an image says: its header, the dataspace with the values that
slots and arrays start with, the dope vectors, the clumps and a listing of the code. It has a
text form for reading and a structured form.
-/

namespace BrickMachine

structure EntryReport where
  index : Nat
  entry : TocEntry
  /-- The value of a flat slot. -/
  value : Option Int32
  /-- The elements of an array that can be read. -/
  elements : Option (List Int32)
  deriving DecidableEq, Repr

namespace EntryReport

def of (m : Memory) (index : Nat) (entry : TocEntry) : EntryReport where
  index := index
  entry := entry
  value := if entry.slotType.isFlat then (m.scalar index).toOption else none
  elements :=
    if entry.slotType = .array then
      (m.arrayLength index).toOption.map fun n =>
        (List.range n).filterMap fun i => (m.element index i).toOption
    else
      none

def text (r : EntryReport) : String :=
  "  [" ++ Text.zeroPadded 4 r.index ++ "] " ++ Text.padRight 7 r.entry.slotType.name
    ++ " flags 0x" ++ Text.hex 2 r.entry.flags.toNat
    ++ " desc " ++ Text.padLeft 5 ' ' (toString r.entry.descriptor.toNat)
    ++ (r.value.map fun v => " = " ++ toString v.toInt).getD ""
    ++ (r.elements.map fun vs => " = " ++ Text.bracketed (vs.map (toString ·.toInt))).getD ""

def toJson (r : EntryReport) : Json :=
  .object <|
    [("index", .nat r.index), ("slot_type", .string r.entry.slotType.keyword),
     ("flags", .nat r.entry.flags.toNat), ("descriptor", .nat r.entry.descriptor.toNat)]
    ++ (r.value.map fun v => ("value", Json.int v.toInt)).toList
    ++ (r.elements.map fun vs => ("elements", Json.list (Json.int ·.toInt) vs)).toList

end EntryReport

def Header.toJson (h : Header) : Json :=
  .object
    [("entry_count", .nat h.entryCount.toNat),
     ("initial_size", .nat h.initialSize.toNat),
     ("static_size", .nat h.staticSize.toNat),
     ("default_data_size", .nat h.defaultDataSize.toNat),
     ("dynamic_default_offset", .nat h.dynamicDefaultOffset.toNat),
     ("dynamic_default_size", .nat h.dynamicDefaultSize.toNat),
     ("memory_manager_head", .nat h.memoryManagerHead.toNat),
     ("memory_manager_tail", .nat h.memoryManagerTail.toNat),
     ("dope_vector_offset", .nat h.dopeVectorOffset.toNat)]

def DopeVector.toJson (d : DopeVector) : Json :=
  .object
    [("offset", .nat d.offset.toNat), ("element_size", .nat d.elementSize.toNat),
     ("element_count", .nat d.elementCount.toNat), ("back_pointer", .nat d.backPointer.toNat),
     ("link_index", .nat d.linkIndex.toNat)]

def Clump.jsonFields (c : Clump) : List (String × Json) :=
  [("fire_count", .nat c.fireCount.toNat),
   ("dependents", .list (Json.nat ·.toNat) c.dependents),
   ("code_start", .nat c.codeStart.toNat)]

structure ImageReport where
  version : UInt8
  header : Header
  entries : List EntryReport
  dopeVectors : List DopeVector
  clumps : List Clump
  codeWords : Nat
  lines : List Line

namespace ImageReport

def of (image : Image) (m : Memory) : ImageReport where
  version := image.version
  header := image.header
  entries := image.toc.toList.mapIdx (EntryReport.of m)
  dopeVectors := m.dopeVectors
  clumps := image.clumps.toList
  codeWords := image.code.size
  lines := listing image.code

def headerLines (r : ImageReport) : List String :=
  let h := r.header
  let number (w : UInt16) := toString w.toNat
  ["  version: " ++ toString r.version.toNat,
   "  entries: " ++ number h.entryCount,
   "  initial size: " ++ number h.initialSize,
   "  static size: " ++ number h.staticSize,
   "  default data size: " ++ number h.defaultDataSize,
   "  dynamic defaults: offset " ++ number h.dynamicDefaultOffset ++ " size "
     ++ number h.dynamicDefaultSize,
   "  memory manager: head " ++ number h.memoryManagerHead ++ " tail "
     ++ number h.memoryManagerTail,
   "  dope vector offset: " ++ number h.dopeVectorOffset,
   "  code words: " ++ toString r.codeWords]

def dopeVectorLine (index : Nat) (d : DopeVector) : String :=
  let number (w : UInt16) := toString w.toNat
  "  [" ++ Text.zeroPadded 4 index ++ "] offset " ++ number d.offset
    ++ " element size " ++ number d.elementSize ++ " count " ++ number d.elementCount
    ++ " back " ++ number d.backPointer ++ " link " ++ number d.linkIndex

def clumpLine (id : Nat) (c : Clump) : String :=
  s!"  clump {id}: start " ++ Text.zeroPadded 4 c.codeStart.toNat
    ++ " fire count " ++ toString c.fireCount.toNat
    ++ " dependents " ++ Text.bracketed (c.dependents.map (toString ·.toNat))

def textLines (r : ImageReport) : List String :=
  ["== Header =="] ++ r.headerLines
    ++ ["", "== Dataspace =="] ++ r.entries.map EntryReport.text
    ++ ["", "== Dope Vectors =="] ++ r.dopeVectors.mapIdx dopeVectorLine
    ++ ["", "== Clumps =="] ++ r.clumps.mapIdx clumpLine
    ++ ["", "== Code =="] ++ r.lines.map Line.text

def text (r : ImageReport) : String :=
  String.join (r.textLines.map (· ++ "\n"))

def toJson (r : ImageReport) : Json :=
  .object
    [("version", .nat r.version.toNat),
     ("header", r.header.toJson),
     ("entries", .list EntryReport.toJson r.entries),
     ("dope_vectors", .list DopeVector.toJson r.dopeVectors),
     ("clumps", .array (r.clumps.mapIdx fun id c => .object (("id", .nat id) :: c.jsonFields))),
     ("code_words", .nat r.codeWords),
     ("instructions", .list Line.toJson r.lines)]

end ImageReport

end BrickMachine
