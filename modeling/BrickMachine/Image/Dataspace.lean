import BrickMachine.Image.Basic
import BrickMachine.Image.DopeVector
import BrickMachine.Slot.Codec

/-!
# Laying out a dataspace

A `Dataspace` is declared entry by entry. A declaration adds one or more entries: an array is
followed by the declaration of its elements, a cluster by its members. `toImage` then places
every slot and every array:

* slots take their place in the order of declaration, one right after the other;
* the default data starts with the values of the slots that do not start at zero, an array slot
  among them with the index of its dope vector;
* the dope vector table follows, with one record for itself and one for each array, and the
  contents of the arrays come last.

Addresses count from the start of the slots as they are in memory, so the address of the table
is the size of all slots.
-/

namespace BrickMachine

inductive Entry where
  /-- A slot that starts with a value. -/
  | scalar (slotType : SlotType) (value : Int32)
  /-- A slot that starts at zero and takes no default data. -/
  | zeroed (slotType : SlotType)
  /-- An array slot; the declaration of its elements is the next entry. -/
  | array (element : SlotType) (elementSize : UInt16) (values : List Int32) (count : UInt16)
  /-- An entry without storage: the head of a cluster, or an array's element. -/
  | declaration (slotType : SlotType) (descriptor : UInt16)
  deriving DecidableEq, Repr

namespace Entry

def storage : Entry → Nat
  | scalar t _ | zeroed t => t.size
  | array .. => SlotType.array.size
  | declaration .. => 0

/-- The table of contents entry of an entry whose storage starts at `offset`. -/
def toToc (offset : Nat) : Entry → TocEntry
  | scalar t _ => ⟨t, 0, UInt16.ofNat offset⟩
  | zeroed t => ⟨t, TocEntry.zeroDefaultFlag, UInt16.ofNat offset⟩
  | array .. => ⟨.array, 0, UInt16.ofNat offset⟩
  | declaration t descriptor => ⟨t, 0, descriptor⟩

/-- The entry with another initial value. Only a scalar has one. -/
def withValue (v : Int32) : Entry → Entry
  | scalar t _ | zeroed t => scalar t v
  | e => e

def withValues (vs : List Int32) : Entry → Entry
  | array element size _ _ => array element size vs (UInt16.ofNat vs.length)
  | e => e

end Entry

structure Dataspace where
  entries : Array Entry := #[]
  deriving DecidableEq, Repr

namespace Dataspace

def next (d : Dataspace) : UInt16 := UInt16.ofNat d.entries.size

def push (d : Dataspace) (e : Entry) : Dataspace := ⟨d.entries.push e⟩

def scalar (d : Dataspace) (t : SlotType) (v : Int32) : Dataspace := d.push (.scalar t v)

def zeroed (d : Dataspace) (t : SlotType) : Dataspace := d.push (.zeroed t)

def array (d : Dataspace) (element : SlotType) (values : List Int32) : Dataspace :=
  (d.push (.array element (UInt16.ofNat element.size) values (UInt16.ofNat values.length))).push
    (.declaration element 0)

def nestedArray (d : Dataspace) (inner : SlotType) : Dataspace :=
  ((d.push (.array .array (UInt16.ofNat SlotType.array.size) [] 0)).push
    (.declaration .array 0)).push (.declaration inner 0)

def clusterSize : List SlotType → Nat
  | [] => 0
  | t :: ts => t.size + clusterSize ts

def clusterArray (d : Dataspace) (members : List SlotType) (count : UInt16) : Dataspace :=
  let elementSize := UInt16.ofNat (clusterSize members)
  let head := (d.push (.array .cluster elementSize [] count)).push
    (.declaration .cluster (UInt16.ofNat members.length))
  members.foldl (fun d t => d.push (.declaration t 0)) head

/-- Declares one member of a cluster. An array member is an empty byte array. -/
def member (d : Dataspace) (t : SlotType) : Dataspace :=
  if t = .array then d.array .ubyte [] else d.scalar t 0

/-- Declares a cluster, whose members are the entries after it. -/
def cluster (d : Dataspace) (members : List SlotType) : Dataspace :=
  members.foldl member (d.push (.declaration .cluster (UInt16.ofNat members.length)))

def setDefault (d : Dataspace) (entry : UInt16) (v : Int32) : Dataspace :=
  ⟨d.entries.modify entry.toNat (Entry.withValue v)⟩

def setArrayDefault (d : Dataspace) (entry : UInt16) (values : List Int32) : Dataspace :=
  ⟨d.entries.modify entry.toNat (Entry.withValues values)⟩

/-! ### Slots -/

def tocFrom (offset : Nat) : List Entry → List TocEntry
  | [] => []
  | e :: es => e.toToc offset :: tocFrom (offset + e.storage) es

/-- The default data of the slots; the next array has the dope vector `index`. -/
def slotDefaults (index : Nat) : List Entry → List UInt8
  | [] => []
  | .scalar t v :: es => t.encode v ++ slotDefaults index es
  | .array .. :: es =>
    SlotType.array.encode (Int32.ofNat index) ++ slotDefaults (index + 1) es
  | _ :: es => slotDefaults index es

def staticSize : List Entry → Nat
  | [] => 0
  | e :: es => e.storage + staticSize es

/-! ### Arrays -/

structure ArrayPlan where
  elementSize : UInt16
  count : UInt16
  /-- The bytes of the elements, `elementSize * count` of them. -/
  contents : List UInt8

/-- The list cut to `n` elements or extended to them with zeros. -/
def fitted (n : Nat) (bytes : List UInt8) : List UInt8 :=
  bytes.take n ++ List.replicate (n - bytes.length) 0

def arrayContents (element : SlotType) (elementSize : UInt16) (values : List Int32)
    (count : UInt16) : List UInt8 :=
  fitted (elementSize.toNat * count.toNat)
    (if element.isFlat then values.flatMap element.encode else [])

def arrayPlans (es : List Entry) : List ArrayPlan :=
  es.filterMap fun
    | .array element size values count =>
      some ⟨size, count, arrayContents element size values count⟩
    | _ => none

/-- The word that stands for no dope vector. -/
def noLink : UInt16 := 0xFFFF

/-- The dope vectors of arrays whose contents start at `address`; the first of them has the
given index. Each links to the next one. -/
def dopeVectorsFrom (address index : Nat) : List ArrayPlan → List DopeVector
  | [] => []
  | p :: ps =>
    { offset := UInt16.ofNat address
      elementSize := p.elementSize
      elementCount := p.count
      backPointer := 0
      linkIndex := if ps.isEmpty then noLink else UInt16.ofNat (index + 1) }
      :: dopeVectorsFrom (address + p.contents.length) (index + 1) ps

def tableVector (address count : Nat) : DopeVector where
  offset := UInt16.ofNat address
  elementSize := UInt16.ofNat DopeVector.recordSize
  elementCount := UInt16.ofNat (count + 1)
  backPointer := 0
  linkIndex := if count = 0 then noLink else 1

def dynamicDefaults (address : Nat) (ps : List ArrayPlan) : List UInt8 :=
  let contentsAddress := address + (ps.length + 1) * DopeVector.recordSize
  (tableVector address ps.length :: dopeVectorsFrom contentsAddress 1 ps).flatMap
      DopeVector.toBytes
    ++ ps.flatMap ArrayPlan.contents

def toImage (d : Dataspace) (clumps : Array Clump) (code : Array UInt16) : Image :=
  let es := d.entries.toList
  let plans := arrayPlans es
  let size := staticSize es
  let statics := slotDefaults 1 es
  let dynamics := dynamicDefaults size plans
  Image.ofParts
    { entryCount := 0
      initialSize := UInt16.ofNat (size + dynamics.length)
      staticSize := UInt16.ofNat size
      defaultDataSize := 0
      dynamicDefaultOffset := UInt16.ofNat statics.length
      dynamicDefaultSize := UInt16.ofNat dynamics.length
      memoryManagerHead := if plans.isEmpty then noLink else 1
      memoryManagerTail := if plans.isEmpty then noLink else UInt16.ofNat plans.length
      dopeVectorOffset := UInt16.ofNat size }
    (tocFrom 0 es).toArray (statics ++ dynamics).toArray clumps code

end Dataspace

end BrickMachine
