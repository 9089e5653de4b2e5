import BrickMachine.Image.Basic
import BrickMachine.Image.DopeVector
import BrickMachine.Slot.Codec

/-!
# Program memory

The memory of a running program has two parts. Slots lie in one static buffer, each at the
offset that the table of contents gives it. Arrays lie in blocks: every array slot holds the
index of a block, and a block is a dope vector with a buffer of its own that grows and shrinks
with the array. Block 0 stands for the dope vector table and has no contents.

An access either succeeds or is a `MemoryError`, and a program goes on after one. Reading is a
function of the memory. Writing is done in two steps: a *target* says where a value goes, if the
access is allowed, and putting a value at a target cannot fail.
-/

namespace BrickMachine

/-- What an index or offset that is out of range was meant to select. -/
inductive Bound where
  | entry | staticOffset | dopeVector | arrayLength | arrayIndex | arrayOffset
  deriving DecidableEq, Repr

def Bound.name : Bound → String
  | entry => "dataspace entry"
  | staticOffset => "static offset"
  | dopeVector => "dope vector"
  | arrayLength => "array length"
  | arrayIndex => "array index"
  | arrayOffset => "array byte offset"

inductive Access where
  | scalar | scalarTarget | array | arrayElement
  deriving DecidableEq, Repr

def Access.name : Access → String
  | scalar => "scalar"
  | scalarTarget => "scalar target"
  | array => "array"
  | arrayElement => "array element"

inductive MemoryError where
  | outOfRange (what : Bound) (index limit : Nat)
  | wrongType (entry : Nat) (slotType : SlotType) (access : Access)
  deriving DecidableEq, Repr

def MemoryError.message : MemoryError → String
  | outOfRange what index limit => what.name ++ s!" {index} out of range (limit {limit})"
  | wrongType entry slotType access =>
    s!"entry {entry} of type " ++ slotType.name ++ " cannot be used as " ++ access.name

/-- An array: its dope vector and its contents. -/
structure Block where
  vector : DopeVector
  data : Buffer
  deriving DecidableEq, Repr

namespace Block

/-- The block resized to `n` elements: those past the end are lost, new ones are zero. A block
that has `n` elements already stays as it is. -/
def resize (b : Block) (n : Nat) : Block :=
  let count := UInt16.ofNat n
  if b.vector.elementCount = count then b
  else
    let vector := { b.vector with elementCount := count }
    { vector, data := b.data.resize vector.byteLength }

end Block

structure Memory where
  toc : Array TocEntry
  statics : Buffer
  blocks : Array Block
  /-- The entries that own static storage, in increasing order. -/
  slots : List Nat
  deriving DecidableEq, Repr

namespace Memory

def entry (m : Memory) (e : Nat) : Except MemoryError TocEntry :=
  match m.toc[e]? with
  | some t => .ok t
  | none => .error (.outOfRange .entry e m.toc.size)

def slotType (m : Memory) (e : Nat) : Except MemoryError SlotType :=
  (m.entry e).map (·.slotType)

/-! ### Slots -/

def slotBytes (m : Memory) (t : TocEntry) : Except MemoryError (List UInt8) :=
  let start := t.descriptor.toNat
  if start + t.slotType.size ≤ m.statics.size then
    .ok (m.statics.slice start t.slotType.size)
  else
    .error (.outOfRange .staticOffset start m.statics.size)

/-- The value of a slot. An array slot gives its dope vector index. -/
def scalar (m : Memory) (e : Nat) : Except MemoryError Int32 := do
  let t ← m.entry e
  if t.slotType.isScalar then
    let bytes ← m.slotBytes t
    .ok (t.slotType.valueOfBits (ofLittleEndian bytes))
  else
    .error (.wrongType e t.slotType .scalar)

structure SlotTarget where
  slotType : SlotType
  offset : Nat
  deriving DecidableEq, Repr

/-- The target of a store to a slot. Only flat slots can be stored to. -/
def slotTarget (m : Memory) (e : Nat) : Except MemoryError SlotTarget := do
  let t ← m.entry e
  if t.slotType.isFlat then
    let start := t.descriptor.toNat
    if start + t.slotType.size ≤ m.statics.size then
      .ok ⟨t.slotType, start⟩
    else
      .error (.outOfRange .staticOffset start m.statics.size)
  else
    .error (.wrongType e t.slotType .scalarTarget)

def putSlot (m : Memory) (target : SlotTarget) (v : Int32) : Memory :=
  { m with statics := (target.slotType.store v m.statics target.offset).2 }

def setScalar (m : Memory) (e : Nat) (v : Int32) : Except MemoryError Memory :=
  (m.slotTarget e).map (m.putSlot · v)

/-! ### Arrays -/

/-- The index of the block that an array slot names. The table's own block is out of reach. -/
def blockIndex (m : Memory) (e : Nat) : Except MemoryError Nat := do
  let t ← m.entry e
  if t.slotType = .array then
    let bytes ← m.slotBytes t
    let index := ofLittleEndian bytes
    if 0 < index ∧ index < m.blocks.size then
      .ok index
    else
      .error (.outOfRange .dopeVector index m.blocks.size)
  else
    .error (.wrongType e t.slotType .array)

/-- The element type of an array: the type of the entry after it, which has to be flat. -/
def elementType (m : Memory) (e : Nat) : Except MemoryError SlotType := do
  let t ← m.entry e
  if t.slotType = .array then
    let element ← m.slotType (e + 1)
    if element.isFlat then
      .ok element
    else
      .error (.wrongType (e + 1) element .arrayElement)
  else
    .error (.wrongType e t.slotType .array)

/-- The block with a given index; an empty one outside the table. -/
def block (m : Memory) (index : Nat) : Block :=
  m.blocks[index]?.getD ⟨⟨0, 0, 0, 0, 0⟩, #[]⟩

def modifyBlock (m : Memory) (index : Nat) (f : Block → Block) : Memory :=
  { m with blocks := m.blocks.modify index f }

def arrayLength (m : Memory) (e : Nat) : Except MemoryError Nat :=
  (m.blockIndex e).map fun d => (m.block d).vector.elementCount.toNat

def arrayData (m : Memory) (e : Nat) : Except MemoryError Buffer :=
  (m.blockIndex e).map fun d => (m.block d).data

structure ElementTarget where
  slotType : SlotType
  block : Nat
  offset : Nat
  deriving DecidableEq, Repr

def elementTarget (m : Memory) (e i : Nat) : Except MemoryError ElementTarget := do
  let element ← m.elementType e
  let d ← m.blockIndex e
  let b := m.block d
  let count := b.vector.elementCount.toNat
  if i < count then
    let start := i * b.vector.elementSize.toNat
    let stop := start + element.size
    if stop ≤ b.data.size then
      .ok ⟨element, d, start⟩
    else
      .error (.outOfRange .arrayOffset stop b.data.size)
  else
    .error (.outOfRange .arrayIndex i count)

def getElement (m : Memory) (target : ElementTarget) : Int32 :=
  target.slotType.valueOfBits
    (ofLittleEndian ((m.block target.block).data.slice target.offset target.slotType.size))

def putElement (m : Memory) (target : ElementTarget) (v : Int32) : Memory :=
  m.modifyBlock target.block fun b =>
    { b with data := (target.slotType.store v b.data target.offset).2 }

def element (m : Memory) (e i : Nat) : Except MemoryError Int32 :=
  (m.elementTarget e i).map m.getElement

def setElement (m : Memory) (e i : Nat) (v : Int32) : Except MemoryError Memory :=
  (m.elementTarget e i).map (m.putElement · v)

def maxArrayLength : Nat := 65535

def arrayTarget (m : Memory) (e n : Nat) : Except MemoryError Nat := do
  let d ← m.blockIndex e
  if n ≤ maxArrayLength then
    .ok d
  else
    .error (.outOfRange .arrayLength n maxArrayLength)

def resizeBlock (m : Memory) (d n : Nat) : Memory :=
  m.modifyBlock d (·.resize n)

def setArrayLength (m : Memory) (e n : Nat) : Except MemoryError Memory :=
  (m.arrayTarget e n).map (m.resizeBlock · n)

/-- The memory with the first bytes of an array's contents overwritten, as far as they reach. -/
def setArrayData (m : Memory) (e : Nat) (bytes : List UInt8) : Except MemoryError Memory :=
  (m.blockIndex e).map fun d =>
    m.modifyBlock d fun b => { b with data := b.data.patch 0 bytes }

end Memory

end BrickMachine
