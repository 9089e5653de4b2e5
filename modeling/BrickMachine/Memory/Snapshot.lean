import BrickMachine.Memory.Basic

/-!
# Views of memory

A snapshot lists the value of every slot and the elements of every array that can be reached;
for elements it stops at the first that cannot be read. `dopeVectorBytes` writes the dope vector
table as it stands in an image, with a first record that describes the table as it is now.
-/

namespace BrickMachine

structure ScalarView where
  entry : Nat
  slotType : SlotType
  value : Int32
  deriving DecidableEq, Repr

structure ArrayView where
  entry : Nat
  block : Nat
  /-- The declared type of the elements; none if the array is the last entry. -/
  elementType : Option SlotType
  elements : List Int32
  deriving DecidableEq, Repr

structure Snapshot where
  scalars : List ScalarView
  arrays : List ArrayView
  deriving DecidableEq, Repr

namespace Memory

def dopeVectors (m : Memory) : List DopeVector := m.blocks.toList.map Block.vector

def dopeVectorBytes (m : Memory) : List UInt8 :=
  match m.dopeVectors with
  | [] => []
  | table :: arrays =>
    { table with
      elementSize := UInt16.ofNat DopeVector.recordSize
      elementCount := UInt16.ofNat (arrays.length + 1) }.toBytes
    ++ arrays.flatMap DopeVector.toBytes

/-- The elements of an array from `i` on, `count` of them, up to the first that cannot be
read. -/
def readableElements (m : Memory) (e i : Nat) : Nat → List Int32
  | 0 => []
  | count + 1 =>
    match m.element e i with
    | .ok v => v :: m.readableElements e (i + 1) count
    | .error _ => []

/-- The view of a slot that is no array; none if it cannot be read. -/
def scalarView? (m : Memory) (e : Nat) : Option ScalarView :=
  match m.slotType e, m.scalar e with
  | .ok t, .ok v => if t = .array then none else some ⟨e, t, v⟩
  | _, _ => none

/-- The view of an array slot; none if it names no block. -/
def arrayView? (m : Memory) (e : Nat) : Option ArrayView :=
  match m.blockIndex e with
  | .ok d =>
    some
      { entry := e
        block := d
        elementType := (m.slotType (e + 1)).toOption
        elements := m.readableElements e 0 (m.block d).vector.elementCount.toNat }
  | .error _ => none

def snapshot (m : Memory) : Snapshot where
  scalars := m.slots.filterMap m.scalarView?
  arrays := m.slots.filterMap m.arrayView?

end Memory

end BrickMachine
