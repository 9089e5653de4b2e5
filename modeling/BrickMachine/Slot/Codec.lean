import BrickMachine.Bytes
import BrickMachine.Single
import BrickMachine.Slot.Basic

/-!
# Values in slots

The machine computes with 32-bit signed numbers. A slot keeps as many low bytes of a number as
its type has room for, and reading extends them again: with zeros for the unsigned types, with
the sign for the signed ones. A float slot keeps the nearest single and reads as its integer
part, limited to the 32-bit range.

`truncate` says what a store followed by a load gives, without going through bytes.
-/

namespace BrickMachine

namespace SlotType

/-- The number that a type reads in its bytes, given as an unsigned number. Void and clusters
hold none. -/
def valueOfBits (t : SlotType) (n : Nat) : Int32 :=
  match t with
  | ubyte | uword | array | ulong | slong | mutex => Int32.ofNat n
  | sbyte => (Int8.ofNat n).toInt32
  | sword => (Int16.ofNat n).toInt32
  | float => Single.integer n
  | void | cluster => 0

/-- The unsigned number whose low bytes a type keeps for a value. -/
def bitsOfValue (t : SlotType) (v : Int32) : Nat :=
  match t with
  | float => Single.bits v.toInt
  | _ => v.toUInt32.toNat

def encode (t : SlotType) (v : Int32) : List UInt8 :=
  littleEndian t.size (t.bitsOfValue v)

/-- The value at the front of `bytes`; none for a type without values or too few bytes. -/
def decode? (t : SlotType) (bytes : List UInt8) : Option Int32 :=
  if t.isScalar && t.size ≤ bytes.length then
    some (t.valueOfBits (ofLittleEndian (bytes.take t.size)))
  else
    none

/-- The buffer after a value was to be stored at `start`, and whether it was: a type without values
stores nothing. -/
def store (t : SlotType) (v : Int32) (b : Buffer) (start : Nat) : Bool × Buffer :=
  match t with
  | void | cluster => (false, b)
  | _ => b.put start (t.encode v)

def store? (t : SlotType) (v : Int32) (b : Buffer) (start : Nat) : Option Buffer :=
  let (stored, b') := t.store v b start
  if stored then some b' else none

/-- What a value becomes when it is stored and read back. -/
def truncate (t : SlotType) (v : Int32) : Int32 :=
  match t with
  | ubyte => Int32.ofNat v.toUInt32.toUInt8.toNat
  | sbyte => v.toInt8.toInt32
  | uword | array => Int32.ofNat v.toUInt32.toUInt16.toNat
  | sword => v.toInt16.toInt32
  | ulong | slong | mutex => v
  | float => Single.limited (v.toInt < 0) (Single.nearest v.toInt.natAbs)
  | void | cluster => 0

@[simp] theorem length_encode (t : SlotType) (v : Int32) : (t.encode v).length = t.size := by
  simp [encode]

theorem store_eq (t : SlotType) (v : Int32) (b : Buffer) (start : Nat) :
    t.store v b start = if t.isScalar then b.put start (t.encode v) else (false, b) := by
  cases t <;> rfl

/-- A value that there is room for is written. -/
theorem store_of_fits {t : SlotType} {b : Buffer} {start : Nat} (ht : t.isScalar = true)
    (hfits : start + t.size ≤ b.size) (v : Int32) :
    t.store v b start = (true, b.patch start (t.encode v)) := by
  rw [store_eq, if_pos ht, Buffer.put, if_pos (by rwa [length_encode])]

@[simp] theorem size_store (t : SlotType) (v : Int32) (b : Buffer) (start : Nat) :
    (t.store v b start).2.size = b.size := by
  rw [store_eq]
  split
  · exact b.size_put start _
  · rfl

end SlotType

end BrickMachine
