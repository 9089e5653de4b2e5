import BrickMachine.Bytes

/-!
# Dope vectors

A dope vector describes one array: where its contents lie, how long an element is and how many
there are. The table of all dope vectors is a sequence of ten-byte records, and record 0 describes
the table itself.
-/

namespace BrickMachine

/-- The description of an array. A running program uses the element size and count only. -/
structure DopeVector where
  offset : UInt16
  elementSize : UInt16
  elementCount : UInt16
  backPointer : UInt16
  linkIndex : UInt16
  deriving DecidableEq, Repr

namespace DopeVector

def recordSize : Nat := 10

def byteLength (d : DopeVector) : Nat := d.elementSize.toNat * d.elementCount.toNat

def toBytes (d : DopeVector) : List UInt8 :=
  [d.offset, d.elementSize, d.elementCount, d.backPointer, d.linkIndex].flatMap wordBytes

def ofBytes? : List UInt8 → Option DopeVector
  | o₀ :: o₁ :: s₀ :: s₁ :: c₀ :: c₁ :: b₀ :: b₁ :: l₀ :: l₁ :: _ =>
    some
      { offset := wordOfBytes o₀ o₁
        elementSize := wordOfBytes s₀ s₁
        elementCount := wordOfBytes c₀ c₁
        backPointer := wordOfBytes b₀ b₁
        linkIndex := wordOfBytes l₀ l₁ }
  | _ => none

@[simp] theorem length_toBytes (d : DopeVector) : d.toBytes.length = recordSize := rfl

end DopeVector

end BrickMachine
