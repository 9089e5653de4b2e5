/-!
# Slot types

Every entry of a program's dataspace has one of eleven types. Seven of them hold a number of
their own, a mutex counts as a number too, and `array`, `cluster` and `void` do not: an array
slot holds the index of a dope vector, a cluster only announces the entries after it, and void
has no storage.

`tag` is the type's number in an image and `ofTag?` reads it back. A type has two spellings:
`keyword` in structured output, `name` in listings and messages.
-/

namespace BrickMachine

inductive SlotType where
  | void | ubyte | sbyte | uword | sword | ulong | slong | array | cluster | mutex | float
  deriving DecidableEq, Repr

namespace SlotType

def tag : SlotType → UInt8
  | void => 0
  | ubyte => 1
  | sbyte => 2
  | uword => 3
  | sword => 4
  | ulong => 5
  | slong => 6
  | array => 7
  | cluster => 8
  | mutex => 9
  | float => 10

def ofTag? : UInt8 → Option SlotType
  | 0 => some void
  | 1 => some ubyte
  | 2 => some sbyte
  | 3 => some uword
  | 4 => some sword
  | 5 => some ulong
  | 6 => some slong
  | 7 => some array
  | 8 => some cluster
  | 9 => some mutex
  | 10 => some float
  | _ => none

@[simp] theorem ofTag?_tag (t : SlotType) : ofTag? t.tag = some t := by
  cases t <;> rfl

theorem tag_of_ofTag? {n : UInt8} {t : SlotType} (h : ofTag? n = some t) : t.tag = n := by
  unfold ofTag? at h
  split at h <;> first | (cases h; rfl) | cases h

/-- Bytes of the slot's own storage. For an array this is its dope vector index. -/
def size : SlotType → Nat
  | ubyte | sbyte => 1
  | uword | sword | array => 2
  | ulong | slong | mutex | float => 4
  | void | cluster => 0

/-- A scalar slot can be read as one number; for an array that is its dope vector index. -/
def isScalar : SlotType → Bool
  | void | cluster => false
  | _ => true

/-- A flat slot holds a plain number that can be stored as well as read. -/
def isFlat : SlotType → Bool
  | void | cluster | array => false
  | _ => true

theorem isScalar_of_isFlat {t : SlotType} (h : t.isFlat = true) : t.isScalar = true := by
  cases t <;> simp_all [isFlat, isScalar]

theorem isFlat_of_isScalar {t : SlotType} (h : t.isScalar = true) (harray : t ≠ array) :
    t.isFlat = true := by
  cases t <;> simp_all [isFlat, isScalar]

def keyword : SlotType → String
  | void => "void"
  | ubyte => "ubyte"
  | sbyte => "sbyte"
  | uword => "uword"
  | sword => "sword"
  | ulong => "ulong"
  | slong => "slong"
  | array => "array"
  | cluster => "cluster"
  | mutex => "mutex"
  | float => "float"

/-- The spelling in listings and messages: at most five letters. -/
def name : SlotType → String
  | cluster => "clust"
  | t => t.keyword

def all : List SlotType :=
  [void, ubyte, sbyte, uword, sword, ulong, slong, array, cluster, mutex, float]

def ofKeyword? (s : String) : Option SlotType :=
  all.find? (fun t => t.keyword == s)

end SlotType

end BrickMachine
