import BrickMachine.Memory.Basic

/-!
# Loading memory from an image

The table of contents is walked once to find the entries that own static storage. Void and
cluster entries own none. An array owns its index, and what follows it declares its elements:
any number of further arrays, one more entry, and if that one is a cluster also its members.
None of these owns storage.

Each slot then starts at zero, if its flag says so, or takes its bytes from the front of what is
left of the default data. The arrays come from the dynamic part of the default data, where
addresses count from the start of the slots.

`load` answers `Corruption` for an image whose parts contradict each other.
-/

namespace BrickMachine

namespace Memory

/-! ### Slots -/

/-- Where a walk over the table of contents stands. -/
inductive Walk where
  /-- The next `n` entries are members of an element declaration; what follows are slots. -/
  | skipping (n : Nat)
  /-- The next entry continues the element declaration of an array. -/
  | element
  deriving DecidableEq, Repr

/-- The numbered entries that own storage, where the first entry given has number `i`. -/
def ownersFrom : Walk → Nat → List TocEntry → List (Nat × TocEntry)
  | _, _, [] => []
  | .skipping (n + 1), i, _ :: es => ownersFrom (.skipping n) (i + 1) es
  | .skipping 0, i, e :: es =>
    match e.slotType with
    | .void | .cluster => ownersFrom (.skipping 0) (i + 1) es
    | .array => (i, e) :: ownersFrom .element (i + 1) es
    | _ => (i, e) :: ownersFrom (.skipping 0) (i + 1) es
  | .element, i, e :: es =>
    match e.slotType with
    | .array => ownersFrom .element (i + 1) es
    | .cluster => ownersFrom (.skipping e.descriptor.toNat) (i + 1) es
    | _ => ownersFrom (.skipping 0) (i + 1) es

def owners (toc : List TocEntry) : List (Nat × TocEntry) :=
  ownersFrom (.skipping 0) 0 toc

/-- The static buffer with the initial value of every slot, for default data that starts with
the values of these slots. -/
def fillStatics (statics : Buffer) (defaults : List UInt8) :
    List (Nat × TocEntry) → Except Corruption Buffer
  | [] => .ok statics
  | (i, e) :: slots =>
    let start := e.descriptor.toNat
    let size := e.slotType.size
    if statics.size < start + size then
      .error ⟨.staticData, .slotOutside i start⟩
    else if e.hasZeroDefault then
      fillStatics (statics.patch start (List.replicate size 0)) defaults slots
    else
      let value := defaults.take size
      if value.length = size then
        fillStatics (statics.patch start value) (defaults.drop size) slots
      else
        .error ⟨.staticData, .noDefault i⟩

/-! ### Arrays -/

def mapped (image : Image) (address len : Nat) (part : DynamicPart) :
    Except Corruption (List UInt8) :=
  let h := image.header
  let start : Int := address - (h.staticSize.toNat - h.dynamicDefaultOffset.toNat : Int)
  if 0 ≤ start ∧ start.toNat + len ≤ image.defaultData.size then
    .ok (Buffer.slice image.defaultData start.toNat len)
  else
    .error ⟨.dopeVectors, .outsideDefaults part address⟩

def dopeVectorsOf (bytes : List UInt8) : Nat → List DopeVector
  | 0 => []
  | n + 1 =>
    match DopeVector.ofBytes? bytes with
    | some d => d :: dopeVectorsOf (bytes.drop DopeVector.recordSize) n
    | none => []

def loadBlock (image : Image) (d : DopeVector) : Except Corruption Block :=
  if d.elementCount = 0 then
    .ok ⟨d, #[]⟩
  else do
    let data ← mapped image d.offset.toNat d.byteLength .contents
    .ok ⟨d, data.toArray⟩

/-- The dope vector table at an address. Its first record says how many there are. -/
def loadTable (image : Image) (address : Nat) : Except Corruption (List DopeVector) := do
  let first ← mapped image address DopeVector.recordSize .table
  let count := (DopeVector.ofBytes? first).elim 0 (·.elementCount.toNat)
  if count = 0 then
    .error ⟨.dopeVectors, .emptyTable⟩
  else
    let bytes ← mapped image address (count * DopeVector.recordSize) .table
    .ok (dopeVectorsOf bytes count)

def loneTable (image : Image) : DopeVector where
  offset := image.header.dopeVectorOffset
  elementSize := UInt16.ofNat DopeVector.recordSize
  elementCount := 1
  backPointer := 0
  linkIndex := 0

/-- The blocks of an image. An image without dynamic defaults has the table's own block only. -/
def loadBlocks (image : Image) : Except Corruption (List Block) :=
  if image.header.dynamicDefaultSize = 0 then
    .ok [⟨loneTable image, #[]⟩]
  else do
    let vectors ← loadTable image image.header.dopeVectorOffset.toNat
    match vectors with
    | [] => .error ⟨.dopeVectors, .emptyTable⟩
    | table :: arrays =>
      let blocks ← arrays.mapM (loadBlock image)
      .ok (⟨table, #[]⟩ :: blocks)

def load (image : Image) : Except Corruption Memory := do
  let slots := owners image.toc.toList
  let zeros : Buffer := Array.replicate image.header.staticSize.toNat 0
  let statics ← fillStatics zeros image.defaultData.toList slots
  let blocks ← loadBlocks image
  .ok { toc := image.toc, statics, blocks := blocks.toArray, slots := slots.map Prod.fst }

end Memory

end BrickMachine
