import BrickMachine.Image.Writer

/-!
# Reading images

`Image.ofBytes` reads an image from the front of a list of bytes. Whatever follows the code is
ignored, and so are the value of the pad byte and the version. A list that ends too early fails
with the section that the missing byte belongs to.
-/

namespace BrickMachine

/-- A reader takes what it needs from the front of the bytes, or says what is wrong with them. -/
abbrev Reader (α : Type) := StateT (List UInt8) (Except Corruption) α

namespace Reader

def byte (s : Section) : Reader UInt8
  | b :: rest => .ok (b, rest)
  | [] => .error ⟨s, .endOfFile⟩

def word (s : Section) : Reader UInt16
  | low :: high :: rest => .ok (wordOfBytes low high, rest)
  | _ => .error ⟨s, .endOfFile⟩

def block (s : Section) (n : Nat) : Reader (List UInt8) := fun bytes =>
  let front := bytes.take n
  if front.length = n then .ok (front, bytes.drop n) else .error ⟨s, .endOfFile⟩

def times {α : Type} (r : Reader α) : Nat → Reader (List α)
  | 0 => pure []
  | n + 1 => do
    let x ← r
    let xs ← times r n
    pure (x :: xs)

/-- What a reader gives, with the number of bytes that it takes. -/
def withLength {α : Type} (r : Reader α) : Reader (α × Nat) := do
  let all ← get
  let x ← r
  let left ← get
  pure (x, all.length - left.length)

/-- The fifteen bytes of the format string and the version after them. -/
def version : Reader UInt8 := do
  let bytes ← block .header (Image.formatString.length + 1)
  if bytes.take Image.formatString.length = Image.formatString then
    pure (bytes.getLast?.getD 0)
  else
    throw ⟨.header, .noFormatString⟩

def header : Reader Header := do
  let field := word .dataspaceHeader
  let entryCount ← field
  let initialSize ← field
  let staticSize ← field
  let defaultDataSize ← field
  let dynamicDefaultOffset ← field
  let dynamicDefaultSize ← field
  let memoryManagerHead ← field
  let memoryManagerTail ← field
  let dopeVectorOffset ← field
  pure { entryCount, initialSize, staticSize, defaultDataSize, dynamicDefaultOffset,
         dynamicDefaultSize, memoryManagerHead, memoryManagerTail, dopeVectorOffset }

def tocEntry (index : Nat) : Reader TocEntry := do
  let tag ← byte .tableOfContents
  let flags ← byte .tableOfContents
  let descriptor ← word .tableOfContents
  match SlotType.ofTag? tag with
  | some slotType => pure { slotType, flags, descriptor }
  | none => throw ⟨.tableOfContents, .unknownType index tag⟩

def tocEntries (index : Nat) : Nat → Reader (List TocEntry)
  | 0 => pure []
  | n + 1 => do
    let e ← tocEntry index
    let es ← tocEntries (index + 1) n
    pure (e :: es)

/-- A clump record: the clump without its dependents, and how many of them there are. -/
def clumpRecord : Reader (Clump × Nat) := do
  let fireCount ← byte .clumpRecords
  let dependentCount ← byte .clumpRecords
  let codeStart ← word .clumpRecords
  pure ({ fireCount, dependents := [], codeStart }, dependentCount.toNat)

def dependents : List (Clump × Nat) → Reader (List Clump)
  | [] => pure []
  | (c, n) :: rest => do
    let ids ← block .clumpDependents n
    let cs ← dependents rest
    pure ({ c with dependents := ids } :: cs)

/-- What stands before the clump records of an image. -/
structure Front where
  version : UInt8
  header : Header
  clumpCount : UInt16
  wordCount : UInt16
  toc : List TocEntry
  defaultData : List UInt8

def front : Reader Front := do
  let version ← version
  let header ← header
  let clumpCount ← word .codeHeader
  let wordCount ← word .codeHeader
  let toc ← tocEntries 0 header.entryCount.toNat
  let defaultData ← block .defaultData header.defaultDataSize.toNat
  pure { version, header, clumpCount, wordCount, toc, defaultData }

def back (f : Front) : Reader Image := do
  let records ← times clumpRecord f.clumpCount.toNat
  let clumps ← dependents records
  let code ← times (word .code) f.wordCount.toNat
  pure
    { version := f.version
      header := f.header
      toc := f.toc.toArray
      defaultData := f.defaultData.toArray
      clumps := clumps.toArray
      code := code.toArray }

/-- A whole image. After an odd number of bytes one more is taken, so that the clump records are
read from an even position. -/
def image : Reader Image := do
  let (f, length) ← withLength front
  let _ ← block .clumpRecords (length % 2)
  back f

end Reader

def Image.ofBytes (bytes : List UInt8) : Except Corruption Image :=
  (Reader.image.run bytes).map Prod.fst

end BrickMachine
