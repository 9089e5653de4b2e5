import BrickMachine.Image.Basic

/-!
# Images as bytes

An image file holds, one after the other: a format string of fifteen bytes and the version, the
nine header words, the number of clumps and of code words, the table of contents, the default
data, the clump records, the dependents of all clumps, and the code. A pad byte follows default
data of odd length, so that the clump records stand at an even offset.

The counts are taken from the parts of the image. A part with more than 65535 elements, or a
clump with more than 255 dependents, has no faithful form.
-/

namespace BrickMachine

namespace Image

def formatString : List UInt8 :=
  [77, 105, 110, 100, 115, 116, 111, 114, 109, 115, 78, 88, 84, 0, 0]

def tocEntryBytes (e : TocEntry) : List UInt8 :=
  e.slotType.tag :: e.flags :: wordBytes e.descriptor

/-- The bytes of a clump record. The dependents themselves follow after all records. -/
def clumpBytes (c : Clump) : List UInt8 :=
  c.fireCount :: UInt8.ofNat c.dependents.length :: wordBytes c.codeStart

/-- The byte that brings default data of odd length to an even one. -/
def padding (dataLength : Nat) : List UInt8 :=
  if dataLength % 2 = 1 then [0] else []

def headerWords (i : Image) : List UInt16 :=
  [UInt16.ofNat i.toc.size, i.header.initialSize, i.header.staticSize,
   UInt16.ofNat i.defaultData.size, i.header.dynamicDefaultOffset, i.header.dynamicDefaultSize,
   i.header.memoryManagerHead, i.header.memoryManagerTail, i.header.dopeVectorOffset]

def toBytes (i : Image) : List UInt8 :=
  formatString ++ [i.version]
    ++ i.headerWords.flatMap wordBytes
    ++ wordBytes (UInt16.ofNat i.clumps.size) ++ wordBytes (UInt16.ofNat i.code.size)
    ++ i.toc.toList.flatMap tocEntryBytes
    ++ i.defaultData.toList ++ padding i.defaultData.size
    ++ i.clumps.toList.flatMap clumpBytes
    ++ i.clumps.toList.flatMap Clump.dependents
    ++ i.code.toList.flatMap wordBytes

end Image

end BrickMachine
