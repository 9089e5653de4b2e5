import BrickMachine.Proofs.Bounds.Basic
import BrickMachine.Proofs.Memory.Frame
import Mathlib.Data.List.Basic

/-!
# Memory within its bounds

Images are not to be trusted: offsets and dope vectors may be anything, and the parts of an image
need not fit each other. No access to memory relies on them. A slot is compared with the size of the
static buffer, the index of a block with the number of blocks and an element with the number of
elements and the size of its block, each before it is used. The numbers in an image are words, so
that their sums and products are no more than machine words.

The vectors of the blocks and their contents are two lists here, and an index is looked up in both.
-/

namespace BrickMachine

abbrev GuardedAccess (α : Type) := GuardedExcept MemoryError α

theorem SlotType.size_le (t : SlotType) : t.size ≤ 4 := by
  cases t <;> decide

namespace Guarded

open GuardedExcept

variable {m : Memory} {e i n : Nat} {v : Int32}

theorem slice_toList {b : Buffer} {start len : Nat} (h : start + len ≤ b.size) :
    slice b.toList start (start + len) = .ok (b.slice start len) := by
  rw [slice_eq (Nat.le_add_right _ _) (by rwa [Array.length_toList]), Buffer.slice,
    Array.toList_extract, List.extract_eq_take_drop]

theorem slice_toList_from {b : Buffer} {start : Nat} (h : start ≤ b.size) :
    slice b.toList start b.size = .ok (b.toList.drop start) := by
  have hlength : (b.toList.drop start).length = b.size - start := by
    rw [List.length_drop, Array.length_toList]
  rw [slice_eq h (Nat.le_of_eq Array.length_toList.symm),
    List.take_of_length_le (Nat.le_of_eq hlength)]

/-! ### Slots -/

def slotBytes (m : Memory) (t : TocEntry) : GuardedAccess (List UInt8) := do
  let start := t.descriptor.toNat
  let stop ← guard (add start t.slotType.size)
  if stop ≤ m.statics.size then
    guard (slice m.statics.toList start stop)
  else
    throw (.outOfRange .staticOffset start m.statics.size)

theorem slotBytes_agrees (m : Memory) (t : TocEntry) : Agrees (slotBytes m t) (m.slotBytes t) := by
  have hstart := t.descriptor.toNat_lt
  have hsize := t.slotType.size_le
  apply Agrees.guard_bind (add_eq (by omega))
  unfold Memory.slotBytes
  dsimp only
  split
  case isTrue hfits =>
    rw [slice_toList hfits]
    rfl
  case isFalse => exact Agrees.throw _

def scalar (m : Memory) (e : Nat) : GuardedAccess Int32 := do
  let t ← safe (m.entry e)
  if t.slotType.isScalar then
    let bytes ← slotBytes m t
    match t.slotType.decode? bytes with
    | some v => pure v
    | none => throw (.wrongType e t.slotType .scalar)
  else
    throw (.wrongType e t.slotType .scalar)

theorem decode?_slice {t : SlotType} {b : Buffer} {start : Nat} (ht : t.isScalar = true)
    (h : start + t.size ≤ b.size) :
    t.decode? (b.slice start t.size)
      = some (t.valueOfBits (ofLittleEndian (b.slice start t.size))) := by
  have hlength := Buffer.length_slice b start t.size h
  have htake : (b.slice start t.size).take t.size = b.slice start t.size :=
    List.take_of_length_le (Nat.le_of_eq hlength)
  rw [SlotType.decode?, ht, htake, hlength]
  simp

theorem scalar_agrees (m : Memory) (e : Nat) : Agrees (scalar m e) (m.scalar e) := by
  apply (Agrees.safe (m.entry e)).bind
  intro t ht
  split
  case isTrue hscalar =>
    apply (slotBytes_agrees m t).bind
    intro bytes hbytes
    obtain ⟨hfits, rfl⟩ := Memory.slotBytes_eq_ok_iff.1 hbytes
    rw [decode?_slice hscalar hfits]
    exact Agrees.pure _
  case isFalse => exact Agrees.throw _

def store (t : SlotType) (v : Int32) (room : List UInt8) : GuardedAccess (Option (List UInt8)) :=
  if (t.encode v).length ≤ room.length then do
    let target ← guard (slice room 0 (t.encode v).length)
    let bytes ← guard (copy target (t.encode v))
    pure (some bytes)
  else
    pure none

theorem store_agrees (t : SlotType) (v : Int32) (room : List UInt8) :
    Agrees (store t v room) (.ok (if t.size ≤ room.length then some (t.encode v) else none)) := by
  unfold store
  rw [SlotType.length_encode]
  split
  case isTrue h =>
    apply Agrees.guard_bind (slice_eq (Nat.zero_le _) h)
    apply Agrees.guard_bind (copy_eq _)
    · exact Agrees.pure _
    · rw [SlotType.length_encode, List.drop_zero, Nat.sub_zero, List.length_take, Nat.min_eq_left h]
  case isFalse => exact Agrees.pure _

def setScalar (m : Memory) (e : Nat) (v : Int32) : GuardedAccess Memory := do
  let t ← safe (m.entry e)
  let start := t.descriptor.toNat
  let outside := MemoryError.outOfRange .staticOffset start m.statics.size
  if t.slotType.isFlat then
    if start ≤ m.statics.size then
      let room ← guard (slice m.statics.toList start m.statics.size)
      match ← store t.slotType v room with
      | some bytes => pure { m with statics := m.statics.patch start bytes }
      | none => throw outside
    else
      throw outside
  else
    throw (.wrongType e t.slotType .scalarTarget)

theorem setScalar_agrees (m : Memory) (e : Nat) (v : Int32) :
    Agrees (setScalar m e v) (m.setScalar e v) := by
  unfold setScalar Memory.setScalar Memory.slotTarget
  cases m.entry e with
  | error err => rfl
  | ok t =>
      change Agrees (if t.slotType.isFlat then _ else _)
        ((if t.slotType.isFlat then _ else _ : Except MemoryError Memory.SlotTarget).map _)
      by_cases hflat : t.slotType.isFlat
      · rw [if_pos hflat, if_pos hflat]
        by_cases hstart : t.descriptor.toNat ≤ m.statics.size
        · have hlength : t.slotType.size ≤ (m.statics.toList.drop t.descriptor.toNat).length ↔
              t.descriptor.toNat + t.slotType.size ≤ m.statics.size := by
            rw [List.length_drop, Array.length_toList]
            omega
          rw [if_pos hstart]
          apply Agrees.guard_bind (slice_toList_from hstart)
          apply Agrees.ok_bind (store_agrees t.slotType v _)
          by_cases hfits : t.descriptor.toNat + t.slotType.size ≤ m.statics.size
          · rw [if_pos hfits, if_pos (hlength.2 hfits), Except.map,
              Memory.putSlot_of_fits hflat hfits]
            exact Agrees.pure _
          · rw [if_neg hfits, if_neg (mt hlength.1 hfits)]
            exact Agrees.throw _
        · have hout : ¬ t.descriptor.toNat + t.slotType.size ≤ m.statics.size := by omega
          rw [if_neg hstart, if_neg hout]
          exact Agrees.throw _
      · rw [if_neg hflat, if_neg hflat]
        exact Agrees.throw _

/-! ### Arrays -/

def vectors (m : Memory) : List DopeVector := m.blocks.toList.map (·.vector)

def contents (m : Memory) : List Buffer := m.blocks.toList.map (·.data)

theorem read_vectors {d : Nat} (h : d < m.blocks.size) :
    read (vectors m) d = .ok (m.block d).vector := by
  apply read_eq
  rw [vectors, List.getElem?_map, Array.getElem?_toList, Memory.block, Array.getElem?_eq_getElem h]
  rfl

theorem read_contents {d : Nat} (h : d < m.blocks.size) :
    read (contents m) d = .ok (m.block d).data := by
  apply read_eq
  rw [contents, List.getElem?_map, Array.getElem?_toList, Memory.block, Array.getElem?_eq_getElem h]
  rfl

def blockIndex (m : Memory) (e : Nat) : GuardedAccess Nat := do
  let t ← safe (m.entry e)
  if t.slotType = .array then
    let bytes ← slotBytes m t
    let low ← guard (read bytes 0)
    let high ← guard (read bytes 1)
    let index := (wordOfBytes low high).toNat
    if 0 < index ∧ index < m.blocks.size then
      pure index
    else
      throw (.outOfRange .dopeVector index m.blocks.size)
  else
    throw (.wrongType e t.slotType .array)

theorem toNat_wordOfBytes (low high : UInt8) :
    (wordOfBytes low high).toNat = ofLittleEndian [low, high] := by
  have hlow := low.toNat_lt
  have hhigh := high.toNat_lt
  simp only [wordOfBytes, UInt16.toNat_ofNat', ofLittleEndian]
  omega

theorem blockIndex_agrees (m : Memory) (e : Nat) : Agrees (blockIndex m e) (m.blockIndex e) := by
  apply (Agrees.safe (m.entry e)).bind
  intro t ht
  split
  case isTrue harray =>
    apply (slotBytes_agrees m t).bind
    intro bytes hbytes
    obtain ⟨hfits, rfl⟩ := Memory.slotBytes_eq_ok_iff.1 hbytes
    have hlength := Buffer.length_slice m.statics t.descriptor.toNat t.slotType.size hfits
    rw [harray] at hlength ⊢
    generalize m.statics.slice t.descriptor.toNat SlotType.array.size = bytes at hlength
    obtain ⟨low, high, rfl⟩ := List.length_eq_two.1 hlength
    apply Agrees.guard_bind (b := low) rfl
    apply Agrees.guard_bind (b := high) rfl
    rw [toNat_wordOfBytes]
    dsimp only
    split
    · exact Agrees.pure _
    · exact Agrees.throw _
  case isFalse => exact Agrees.throw _

def elementType (m : Memory) (e : Nat) : GuardedAccess SlotType := do
  let t ← safe (m.entry e)
  if t.slotType = .array then
    let next ← guard (add e 1)
    let element ← safe (m.slotType next)
    if element.isFlat then
      pure element
    else
      throw (.wrongType next element .arrayElement)
  else
    throw (.wrongType e t.slotType .array)

theorem elementType_agrees (m : Memory) (he : e < 2 ^ 32) :
    Agrees (elementType m e) (m.elementType e) := by
  apply (Agrees.safe (m.entry e)).bind
  intro t ht
  split
  case isTrue harray =>
    apply Agrees.guard_bind (add_eq (by omega))
    apply (Agrees.safe (m.slotType (e + 1))).bind
    intro element helement
    split
    · exact Agrees.pure _
    · exact Agrees.throw _
  case isFalse => exact Agrees.throw _

def arrayLength (m : Memory) (e : Nat) : GuardedAccess Nat := do
  let d ← blockIndex m e
  let vector ← guard (read (vectors m) d)
  pure vector.elementCount.toNat

theorem arrayLength_agrees (m : Memory) (e : Nat) : Agrees (arrayLength m e) (m.arrayLength e) := by
  apply (blockIndex_agrees m e).map
  intro d hd
  exact Agrees.guard_bind (read_vectors (Memory.blockIndex_lt hd)) (Agrees.pure _)

def arrayData (m : Memory) (e : Nat) : GuardedAccess Buffer := do
  let d ← blockIndex m e
  guard (read (contents m) d)

theorem arrayData_agrees (m : Memory) (e : Nat) : Agrees (arrayData m e) (m.arrayData e) := by
  apply (blockIndex_agrees m e).map
  intro d hd
  rw [read_contents (Memory.blockIndex_lt hd)]
  rfl

def elementRange (m : Memory) (d i : Nat) (t : SlotType) : GuardedAccess (Nat × Nat) := do
  let vector ← guard (read (vectors m) d)
  let count := vector.elementCount.toNat
  if i < count then
    let start ← guard (mul i vector.elementSize.toNat)
    let stop ← guard (add start t.size)
    let data ← guard (read (contents m) d)
    if stop ≤ data.size then
      pure (start, stop)
    else
      throw (.outOfRange .arrayOffset stop data.size)
  else
    throw (.outOfRange .arrayIndex i count)

/-- The product of two words of an image is a machine word. -/
theorem product_le (h : i ≤ 65535) (size : UInt16) : i * size.toNat ≤ 65535 * 65535 := by
  have hsize := size.toNat_lt
  exact Nat.mul_le_mul h (by omega)

theorem elementRange_agrees {d : Nat} (hd : d < m.blocks.size) (i : Nat) (t : SlotType) :
    Agrees (elementRange m d i t)
      (if i < (m.block d).vector.elementCount.toNat then
        if i * (m.block d).vector.elementSize.toNat + t.size ≤ (m.block d).data.size then
          .ok (i * (m.block d).vector.elementSize.toNat,
            i * (m.block d).vector.elementSize.toNat + t.size)
        else
          .error (.outOfRange .arrayOffset (i * (m.block d).vector.elementSize.toNat + t.size)
            (m.block d).data.size)
      else
        .error (.outOfRange .arrayIndex i (m.block d).vector.elementCount.toNat)) := by
  apply Agrees.guard_bind (read_vectors hd)
  dsimp only
  split
  case isTrue hi =>
    have hcount := (m.block d).vector.elementCount.toNat_lt
    have hstart := product_le (show i ≤ 65535 by omega) (m.block d).vector.elementSize
    have ht := t.size_le
    apply Agrees.guard_bind (mul_eq (by omega))
    apply Agrees.guard_bind (add_eq (by omega))
    apply Agrees.guard_bind (read_contents hd)
    split
    · exact Agrees.pure _
    · exact Agrees.throw _
  case isFalse => exact Agrees.throw _

def element (m : Memory) (e i : Nat) : GuardedAccess Int32 := do
  let t ← elementType m e
  let d ← blockIndex m e
  let (start, stop) ← elementRange m d i t
  let data ← guard (read (contents m) d)
  let bytes ← guard (slice data.toList start stop)
  match t.decode? bytes with
  | some v => pure v
  | none => throw (.wrongType (e + 1) t .arrayElement)

def setElement (m : Memory) (e i : Nat) (v : Int32) : GuardedAccess Memory := do
  let t ← elementType m e
  let d ← blockIndex m e
  let (start, stop) ← elementRange m d i t
  let data ← guard (read (contents m) d)
  let room ← guard (slice data.toList start stop)
  match ← store t v room with
  | some bytes => pure (m.modifyBlock d fun b => { b with data := b.data.patch start bytes })
  | none => pure m

theorem map_bind {ε α β γ : Type} (x : Except ε α) (f : α → Except ε β) (g : β → γ) :
    (x >>= f).map g = x >>= fun a => (f a).map g := by
  cases x <;> rfl

/-- What an access does with the bytes of an element, once there are some. -/
theorem onElement_agrees {α : Type} {f : Memory.ElementTarget → α}
    {g : SlotType → Nat → Nat × Nat → GuardedAccess α} (he : e < 2 ^ 32)
    (h : ∀ t d start, d < m.blocks.size → t.isFlat = true →
      start + t.size ≤ (m.block d).data.size →
      Agrees (g t d (start, start + t.size)) (.ok (f ⟨t, d, start⟩))) :
    Agrees (do
      let t ← elementType m e
      let d ← blockIndex m e
      let range ← elementRange m d i t
      g t d range) ((m.elementTarget e i).map f) := by
  unfold Memory.elementTarget
  rw [map_bind]
  apply (elementType_agrees m he).bind
  intro t ht
  rw [map_bind]
  apply (blockIndex_agrees m e).bind
  intro d hd
  obtain ⟨_, _, _, _, _, _, hflat⟩ := Memory.elementType_eq_ok_iff.1 ht
  have hrange := elementRange_agrees (Memory.blockIndex_lt hd) i t
  dsimp only
  by_cases hi : i < (m.block d).vector.elementCount.toNat
  · rw [if_pos hi] at hrange ⊢
    by_cases hfits : i * (m.block d).vector.elementSize.toNat + t.size ≤ (m.block d).data.size
    · rw [if_pos hfits] at hrange ⊢
      exact Agrees.ok_bind hrange (h t d _ (Memory.blockIndex_lt hd) hflat hfits)
    · rw [if_neg hfits] at hrange ⊢
      exact Agrees.error_bind hrange
  · rw [if_neg hi] at hrange ⊢
    exact Agrees.error_bind hrange

theorem element_agrees (m : Memory) (i : Nat) (he : e < 2 ^ 32) :
    Agrees (element m e i) (m.element e i) := by
  apply onElement_agrees he
  intro t d start hd hflat hfits
  apply Agrees.guard_bind (read_contents hd)
  apply Agrees.guard_bind (slice_toList hfits)
  rw [decode?_slice (SlotType.isScalar_of_isFlat hflat) hfits]
  exact Agrees.pure _

/-- Only what becomes of the block itself counts. -/
theorem modifyBlock_congr {d : Nat} {f g : Block → Block} (h : f (m.block d) = g (m.block d)) :
    m.modifyBlock d f = m.modifyBlock d g := by
  unfold Memory.modifyBlock
  congr 1
  apply Array.ext_getElem?
  intro k
  rw [Array.getElem?_modify, Array.getElem?_modify]
  split
  case isTrue hk =>
    subst hk
    unfold Memory.block at h
    cases hblock : m.blocks[d]? with
    | none => rfl
    | some b =>
        rw [hblock] at h
        exact congrArg some h
  case isFalse => rfl

theorem setElement_agrees (m : Memory) (i : Nat) (v : Int32) (he : e < 2 ^ 32) :
    Agrees (setElement m e i v) (m.setElement e i v) := by
  apply onElement_agrees he
  intro t d start hd hflat hfits
  apply Agrees.guard_bind (read_contents hd)
  apply Agrees.guard_bind (slice_toList hfits)
  apply Agrees.ok_bind (store_agrees t v _)
  have hput : m.putElement ⟨t, d, start⟩ v
      = m.modifyBlock d fun b => { b with data := b.data.patch start (t.encode v) } := by
    apply modifyBlock_congr
    rw [SlotType.store_of_fits (SlotType.isScalar_of_isFlat hflat) hfits]
  rw [if_pos (Nat.le_of_eq (Buffer.length_slice _ _ _ hfits).symm), hput]
  exact Agrees.pure _

theorem modifyBlock_eq_self {d : Nat} {f : Block → Block} (h : f (m.block d) = m.block d) :
    m.modifyBlock d f = m := by
  have hid : m.modifyBlock d id = m := by
    unfold Memory.modifyBlock
    have hblocks : m.blocks.modify d id = m.blocks := by
      apply Array.ext_getElem?
      intro k
      rw [Array.getElem?_modify, Option.map_id, id, ite_self]
    rw [hblocks]
  rw [modifyBlock_congr (show f (m.block d) = id (m.block d) from h), hid]

/-- The new size of an array in bytes is the product of two words of its dope vector. -/
def setArrayLength (m : Memory) (e n : Nat) : GuardedAccess Memory := do
  let d ← blockIndex m e
  if n ≤ Memory.maxArrayLength then
    let vector ← guard (read (vectors m) d)
    if vector.elementCount = UInt16.ofNat n then
      pure m
    else
      let vector := { vector with elementCount := UInt16.ofNat n }
      let size ← guard (mul vector.elementSize.toNat vector.elementCount.toNat)
      let data ← guard (read (contents m) d)
      pure (m.modifyBlock d fun _ => { vector, data := data.resize size })
  else
    throw (.outOfRange .arrayLength n Memory.maxArrayLength)

theorem setArrayLength_agrees (m : Memory) (e n : Nat) :
    Agrees (setArrayLength m e n) (m.setArrayLength e n) := by
  unfold Memory.setArrayLength Memory.arrayTarget
  rw [map_bind]
  apply (blockIndex_agrees m e).bind
  intro d hd
  have hblock := Memory.blockIndex_lt hd
  by_cases hn : n ≤ Memory.maxArrayLength
  · rw [if_pos hn, if_pos hn]
    apply Agrees.guard_bind (read_vectors hblock)
    change Agrees _ (.ok (m.modifyBlock d (·.resize n)))
    split
    case isTrue hcount =>
      have hsame : (m.block d).resize n = m.block d := if_pos hcount
      rw [modifyBlock_eq_self hsame]
      exact Agrees.pure _
    case isFalse hcount =>
      have hsize := (m.block d).vector.elementSize.toNat_lt
      have hproduct := product_le (show (m.block d).vector.elementSize.toNat ≤ 65535 by omega)
        (UInt16.ofNat n)
      apply Agrees.guard_bind (mul_eq (Nat.lt_of_le_of_lt hproduct (by decide)))
      apply Agrees.guard_bind (read_contents hblock)
      apply Agrees.pure_of_eq
      apply modifyBlock_congr
      exact (if_neg hcount).symm
  · rw [if_neg hn, if_neg hn]
    exact Agrees.throw _

end Guarded

end BrickMachine
