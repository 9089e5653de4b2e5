import BrickMachine.Proofs.Memory.Stores
import BrickMachine.Proofs.Slot.Truncation

/-!
# What stores and loads undo

A store keeps of a value what its type has room for, and a load gives that back. The two undo each
other as far as they can: a second store of what was read changes nothing, for floats because a
number and its nearest single have the same nearest single, and a load followed by a store leaves
all bytes as they are, except for floats, whose fractions a load drops.

`stores_and_loads` collects this for buffers, for types and for the slots of a memory.
-/

namespace BrickMachine

namespace Single

theorem log2_lt_of_le {n : Nat} (h : n ≤ 0x80000000) : n.log2 < 127 := by
  by_cases hn : n = 0
  · rw [hn]
    decide
  · exact (Nat.log2_lt hn).2 (Nat.lt_of_le_of_lt h (by decide))

/-- The greatest magnitude of 32 bits is a single. -/
theorem nearest_le {n : Nat} (h : n ≤ 0x80000000) : nearest n ≤ 0x80000000 := by
  have hlimit : scaledMagnitude 0x4F000000 = 0x80000000 * scaledOne := rfl
  have hclosest := nearest_closest hlimit n
  omega

/-- Only zero goes to zero. -/
theorem nearest_pos {n : Nat} (h : 0 < n) : 0 < nearest n := by
  have hclosest := nearest_closest (show scaledMagnitude 0x3F800000 = 1 * scaledOne from rfl) n
  omega

/-- A number of 32 bits and what is read of its single have the same single. -/
theorem bits_limited_nearest {v : Int} (hlow : -0x80000000 ≤ v) (hhigh : v ≤ 0x7FFFFFFF) :
    bits (limited (v < 0) (nearest v.natAbs)).toInt = bits v := by
  have habs : v.natAbs ≤ 0x80000000 := by omega
  have hle := nearest_le habs
  have hsame := bitsOfNat_nearest (log2_lt_of_le habs) (log2_lt_of_le hle)
  rw [toInt_limited]
  unfold bits
  by_cases hv : v < 0
  · have hpos : 0 < nearest v.natAbs := nearest_pos (by omega)
    have hneg : -Int.ofNat (nearest v.natAbs) < 0 := by
      rw [Int.ofNat_eq_natCast]
      omega
    have habs' : (-Int.ofNat (nearest v.natAbs)).natAbs = nearest v.natAbs := Int.natAbs_neg _
    rw [decide_eq_true hv, if_pos rfl, Nat.min_eq_left hle, if_pos hneg, if_pos hv, habs', hsame]
  · have hsign : ¬ Int.ofNat (min (nearest v.natAbs) 0x7FFFFFFF) < 0 :=
      Int.not_lt.2 (Int.natCast_nonneg _)
    rw [decide_eq_false hv, if_neg Bool.false_ne_true, if_neg hsign, if_neg hv, ← hsame]
    change 0 + bitsOfNat (min (nearest v.natAbs) 0x7FFFFFFF) = _
    rcases Nat.lt_or_eq_of_le hle with hlt | heq
    · rw [Nat.min_eq_left (Nat.le_of_lt_succ hlt)]
    · rw [heq]
      decide

end Single

namespace SlotType

/-- A type keeps of a value that was read from bytes the same bytes, unless it is a float. -/
theorem bitsOfValue_valueOfBits {t : SlotType} (hscalar : t.isScalar = true) (hfloat : t ≠ .float)
    {n : Nat} (hn : n < byteValues t.size) :
    t.bitsOfValue (t.valueOfBits n) % byteValues t.size = n := by
  cases t with
  | void | cluster => cases hscalar
  | float => exact absurd rfl hfloat
  | sbyte =>
      have hlow := (toInt8_eq (Int8.ofNat n).toInt32).trans (Int8.toInt8_toInt32 _)
      have hbits := congrArg (fun x : Int8 => x.toBitVec.toNat) hlow
      simp at hbits
      exact hbits.trans (Nat.mod_eq_of_lt hn)
  | sword =>
      have hlow := (toInt16_eq (Int16.ofNat n).toInt32).trans (Int16.toInt16_toInt32 _)
      have hbits := congrArg (fun x : Int16 => x.toBitVec.toNat) hlow
      simp at hbits
      exact hbits.trans (Nat.mod_eq_of_lt hn)
  | _ =>
      simp [bitsOfValue, valueOfBits, byteValues, size] at hn ⊢
      omega

/-- Bytes of the same number are the same. -/
theorem eq_of_ofLittleEndian {xs ys : List UInt8} (hlength : xs.length = ys.length)
    (h : ofLittleEndian xs = ofLittleEndian ys) : xs = ys := by
  rw [← littleEndian_ofLittleEndian xs, ← littleEndian_ofLittleEndian ys, hlength, h]

theorem decode?_eq_some_iff {t : SlotType} {bytes : List UInt8} {v : Int32} :
    t.decode? bytes = some v ↔ t.isScalar = true ∧ t.size ≤ bytes.length ∧
      v = t.valueOfBits (ofLittleEndian (bytes.take t.size)) := by
  unfold decode?
  by_cases h : t.isScalar = true ∧ t.size ≤ bytes.length
  · simp [h, eq_comm]
  · simp only [Bool.and_eq_true, decide_eq_true_eq, h, if_false, reduceCtorEq, false_iff]
    exact fun ⟨hscalar, hsize, _⟩ => h ⟨hscalar, hsize⟩

/-- A value that was read from bytes is kept in the same bytes, unless they are those of a float. -/
theorem encode_of_decode? {t : SlotType} (hfloat : t ≠ .float) {bytes : List UInt8} {v : Int32}
    (h : t.decode? bytes = some v) : t.encode v = bytes.take t.size := by
  obtain ⟨hscalar, hsize, rfl⟩ := decode?_eq_some_iff.1 h
  have hlength : (bytes.take t.size).length = t.size := by simp [hsize]
  have hn : ofLittleEndian (bytes.take t.size) < byteValues t.size := by
    have hlt := ofLittleEndian_lt (bytes.take t.size)
    rwa [hlength] at hlt
  apply eq_of_ofLittleEndian
  · rw [length_encode, hlength]
  · rw [ofLittleEndian_encode, bitsOfValue_valueOfBits hscalar hfloat hn]

/-- The bytes that a type keeps for a value read as the value truncated. -/
theorem decode?_encode {t : SlotType} (hscalar : t.isScalar = true) (v : Int32) :
    t.decode? (t.encode v) = some (t.truncate v) := by
  have htake : (t.encode v).take t.size = t.encode v := by simp [List.take_of_length_le]
  refine decode?_eq_some_iff.2 ⟨hscalar, by simp, ?_⟩
  rw [htake, valueOfBits_encode]

/-- A value and what a load gives after its store are kept in the same bytes. -/
theorem encode_truncate (t : SlotType) (v : Int32) : t.encode (t.truncate v) = t.encode v := by
  by_cases hscalar : t.isScalar = true
  · by_cases hfloat : t = .float
    · subst hfloat
      exact congrArg (littleEndian 4)
        (Single.bits_limited_nearest v.le_toInt (Int.le_of_lt_add_one v.toInt_lt))
    · rw [encode_of_decode? hfloat (decode?_encode hscalar v)]
      simp [List.take_of_length_le]
  · cases t with
    | void | cluster => rfl
    | _ => exact absurd rfl hscalar

theorem truncate_truncate (t : SlotType) (v : Int32) :
    t.truncate (t.truncate v) = t.truncate v := by
  rw [← valueOfBits_encode, encode_truncate, valueOfBits_encode]

/-! ### Buffers -/

structure Stored (t : SlotType) (v : Int32) (start : Nat) (b b' : Buffer) : Prop where
  size : b'.size = b.size
  bytes : b'.slice start t.size = t.encode v
  elsewhere (i : Nat) : i < start ∨ start + t.size ≤ i → b'[i]? = b[i]?
  decoded : t.decode? (b'.toList.drop start) = some (t.truncate v)

section

variable {t : SlotType} {v : Int32} {b : Buffer} {start : Nat}

/-- A store succeeds for a type with values and with room for one. -/
theorem fst_store_iff :
    (t.store v b start).1 = true ↔ t.isScalar = true ∧ start + t.size ≤ b.size := by
  rw [store_eq, Buffer.put, length_encode]
  split
  · split <;> simp [*]
  · simp [*]

/-- A store that fails has written nothing. -/
theorem snd_store_of_failed (h : (t.store v b start).1 = false) : (t.store v b start).2 = b := by
  rw [store_eq, Buffer.put] at h ⊢
  split
  case isTrue hscalar =>
    rw [if_pos hscalar] at h
    split
    case isTrue hfits =>
      rw [if_pos hfits] at h
      cases h
    case isFalse => rfl
  case isFalse => rfl

theorem stored_store (h : (t.store v b start).1 = true) :
    t.Stored v start b (t.store v b start).2 := by
  obtain ⟨hscalar, hfits⟩ := fst_store_iff.1 h
  rw [store_of_fits hscalar hfits]
  have hlength := length_encode t v
  have hbytes : (b.patch start (t.encode v)).slice start t.size = t.encode v := by
    have hslice := b.slice_patch start (t.encode v)
    rw [hlength] at hslice
    exact hslice hfits
  have htake : ((b.patch start (t.encode v)).toList.drop start).take t.size = t.encode v := by
    rw [Buffer.slice, Array.toList_extract, List.extract_eq_take_drop,
      Nat.add_sub_cancel_left] at hbytes
    exact hbytes
  constructor
  case size => exact Buffer.size_patch _ _ _
  case bytes => exact hbytes
  case elsewhere =>
    intro i hi
    rw [Buffer.getElem?_patch, hlength, if_neg (by omega)]
  case decoded =>
    refine decode?_eq_some_iff.2 ⟨hscalar, ?_, ?_⟩
    · simp
      omega
    · rw [htake, valueOfBits_encode]

end

theorem isScalar_iff {t : SlotType} : t.isScalar = true ↔ t ≠ .void ∧ t ≠ .cluster := by
  cases t <;> simp [isScalar]

end SlotType

namespace Memory

variable {m m' : Memory} {e : Nat} {v : Int32}

/-- A store succeeds exactly for a flat slot within the static data. -/
theorem exists_setScalar_iff :
    (∃ m', m.setScalar e v = .ok m') ↔ ∃ t, m.toc[e]? = some t ∧ t.slotType.isFlat = true ∧
      t.descriptor.toNat + t.slotType.size ≤ m.statics.size := by
  constructor
  · rintro ⟨m', h⟩
    obtain ⟨target, htarget, _⟩ := map_eq_ok_iff.1 h
    obtain ⟨t, ht, hflat, hfits, _⟩ := slotTarget_eq_ok_iff.1 htarget
    exact ⟨t, ht, hflat, hfits⟩
  · rintro ⟨t, ht, hflat, hfits⟩
    exact ⟨_, map_eq_ok_iff.2 ⟨_, slotTarget_eq_ok_iff.2 ⟨t, ht, hflat, hfits, rfl⟩, rfl⟩⟩

/-- Storing the bytes that lie there anyway changes nothing. -/
theorem setScalar_self {t : TocEntry} (ht : m.toc[e]? = some t) (hflat : t.slotType.isFlat = true)
    (hfits : t.descriptor.toNat + t.slotType.size ≤ m.statics.size)
    (hbytes : t.slotType.encode v = m.statics.slice t.descriptor.toNat t.slotType.size) :
    m.setScalar e v = .ok m := by
  have hpatch : m.statics.patch t.descriptor.toNat (t.slotType.encode v) = m.statics := by
    apply Array.ext_getElem?
    intro i
    rw [Buffer.getElem?_patch, SlotType.length_encode, hbytes, Buffer.getElem?_slice]
    split
    case isTrue hi => rw [if_pos (by omega), Nat.add_sub_cancel' hi.1]
    case isFalse => rfl
  refine map_eq_ok_iff.2 ⟨_, slotTarget_eq_ok_iff.2 ⟨t, ht, hflat, hfits, rfl⟩, ?_⟩
  rw [putSlot_of_fits hflat hfits, hpatch]

/-- After a store the slot reads the value truncated, and storing that changes nothing. -/
theorem setScalar_truncate (h : m.setScalar e v = .ok m') :
    ∃ t, m.slotType e = .ok t ∧ m'.scalar e = .ok (t.truncate v) ∧
      m'.setScalar e (t.truncate v) = .ok m' := by
  obtain ⟨t, ht, hscalar⟩ := scalar_of_setScalar h
  refine ⟨t, ht, hscalar, ?_⟩
  obtain ⟨target, htarget, rfl⟩ := map_eq_ok_iff.1 h
  obtain ⟨entry, hentry, hflat, hfits, rfl⟩ := slotTarget_eq_ok_iff.1 htarget
  obtain ⟨entry', hentry', rfl⟩ := slotType_eq_ok_iff.1 ht
  obtain rfl : entry = entry' := Option.some.inj (hentry.symm.trans hentry')
  have hslice := m.statics.slice_patch entry.descriptor.toNat (entry.slotType.encode v)
  rw [SlotType.length_encode] at hslice
  rw [putSlot_of_fits hflat hfits]
  refine setScalar_self hentry hflat ?_ ?_
  · exact Nat.le_trans hfits (Nat.le_of_eq (Buffer.size_patch _ _ _).symm)
  · rw [SlotType.encode_truncate]
    exact (hslice hfits).symm

/-- Storing what a slot reads changes nothing, unless it is a float. -/
theorem setScalar_of_scalar {t : SlotType} (ht : m.slotType e = .ok t) (hflat : t.isFlat = true)
    (hfloat : t ≠ .float) (h : m.scalar e = .ok v) : m.setScalar e v = .ok m := by
  obtain ⟨entry, hentry, rfl⟩ := slotType_eq_ok_iff.1 ht
  obtain ⟨entry', hentry', hscalar, hfits, rfl⟩ := scalar_eq_ok_iff.1 h
  obtain rfl : entry = entry' := Option.some.inj (hentry.symm.trans hentry')
  have hlength := Buffer.length_slice _ _ _ hfits
  refine setScalar_self hentry hflat hfits ?_
  have hdecode : entry.slotType.decode?
      (m.statics.slice entry.descriptor.toNat entry.slotType.size) = some _ :=
    SlotType.decode?_eq_some_iff.2 ⟨hscalar, Nat.le_of_eq hlength.symm, rfl⟩
  have hencode := SlotType.encode_of_decode? hfloat hdecode
  rw [List.take_of_length_le (Nat.le_of_eq hlength)] at hencode
  exact hencode

end Memory

/-- A store into a buffer succeeds exactly for a type that has values and within the buffer. If it
fails the buffer stays as it is; otherwise the bytes before and behind the value do, and a load
gives the value truncated. Truncating twice is truncating once; for a float it leads to the nearest
single, from the middle between two to the even one, and back to its integer part within 32 bits.
Unless the type is a float, a value that was loaded is stored in the same bytes. So a slot of a
memory, whatever its type, reads after a store as the value truncated, and storing that changes
nothing. -/
theorem stores_and_loads :
    (∀ (t : SlotType) (v : Int32) (start : Nat) (b : Buffer),
      ((t.store v b start).1 = true ↔ t ≠ .void ∧ t ≠ .cluster ∧ start + t.size ≤ b.size) ∧
      ((t.store v b start).1 = false → (t.store v b start).2 = b) ∧
      ((t.store v b start).1 = true → t.Stored v start b (t.store v b start).2)) ∧
    (∀ (t : SlotType) (v : Int32), t.truncate (t.truncate v) = t.truncate v) ∧
    (∀ v : Int32, Single.IsNearest v.toInt (ofLittleEndian (SlotType.float.encode v))) ∧
    (∀ (bytes : List UInt8) (v : Int32), SlotType.float.decode? bytes = some v →
      Single.IsIntegerPart (ofLittleEndian (bytes.take 4)) v) ∧
    (∀ (t : SlotType) (bytes : List UInt8) (v : Int32), t ≠ .float → t.decode? bytes = some v →
      t.encode v = bytes.take t.size) ∧
    (∀ (m : Memory) (e : Nat) (v : Int32),
      ((∃ m', m.setScalar e v = .ok m') ↔ ∃ t, m.toc[e]? = some t ∧ t.slotType.isFlat = true ∧
        t.descriptor.toNat + t.slotType.size ≤ m.statics.size) ∧
      (∀ m', m.setScalar e v = .ok m' → ∃ t, m.slotType e = .ok t ∧
        m'.scalar e = .ok (t.truncate v) ∧ m'.setScalar e (t.truncate v) = .ok m') ∧
      (∀ t, m.slotType e = .ok t → t.isFlat = true → t ≠ .float → m.scalar e = .ok v →
        m.setScalar e v = .ok m)) := by
  refine ⟨fun t v start b => ⟨?_, SlotType.snd_store_of_failed, SlotType.stored_store⟩,
    SlotType.truncate_truncate, ?_, ?_, fun t bytes v hfloat => SlotType.encode_of_decode? hfloat,
    fun m e v => ⟨Memory.exists_setScalar_iff, fun m' => Memory.setScalar_truncate,
      fun t => Memory.setScalar_of_scalar⟩⟩
  · rw [SlotType.fst_store_iff, SlotType.isScalar_iff, and_assoc]
  · intro v
    have hbits : ofLittleEndian (SlotType.float.encode v) = Single.bits v.toInt := by
      rw [SlotType.ofLittleEndian_encode]
      exact Nat.mod_eq_of_lt (SlotType.bits_lt v)
    rw [hbits]
    exact Single.isNearest_bits (SlotType.log2_natAbs_lt v)
  · intro bytes v h
    obtain ⟨_, _, rfl⟩ := SlotType.decode?_eq_some_iff.1 h
    exact Single.isIntegerPart_integer _

def floatAndByte : Memory where
  toc := #[⟨.float, 0, 0⟩, ⟨.sbyte, 0, 4⟩]
  statics := #[0, 0, 0, 0, 0xC8]
  blocks := #[]
  slots := [0, 1]

/-- The greatest number goes to a single beyond the limit of 32 bits, and still is read back. It
does not go to two bytes. -/
theorem stores_and_loads_greatest :
    (SlotType.float.Stored 2147483647 1 #[7, 7, 7, 7, 7, 7] #[7, 0, 0, 0, 0x4F, 7]) ∧
      (SlotType.slong.store 2147483647 #[7, 7] 0).2 = #[7, 7] ∧
      Single.IsNearest 2147483647 0x4F000000 ∧ Single.IsIntegerPart 0x4F000000 2147483647 ∧
      SlotType.sbyte.encode (-56) = [0xC8] ∧
      (∃ m', floatAndByte.setScalar 0 2147483647 = .ok m' ∧ m'.scalar 0 = .ok 2147483647 ∧
        m'.setScalar 0 2147483647 = .ok m') ∧
      floatAndByte.setScalar 1 (-56) = .ok floatAndByte := by
  obtain ⟨hbuffers, _, hnearest, hinteger, hencode, hslots⟩ := stores_and_loads
  obtain ⟨m', hm'⟩ : ∃ m', floatAndByte.setScalar 0 2147483647 = .ok m' := ⟨_, rfl⟩
  obtain ⟨t, ht, hscalar, hsame⟩ := (hslots floatAndByte 0 2147483647).2.1 m' hm'
  obtain rfl : SlotType.float = t := Except.ok.inj ht
  refine ⟨?_, ?_, ?_, ?_, ?_, ⟨m', hm', hscalar, hsame⟩, ?_⟩
  · exact (hbuffers .float 2147483647 1 #[7, 7, 7, 7, 7, 7]).2.2 (by decide)
  · exact (hbuffers .slong 2147483647 0 #[7, 7]).2.1 (by decide)
  · exact hnearest 2147483647
  · exact hinteger [0, 0, 0, 0x4F] 2147483647 (by decide)
  · exact hencode .sbyte [0xC8] (-56) nofun (by decide)
  · exact (hslots floatAndByte 1 (-56)).2.2 .sbyte rfl rfl nofun rfl

end BrickMachine
