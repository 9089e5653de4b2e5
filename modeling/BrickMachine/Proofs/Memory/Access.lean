import BrickMachine.Memory.Elements
import BrickMachine.Proofs.Effect
import BrickMachine.Proofs.Slot.Codec

/-!
# When an access succeeds

Each access to memory goes through a few tests in a row. The lemmas here say, for one access
after the other, exactly when it succeeds and what it then gives, so that nothing else has to look
at the order of the tests.
-/

namespace BrickMachine

namespace Memory

variable {m : Memory} {e i n : Nat}

theorem entry_eq_ok_iff {t : TocEntry} : m.entry e = .ok t ↔ m.toc[e]? = some t := by
  unfold entry
  cases m.toc[e]? with
  | none => simp
  | some t' => simp

theorem slotType_eq_ok_iff {t : SlotType} :
    m.slotType e = .ok t ↔ ∃ entry, m.toc[e]? = some entry ∧ entry.slotType = t := by
  simp only [slotType, map_eq_ok_iff, entry_eq_ok_iff]

/-! ### Slots -/

theorem slotBytes_eq_ok_iff {t : TocEntry} {bytes : List UInt8} :
    m.slotBytes t = .ok bytes ↔ t.descriptor.toNat + t.slotType.size ≤ m.statics.size ∧
      bytes = m.statics.slice t.descriptor.toNat t.slotType.size := by
  unfold slotBytes
  dsimp only
  split
  case isTrue h => simp [h, eq_comm]
  case isFalse h => simp [h]

theorem scalar_eq_ok_iff {v : Int32} :
    m.scalar e = .ok v ↔ ∃ t, m.toc[e]? = some t ∧ t.slotType.isScalar = true ∧
      t.descriptor.toNat + t.slotType.size ≤ m.statics.size ∧
      v = t.slotType.valueOfBits
        (ofLittleEndian (m.statics.slice t.descriptor.toNat t.slotType.size)) := by
  simp only [scalar, bind_eq_ok_iff, entry_eq_ok_iff]
  constructor
  · rintro ⟨t, ht, h⟩
    split at h
    case isTrue hscalar =>
      obtain ⟨bytes, hbytes, hv⟩ := bind_eq_ok_iff.1 h
      obtain ⟨hfits, rfl⟩ := slotBytes_eq_ok_iff.1 hbytes
      cases hv
      exact ⟨t, ht, hscalar, hfits, rfl⟩
    case isFalse => cases h
  · rintro ⟨t, ht, hscalar, hfits, rfl⟩
    refine ⟨t, ht, ?_⟩
    rw [if_pos hscalar]
    exact bind_eq_ok_iff.2 ⟨_, slotBytes_eq_ok_iff.2 ⟨hfits, rfl⟩, rfl⟩

theorem slotTarget_eq_ok_iff {target : SlotTarget} :
    m.slotTarget e = .ok target ↔ ∃ t, m.toc[e]? = some t ∧ t.slotType.isFlat = true ∧
      t.descriptor.toNat + t.slotType.size ≤ m.statics.size ∧
      target = ⟨t.slotType, t.descriptor.toNat⟩ := by
  simp only [slotTarget, bind_eq_ok_iff, entry_eq_ok_iff]
  constructor
  · rintro ⟨t, ht, h⟩
    split at h
    case isTrue hflat =>
      split at h
      case isTrue hfits =>
        cases h
        exact ⟨t, ht, hflat, hfits, rfl⟩
      case isFalse => cases h
    case isFalse => cases h
  · rintro ⟨t, ht, hflat, hfits, rfl⟩
    refine ⟨t, ht, ?_⟩
    rw [if_pos hflat, if_pos hfits]

theorem isFlat_of_setScalar {v : Int32} {m' : Memory} {t : SlotType}
    (h : m.setScalar e v = .ok m') (ht : m.slotType e = .ok t) : t.isFlat = true := by
  obtain ⟨target, htarget, rfl⟩ := map_eq_ok_iff.1 h
  obtain ⟨entry, hentry, hflat, _⟩ := slotTarget_eq_ok_iff.1 htarget
  obtain ⟨entry', hentry', rfl⟩ := slotType_eq_ok_iff.1 ht
  obtain rfl : entry = entry' := Option.some.inj (hentry.symm.trans hentry')
  exact hflat

theorem putSlot_of_fits {t : SlotType} {start : Nat} (ht : t.isFlat = true)
    (hfits : start + t.size ≤ m.statics.size) (v : Int32) :
    m.putSlot ⟨t, start⟩ v = { m with statics := m.statics.patch start (t.encode v) } := by
  rw [putSlot, SlotType.store_of_fits (SlotType.isScalar_of_isFlat ht) hfits]

/-- After a store the slot reads as the value truncated to its type. -/
theorem scalar_of_setScalar {v : Int32} {m' : Memory} (h : m.setScalar e v = .ok m') :
    ∃ t, m.slotType e = .ok t ∧ m'.scalar e = .ok (t.truncate v) := by
  obtain ⟨target, htarget, rfl⟩ := map_eq_ok_iff.1 h
  obtain ⟨t, ht, hflat, hfits, rfl⟩ := slotTarget_eq_ok_iff.1 htarget
  have hscalar : t.slotType.isScalar = true := SlotType.isScalar_of_isFlat hflat
  have hslice := Buffer.slice_patch m.statics t.descriptor.toNat (t.slotType.encode v)
  rw [SlotType.length_encode] at hslice
  rw [putSlot_of_fits hflat hfits]
  refine ⟨t.slotType, slotType_eq_ok_iff.2 ⟨t, ht, rfl⟩,
    scalar_eq_ok_iff.2 ⟨t, ht, hscalar, ?_, ?_⟩⟩
  · change _ ≤ (m.statics.patch _ _).size
    rw [Buffer.size_patch]
    exact hfits
  · rw [hslice hfits, SlotType.valueOfBits_encode]

/-! ### Arrays -/

theorem blockIndex_eq_ok_iff {d : Nat} :
    m.blockIndex e = .ok d ↔ ∃ t, m.toc[e]? = some t ∧ t.slotType = .array ∧
      t.descriptor.toNat + SlotType.array.size ≤ m.statics.size ∧
      d = ofLittleEndian (m.statics.slice t.descriptor.toNat SlotType.array.size) ∧
      0 < d ∧ d < m.blocks.size := by
  simp only [blockIndex, bind_eq_ok_iff, entry_eq_ok_iff]
  constructor
  · rintro ⟨t, ht, h⟩
    split at h
    case isTrue harray =>
      obtain ⟨bytes, hbytes, h⟩ := bind_eq_ok_iff.1 h
      obtain ⟨hfits, rfl⟩ := slotBytes_eq_ok_iff.1 hbytes
      rw [harray] at hfits h
      split at h
      case isTrue hindex =>
        cases h
        exact ⟨t, ht, harray, hfits, rfl, hindex⟩
      case isFalse => cases h
    case isFalse => cases h
  · rintro ⟨t, ht, harray, hfits, rfl, hindex⟩
    refine ⟨t, ht, ?_⟩
    rw [if_pos harray]
    rw [← harray] at hfits hindex ⊢
    refine bind_eq_ok_iff.2 ⟨_, slotBytes_eq_ok_iff.2 ⟨hfits, rfl⟩, ?_⟩
    rw [if_pos hindex]

theorem elementType_eq_ok_iff {t : SlotType} :
    m.elementType e = .ok t ↔ ∃ entry element, m.toc[e]? = some entry ∧ entry.slotType = .array ∧
      m.toc[e + 1]? = some element ∧ element.slotType = t ∧ t.isFlat = true := by
  simp only [elementType, bind_eq_ok_iff, entry_eq_ok_iff]
  constructor
  · rintro ⟨entry, hentry, h⟩
    split at h
    case isTrue harray =>
      obtain ⟨t', ht', h⟩ := bind_eq_ok_iff.1 h
      obtain ⟨element, helement, rfl⟩ := slotType_eq_ok_iff.1 ht'
      split at h
      case isTrue hflat =>
        cases h
        exact ⟨entry, element, hentry, harray, helement, rfl, hflat⟩
      case isFalse => cases h
    case isFalse => cases h
  · rintro ⟨entry, element, hentry, harray, helement, rfl, hflat⟩
    refine ⟨entry, hentry, ?_⟩
    rw [if_pos harray]
    refine bind_eq_ok_iff.2 ⟨_, slotType_eq_ok_iff.2 ⟨element, helement, rfl⟩, ?_⟩
    rw [if_pos hflat]

theorem elementTarget_eq_ok_iff {target : ElementTarget} :
    m.elementTarget e i = .ok target ↔ ∃ t d, m.elementType e = .ok t ∧ m.blockIndex e = .ok d ∧
      i < (m.block d).vector.elementCount.toNat ∧
      i * (m.block d).vector.elementSize.toNat + t.size ≤ (m.block d).data.size ∧
      target = ⟨t, d, i * (m.block d).vector.elementSize.toNat⟩ := by
  simp only [elementTarget, bind_eq_ok_iff]
  constructor
  · rintro ⟨t, ht, d, hd, h⟩
    split at h
    case isTrue hi =>
      split at h
      case isTrue hfits =>
        cases h
        exact ⟨t, d, ht, hd, hi, hfits, rfl⟩
      case isFalse => cases h
    case isFalse => cases h
  · rintro ⟨t, d, ht, hd, hi, hfits, rfl⟩
    refine ⟨t, ht, d, hd, ?_⟩
    rw [if_pos hi, if_pos hfits]

theorem arrayTarget_eq_ok_iff {d : Nat} :
    m.arrayTarget e n = .ok d ↔ m.blockIndex e = .ok d ∧ n ≤ maxArrayLength := by
  simp only [arrayTarget, bind_eq_ok_iff]
  constructor
  · rintro ⟨d', hd, h⟩
    split at h
    case isTrue hn =>
      cases h
      exact ⟨hd, hn⟩
    case isFalse => cases h
  · rintro ⟨hd, hn⟩
    refine ⟨d, hd, ?_⟩
    rw [if_pos hn]

end Memory

end BrickMachine
