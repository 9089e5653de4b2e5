import BrickMachine.Memory.Snapshot
import BrickMachine.Proofs.Dataspace.Arrays
import BrickMachine.Proofs.Machine.Edits

/-!
# The dope vector table as bytes

A memory writes its dope vectors as a table of the kind that the loader finds in an image. A record
that is read and written again has the same bytes, and so have the records of a whole table. Only
the first record may come out otherwise than it was read: it describes the table, and a memory
writes there what holds of the table.

`table_written_back` says what the bytes are in every memory that can come from an image, and how
those of the memory that a program starts with compare to the default data.
-/

namespace BrickMachine

namespace Buffer

theorem take_slice (b : Buffer) {start len n : Nat} (h : n ≤ len) :
    (b.slice start len).take n = b.slice start n := by
  apply List.ext_getElem?
  intro i
  rw [List.getElem?_take, getElem?_slice, getElem?_slice]
  grind

end Buffer

namespace DopeVector

/-- What was read from a record is written as this record. -/
theorem toBytes_of_ofBytes? {bytes : List UInt8} {v : DopeVector} (h : ofBytes? bytes = some v) :
    v.toBytes = bytes.take recordSize := by
  unfold ofBytes? at h
  split at h
  case h_1 =>
    cases h
    simp [toBytes, wordBytes_wordOfBytes, recordSize]
  case h_2 => cases h

/-- A record is at the front of the bytes if the bytes of its length are the record. -/
theorem ofBytes?_of_take {bytes : List UInt8} {v : DopeVector}
    (h : ofBytes? (bytes.take recordSize) = some v) : ofBytes? bytes = some v := by
  have hrecord := toBytes_of_ofBytes? h
  rw [List.take_take, Nat.min_self] at hrecord
  rw [← List.take_append_drop recordSize bytes, ← hrecord, ofBytes?_toBytes]

/-- The element size is in the third and fourth byte of a record. -/
theorem getElem?_toBytes_elementSize (v : DopeVector) (size : UInt16) (rest : List UInt8) {i : Nat}
    (h2 : i ≠ 2) (h3 : i ≠ 3) :
    (toBytes { v with elementSize := size } ++ rest)[i]? = (v.toBytes ++ rest)[i]? := by
  match i with
  | 0 | 1 | i + 4 => rfl
  | 2 => exact absurd rfl h2
  | 3 => exact absurd rfl h3

theorem exists_of_recordSize_le {bytes : List UInt8} (h : recordSize ≤ bytes.length) :
    ∃ v, ofBytes? bytes = some v := by
  match bytes with
  | _ :: _ :: _ :: _ :: _ :: _ :: _ :: _ :: _ :: _ :: _ => exact ⟨_, rfl⟩
  | [] | [_] | [_, _] | [_, _, _] | [_, _, _, _] | [_, _, _, _, _] | [_, _, _, _, _, _]
  | [_, _, _, _, _, _, _] | [_, _, _, _, _, _, _, _] | [_, _, _, _, _, _, _, _, _] =>
      simp [recordSize] at h

theorem dopeVectorsOf_succ {bytes : List UInt8} {v : DopeVector} (h : ofBytes? bytes = some v)
    (n : Nat) :
    Memory.dopeVectorsOf bytes (n + 1) = v :: Memory.dopeVectorsOf (bytes.drop recordSize) n := by
  rw [Memory.dopeVectorsOf, h]

/-- What was read from a table is written as this table. -/
theorem flatMap_dopeVectorsOf {bytes : List UInt8} {n : Nat}
    (h : bytes.length = n * recordSize) :
    (Memory.dopeVectorsOf bytes n).flatMap toBytes = bytes ∧
      (Memory.dopeVectorsOf bytes n).length = n := by
  induction n generalizing bytes with
  | zero => simp_all [Memory.dopeVectorsOf]
  | succ n ih =>
      rw [Nat.succ_mul] at h
      have hfront : recordSize ≤ bytes.length := by omega
      have hrest : (bytes.drop recordSize).length = n * recordSize := by
        rw [List.length_drop]
        omega
      obtain ⟨v, hv⟩ := exists_of_recordSize_le hfront
      obtain ⟨hbytes, hlength⟩ := ih hrest
      simp [dopeVectorsOf_succ hv, toBytes_of_ofBytes? hv, hbytes, hlength]

/-- A record of a table is found behind the records before it. -/
theorem take_drop_flatMap_toBytes {vs : List DopeVector} {i : Nat} {v : DopeVector}
    (h : vs[i]? = some v) :
    ((vs.flatMap toBytes).drop (i * recordSize)).take recordSize = v.toBytes := by
  induction vs generalizing i with
  | nil => cases h
  | cons w vs ih =>
      cases i with
      | zero =>
          cases h
          rw [List.flatMap_cons, Nat.zero_mul, List.drop_zero, ← length_toBytes v, List.take_left]
      | succ i =>
          have hskip : (i + 1) * recordSize = w.toBytes.length + i * recordSize := by
            rw [length_toBytes, Nat.succ_mul, Nat.add_comm]
          rw [List.flatMap_cons, hskip, ← List.drop_drop, List.drop_left]
          exact ih h

end DopeVector

namespace Memory

variable {image : Image} {m : Memory} {vectors : List DopeVector}

/-! ### Writing -/

/-- The dope vector table as a memory writes it: the first record describes the table. -/
def writtenVectors (m : Memory) : List DopeVector :=
  m.dopeVectors.mapIdx fun i v =>
    if i = 0 then
      { v with
        elementSize := UInt16.ofNat DopeVector.recordSize
        elementCount := UInt16.ofNat m.dopeVectors.length }
    else v

theorem dopeVectorBytes_eq (m : Memory) :
    m.dopeVectorBytes = m.writtenVectors.flatMap DopeVector.toBytes := by
  unfold dopeVectorBytes writtenVectors
  cases m.dopeVectors with
  | nil => simp
  | cons table arrays =>
      have harrays : arrays.mapIdx (fun _ v => v) = arrays := by
        simp [List.mapIdx_eq_zipIdx_map]
      simp [List.mapIdx_cons, harrays]

theorem length_dopeVectorBytes (m : Memory) :
    m.dopeVectorBytes.length = m.dopeVectors.length * DopeVector.recordSize := by
  rw [dopeVectorBytes_eq, DopeVector.length_flatMap_toBytes]
  simp [writtenVectors]

/-- What is read back from a record that a memory has written. -/
theorem ofBytes?_dopeVectorBytes {i : Nat} {v : DopeVector} (h : m.dopeVectors[i]? = some v) :
    DopeVector.ofBytes?
        ((m.dopeVectorBytes.drop (i * DopeVector.recordSize)).take DopeVector.recordSize)
      = m.writtenVectors[i]? := by
  obtain ⟨w, hw⟩ : ∃ w, m.writtenVectors[i]? = some w := by simp [writtenVectors, h]
  rw [dopeVectorBytes_eq, DopeVector.take_drop_flatMap_toBytes hw, hw]
  simpa using w.ofBytes?_toBytes []

/-! ### Loading -/

theorem mapped_eq_ok_iff {address len : Nat} {part : DynamicPart} {bytes : List UInt8} :
    mapped image address len part = .ok bytes ↔ ∃ start : Nat,
      (start : Int) = address
        - (image.header.staticSize.toNat - image.header.dynamicDefaultOffset.toNat : Int) ∧
      start + len ≤ image.defaultData.size ∧ bytes = Buffer.slice image.defaultData start len := by
  unfold mapped
  dsimp only
  split
  case isTrue hin =>
    constructor
    · intro h
      cases h
      exact ⟨_, Int.toNat_of_nonneg hin.1, hin.2, rfl⟩
    · rintro ⟨start, hstart, -, rfl⟩
      rw [← hstart, Int.toNat_natCast]
  case isFalse hout =>
    simp only [reduceCtorEq, false_iff]
    rintro ⟨start, hstart, hlen, -⟩
    refine hout ⟨by omega, ?_⟩
    rwa [← hstart, Int.toNat_natCast]

/-- The first record of a table that is loaded counts the records, and all of them are those of
the default data. -/
theorem loadTable_eq_ok {address : Nat} (h : loadTable image address = .ok vectors) :
    (∃ table arrays, vectors = table :: arrays ∧ table.elementCount.toNat = vectors.length) ∧
    ∃ start : Nat, (start : Int) = address
        - (image.header.staticSize.toNat - image.header.dynamicDefaultOffset.toNat : Int) ∧
      start + vectors.length * DopeVector.recordSize ≤ image.defaultData.size ∧
      vectors.flatMap DopeVector.toBytes
        = Buffer.slice image.defaultData start (vectors.length * DopeVector.recordSize) := by
  unfold loadTable at h
  obtain ⟨first, hfirst, h⟩ := bind_eq_ok_iff.1 h
  dsimp only at h
  split at h
  case isTrue => cases h
  case isFalse hcount =>
    obtain ⟨bytes, hbytes, h⟩ := bind_eq_ok_iff.1 h
    obtain ⟨start, hstart, hlen, rfl⟩ := mapped_eq_ok_iff.1 hbytes
    obtain ⟨start', hstart', -, rfl⟩ := mapped_eq_ok_iff.1 hfirst
    obtain rfl : start' = start := by omega
    -- the record that is read first is that at the front of the table
    have hfull := Nat.le_of_eq (length_mapped hfirst).symm
    obtain ⟨table, htable⟩ := DopeVector.exists_of_recordSize_le hfull
    rw [htable, Option.elim_some] at hcount hlen hbytes h
    obtain ⟨n, hn⟩ : ∃ n, table.elementCount.toNat = n + 1 := Nat.exists_eq_succ_of_ne_zero hcount
    rw [hn] at hlen hbytes h
    cases h
    obtain ⟨hrecords, hlength⟩ := DopeVector.flatMap_dopeVectorsOf (length_mapped hbytes)
    rw [← Buffer.take_slice image.defaultData
      (Nat.le_mul_of_pos_left DopeVector.recordSize n.succ_pos)] at htable
    rw [hlength]
    exact ⟨⟨table, _, DopeVector.dopeVectorsOf_succ (DopeVector.ofBytes?_of_take htable) n, hn⟩,
      start', hstart, hlen, hrecords⟩

theorem dopeVectors_load (h : load image = .ok m) : builtVectors image = .ok m.dopeVectors := by
  obtain ⟨statics, blocks, -, hblocks, rfl⟩ := load_eq_ok_iff.1 h
  exact builtVectors_of_loadBlocks hblocks

/-- A word can count the dope vectors. -/
theorem exists_count_of_builtVectors (h : builtVectors image = .ok vectors) :
    ∃ count : UInt16, count.toNat = vectors.length := by
  unfold builtVectors at h
  split at h
  case isTrue =>
    cases h
    exact ⟨1, rfl⟩
  case isFalse =>
    obtain ⟨⟨table, arrays, rfl, hcount⟩, -⟩ := loadTable_eq_ok h
    exact ⟨table.elementCount, hcount⟩

/-- The table that a program starts with is written as it was read, but for the element size of its
own record. -/
theorem dopeVectorBytes_of_load (h : load image = .ok m)
    (hdynamic : image.header.dynamicDefaultSize ≠ 0) :
    ∃ start : Nat, (start : Int) = image.header.dopeVectorOffset.toNat
        - (image.header.staticSize.toNat - image.header.dynamicDefaultOffset.toNat : Int) ∧
      start + m.dopeVectorBytes.length ≤ image.defaultData.size ∧
      ∀ i < m.dopeVectorBytes.length, i ≠ 2 → i ≠ 3 →
        m.dopeVectorBytes[i]? = image.defaultData[start + i]? := by
  have hbuilt := dopeVectors_load h
  rw [builtVectors, if_neg hdynamic] at hbuilt
  obtain ⟨⟨table, arrays, hvectors, hcount⟩, start, hstart, hlen, hrecords⟩ :=
    loadTable_eq_ok hbuilt
  rw [← length_dopeVectorBytes] at hlen hrecords
  refine ⟨start, hstart, hlen, fun i hi h2 h3 => ?_⟩
  have hself : UInt16.ofNat (arrays.length + 1) = table.elementCount := by
    rw [← UInt16.ofNat_toNat (x := table.elementCount), hcount, hvectors, List.length_cons]
  calc m.dopeVectorBytes[i]?
      = (DopeVector.toBytes { table with elementSize := UInt16.ofNat DopeVector.recordSize }
          ++ arrays.flatMap DopeVector.toBytes)[i]? := by
        simp only [dopeVectorBytes, hvectors, hself]
    _ = (table.toBytes ++ arrays.flatMap DopeVector.toBytes)[i]? :=
        table.getElem?_toBytes_elementSize _ _ h2 h3
    _ = (Buffer.slice image.defaultData start m.dopeVectorBytes.length)[i]? := by
        rw [← hrecords, hvectors, List.flatMap_cons]
    _ = image.defaultData[start + i]? := by
        rw [Buffer.getElem?_slice, if_pos hi]

/-- In every memory that can come from an image, the table is written as ten bytes for each dope
vector, and each record is read back as its dope vector. Only the first record says more than the
dope vector of the table, namely the element size and the number of records. In the memory that a
program starts with, the bytes are those of the table in the default data, if the image has one,
but for the two bytes that give the element size of the table. -/
theorem table_written_back (h : load image = .ok m) (edits : List Edit) :
    (m.afterEdits edits).dopeVectorBytes.length = 10 * (m.afterEdits edits).dopeVectors.length ∧
    (∃ count : UInt16, count.toNat = (m.afterEdits edits).dopeVectors.length ∧
      ∀ i v, (m.afterEdits edits).dopeVectors[i]? = some v →
        DopeVector.ofBytes? (((m.afterEdits edits).dopeVectorBytes.drop (10 * i)).take 10)
          = some (if i = 0 then { v with elementSize := 10, elementCount := count } else v)) ∧
    (image.header.dynamicDefaultSize ≠ 0 →
      ∃ start : Nat, (start : Int) = image.header.dopeVectorOffset.toNat
          - (image.header.staticSize.toNat - image.header.dynamicDefaultOffset.toNat : Int) ∧
        start + m.dopeVectorBytes.length ≤ image.defaultData.size ∧
        ∀ i < m.dopeVectorBytes.length, i ≠ 2 → i ≠ 3 →
          m.dopeVectorBytes[i]? = image.defaultData[start + i]?) := by
  obtain ⟨vectors, hvectors, hloaded⟩ := hasShape_load h
  have hshape := hloaded.of_evolves (m.evolves_afterEdits edits)
  have hlength : (m.afterEdits edits).dopeVectors.length = vectors.length := by
    rw [dopeVectors, List.length_map, Array.length_toList, hshape.count]
  obtain ⟨count, hcount⟩ := exists_count_of_builtVectors hvectors
  rw [← hlength] at hcount
  refine ⟨?_, ⟨count, hcount, ?_⟩, dopeVectorBytes_of_load h⟩
  · rw [length_dopeVectorBytes, DopeVector.recordSize, Nat.mul_comm]
  · intro i v hv
    have hrecord := ofBytes?_dopeVectorBytes hv
    rw [DopeVector.recordSize, Nat.mul_comm] at hrecord
    rw [hrecord, writtenVectors, List.getElem?_mapIdx, hv, ← hcount, UInt16.ofNat_toNat]
    rfl

/-- An array whose index takes less space than the defaults before the table, so that addresses are
shifted by -2. The record of the table says that records have seven bytes. -/
def oddTable : Image where
  version := Image.currentVersion
  header := ⟨2, 0, 2, 26, 4, 22, 0, 0, 2⟩
  toc := #[⟨.array, 0, 0⟩, ⟨.ubyte, 0, 0⟩]
  defaultData := #[1, 0, 0, 0, 2, 0, 7, 0, 2, 0, 9, 0, 0, 0, 22, 0, 1, 0, 2, 0, 0, 0, 4, 0, 5, 6]
  clumps := #[]
  code := #[]

theorem table_written_back_oddTable :
    ∃ m, load oddTable = .ok m ∧
      (m.afterEdits [.setArrayLength 0 3]).dopeVectorBytes.length = 20 ∧
      DopeVector.ofBytes?
          (((m.afterEdits [.setArrayLength 0 3]).dopeVectorBytes.drop 10).take 10)
        = some ⟨22, 1, 3, 0, 4⟩ ∧
      ∀ i < m.dopeVectorBytes.length, i ≠ 2 → i ≠ 3 →
        m.dopeVectorBytes[i]? = oddTable.defaultData[4 + i]? := by
  obtain ⟨m, hm⟩ : ∃ m, load oddTable = .ok m := ⟨_, rfl⟩
  have hvectors : (m.afterEdits [.setArrayLength 0 3]).dopeVectors
      = [⟨2, 7, 2, 9, 0⟩, ⟨22, 1, 3, 0, 4⟩] := by
    cases hm
    decide +kernel
  obtain ⟨hlength, ⟨count, _, hrecord⟩, hfresh⟩ := table_written_back hm [.setArrayLength 0 3]
  obtain ⟨start, hstart, _, hbytes⟩ := hfresh (by decide)
  obtain rfl : start = 4 := Int.ofNat.inj hstart
  refine ⟨m, hm, ?_, ?_, hbytes⟩
  · rw [hlength, hvectors]
    rfl
  · exact hrecord 1 ⟨22, 1, 3, 0, 4⟩ (by rw [hvectors]; rfl)

end Memory

end BrickMachine
