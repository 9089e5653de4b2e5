import BrickMachine.Proofs.Memory.Slots
import BrickMachine.Report.Image

/-!
# Two views of memory

The report on an image goes through the whole table of contents and shows of an array each element
that can be read. A snapshot goes through the slots only, and of an array it shows the elements up
to the first that cannot be read. Both show the same, because an element can be read only if all
elements before it can: it has to lie within the contents, and they lie in front of it.

`viewsAgree_of_load` says so for every slot of a memory that was loaded from an image, whatever has
happened to the memory since.
-/

namespace BrickMachine

section Lists

variable {α : Type} {key : α → Nat} {f : Nat → Option α} {es : List Nat} {e : Nat}

/-- Views that know what they are views of come in the order of what they show. -/
theorem map_key_filterMap (hkey : ∀ e x, f e = some x → key x = e) (es : List Nat) :
    (es.filterMap f).map key = es.filter fun e => (f e).isSome := by
  induction es with
  | nil => rfl
  | cons e es ih =>
      cases hx : f e with
      | none => simp [hx, ih]
      | some x => simp [hx, ih, hkey e x hx]

/-- The only view of one of them is its own. -/
theorem filter_key_filterMap (hkey : ∀ e x, f e = some x → key x = e) (hes : es.Nodup)
    (he : e ∈ es) : ((es.filterMap f).filter fun x => key x = e) = (f e).toList := by
  induction es with
  | nil => cases he
  | cons a es ih =>
      obtain ⟨ha, hes⟩ := List.nodup_cons.1 hes
      rcases List.mem_cons.1 he with rfl | he
      · have hrest : ((es.filterMap f).filter fun x => key x = e) = [] := by
          rw [List.filter_eq_nil_iff]
          intro x hx
          obtain ⟨b, hb, hx⟩ := List.mem_filterMap.1 hx
          rw [hkey b x hx, decide_eq_true_iff]
          rintro rfl
          exact ha hb
        cases hx : f e with
        | none => simp [hx, hrest]
        | some x => simp [hx, hrest, hkey e x hx]
      · have hne : a ≠ e := by
          rintro rfl
          exact ha he
        cases hx : f a with
        | none => simp [hx, ih hes he]
        | some x => simp [hx, ih hes he, hkey a x hx, hne]

end Lists

namespace Memory

variable {image : Image} {m : Memory} {e d i j : Nat}

/-! ### Elements that can be read -/

/-- An element that can be read lies behind all others before it. -/
theorem exists_element_of_le (hij : i ≤ j) (h : ∃ v, m.element e j = .ok v) :
    ∃ v, m.element e i = .ok v := by
  obtain ⟨v, hv⟩ := h
  obtain ⟨target, htarget, _⟩ := map_eq_ok_iff.1 hv
  obtain ⟨t, d, ht, hd, hcount, hfits, _⟩ := elementTarget_eq_ok_iff.1 htarget
  have hstart := Nat.mul_le_mul_right (m.block d).vector.elementSize.toNat hij
  exact ⟨_, map_eq_ok_iff.2 ⟨_, elementTarget_eq_ok_iff.2
    ⟨t, d, ht, hd, Nat.lt_of_le_of_lt hij hcount, by omega, rfl⟩, rfl⟩⟩

theorem lt_of_element {v : Int32} (hd : m.blockIndex e = .ok d) (h : m.element e i = .ok v) :
    i < (m.block d).vector.elementCount.toNat := by
  obtain ⟨target, htarget, _⟩ := map_eq_ok_iff.1 h
  obtain ⟨t, d', _, hd', hcount, _⟩ := elementTarget_eq_ok_iff.1 htarget
  obtain rfl : d = d' := Except.ok.inj (hd.symm.trans hd')
  exact hcount

theorem toOption_element_of_error {err : MemoryError} (h : m.element e i = .error err)
    (hij : i ≤ j) : (m.element e j).toOption = none := by
  cases hw : m.element e j with
  | error err' => rfl
  | ok w =>
      obtain ⟨v, hv⟩ := exists_element_of_le hij ⟨w, hw⟩
      rw [h] at hv
      cases hv

/-- Nothing is lost behind the first element that cannot be read. -/
theorem getElem?_readableElements (m : Memory) (e i count j : Nat) :
    (m.readableElements e i count)[j]?
      = if j < count then (m.element e (i + j)).toOption else none := by
  induction count generalizing i j with
  | zero => simp [readableElements]
  | succ count ih =>
      unfold readableElements
      cases hv : m.element e i with
      | ok v =>
          cases j with
          | zero => simp [hv, Except.toOption]
          | succ j => simp [ih, Nat.add_right_comm, Nat.add_assoc]
      | error err =>
          have hnone := toOption_element_of_error hv (Nat.le_add_right i j)
          simp [hnone]

theorem filterMap_element (m : Memory) (e i count : Nat) :
    ((List.range' i count).filterMap fun k => (m.element e k).toOption)
      = m.readableElements e i count := by
  induction count generalizing i with
  | zero => rfl
  | succ count ih =>
      rw [List.range'_succ, readableElements]
      cases hv : m.element e i with
      | ok v =>
          have hsome : (m.element e i).toOption = some v := by
            rw [hv]
            rfl
          simp only [List.filterMap_cons, hsome, ih]
      | error err =>
          have hnone (k : Nat) (hk : i ≤ k) := toOption_element_of_error hv hk
          simp only [List.filterMap_cons, hnone i (Nat.le_refl i), List.filterMap_eq_nil_iff]
          intro k hk
          exact hnone k (Nat.le_of_succ_le (List.mem_range'_1.1 hk).1)

/-- An array shows its elements as far as they can be read. -/
theorem element_eq_ok_iff_readableElements (hd : m.blockIndex e = .ok d) {v : Int32} :
    m.element e i = .ok v
      ↔ (m.readableElements e 0 (m.block d).vector.elementCount.toNat)[i]? = some v := by
  rw [getElem?_readableElements, Nat.zero_add]
  constructor
  · intro h
    rw [if_pos (lt_of_element hd h), h]
    rfl
  · intro h
    split at h
    case isTrue =>
      cases hv : m.element e i with
      | error err =>
          rw [hv] at h
          cases h
      | ok w =>
          rw [hv] at h
          cases h
          rfl
    case isFalse => cases h

/-! ### The views of a slot -/

theorem entry_of_scalarView? {x : ScalarView} (h : m.scalarView? e = some x) : x.entry = e := by
  unfold scalarView? at h
  split at h
  · split at h
    · cases h
    · cases h
      rfl
  · cases h

theorem entry_of_arrayView? {x : ArrayView} (h : m.arrayView? e = some x) : x.entry = e := by
  unfold arrayView? at h
  split at h
  · cases h
    rfl
  · cases h

theorem scalarView?_array (h : m.slotType e = .ok .array) : m.scalarView? e = none := by
  unfold scalarView?
  rw [h]
  split
  · next ht _ =>
    cases ht
    rfl
  · rfl

theorem scalarView?_number {t : SlotType} {v : Int32} (ht : m.slotType e = .ok t)
    (harray : t ≠ .array) (hv : m.scalar e = .ok v) : m.scalarView? e = some ⟨e, t, v⟩ := by
  unfold scalarView?
  rw [ht, hv]
  exact if_neg harray

theorem arrayView?_of_no_block (h : ∀ d, m.blockIndex e ≠ .ok d) : m.arrayView? e = none := by
  unfold arrayView?
  split
  · next d hd => exact absurd hd (h d)
  · rfl

theorem arrayView?_of_block (hd : m.blockIndex e = .ok d) :
    m.arrayView? e = some
      { entry := e
        block := d
        elementType := (m.slotType (e + 1)).toOption
        elements := m.readableElements e 0 (m.block d).vector.elementCount.toNat } := by
  unfold arrayView?
  rw [hd]

theorem blockIndex_ne_ok {t : SlotType} (ht : m.slotType e = .ok t) (harray : t ≠ .array)
    (d : Nat) : m.blockIndex e ≠ .ok d := by
  intro hd
  obtain ⟨entry, hentry, hslot, _⟩ := blockIndex_eq_ok_iff.1 hd
  obtain ⟨entry', hentry', rfl⟩ := slotType_eq_ok_iff.1 ht
  obtain rfl : entry = entry' := Option.some.inj (hentry.symm.trans hentry')
  exact harray hslot

structure Agree (m : Memory) (r : EntryReport) (s : Snapshot) : Prop where
  /-- A number is shown once, by both with its value. -/
  number : r.entry.slotType ≠ .array → ∃ v, r.value = some v ∧
    (s.scalars.filter fun x => x.entry = r.index) = [⟨r.index, r.entry.slotType, v⟩] ∧
    (s.arrays.filter fun x => x.entry = r.index) = []
  /-- An array that names a block is shown once, by both with the elements that can be read. -/
  array (d : Nat) : r.entry.slotType = .array → m.blockIndex r.index = .ok d →
    ∃ vs x, r.elements = some vs ∧ (∀ i v, m.element r.index i = .ok v ↔ vs[i]? = some v) ∧
      (s.arrays.filter fun x => x.entry = r.index) = [x] ∧ x.block = d ∧ x.elements = vs ∧
      (s.scalars.filter fun x => x.entry = r.index) = []
  /-- An array that names no block is not shown, and the report has no elements of it. -/
  unnamed : r.entry.slotType = .array → (∀ d, m.blockIndex r.index ≠ .ok d) →
    r.elements = none ∧ (s.arrays.filter fun x => x.entry = r.index) = [] ∧
      (s.scalars.filter fun x => x.entry = r.index) = []

/-- What the report on an array shows of its elements. -/
theorem elements_of {t : TocEntry} (ht : t.slotType = .array) :
    (EntryReport.of m e t).elements = (m.arrayLength e).toOption.map fun n =>
      (List.range n).filterMap fun i => (m.element e i).toOption :=
  if_pos ht

theorem agree_of_mem_slots {t : TocEntry} (hslots : m.slots.Nodup) (he : e ∈ m.slots)
    (ht : m.toc[e]? = some t) (hscalar : t.slotType.isScalar = true)
    (hfits : t.descriptor.toNat + t.slotType.size ≤ m.statics.size) :
    m.Agree (EntryReport.of m e t) m.snapshot := by
  have htype : m.slotType e = .ok t.slotType := slotType_eq_ok_iff.2 ⟨t, ht, rfl⟩
  have hscalars : (m.snapshot.scalars.filter fun x => x.entry = e) = (m.scalarView? e).toList :=
    filter_key_filterMap (fun _ _ => entry_of_scalarView?) hslots he
  have harrays : (m.snapshot.arrays.filter fun x => x.entry = e) = (m.arrayView? e).toList :=
    filter_key_filterMap (fun _ _ => entry_of_arrayView?) hslots he
  constructor
  case number =>
    intro (hnumber : t.slotType ≠ .array)
    obtain ⟨v, hv⟩ : ∃ v, m.scalar e = .ok v :=
      ⟨_, scalar_eq_ok_iff.2 ⟨t, ht, hscalar, hfits, rfl⟩⟩
    have hnone := blockIndex_ne_ok htype hnumber
    rw [scalarView?_number htype hnumber hv] at hscalars
    rw [arrayView?_of_no_block hnone] at harrays
    refine ⟨v, ?_, hscalars, harrays⟩
    change (if t.slotType.isFlat then (m.scalar e).toOption else none) = some v
    rw [if_pos (SlotType.isFlat_of_isScalar hscalar hnumber), hv]
    rfl
  case array =>
    intro d (harray : t.slotType = .array) (hd : m.blockIndex e = .ok d)
    rw [harray] at htype
    rw [scalarView?_array htype] at hscalars
    rw [arrayView?_of_block hd] at harrays
    refine ⟨m.readableElements e 0 (m.block d).vector.elementCount.toNat, _, ?_,
      fun i v => element_eq_ok_iff_readableElements hd, harrays, rfl, rfl, hscalars⟩
    rw [elements_of harray, arrayLength, hd, ← filterMap_element, ← List.range_eq_range']
    rfl
  case unnamed =>
    intro (harray : t.slotType = .array) (hnone : ∀ d, m.blockIndex e ≠ .ok d)
    rw [harray] at htype
    rw [scalarView?_array htype] at hscalars
    rw [arrayView?_of_no_block hnone] at harrays
    refine ⟨?_, harrays, hscalars⟩
    rw [elements_of harray, arrayLength]
    cases hindex : m.blockIndex e with
    | ok d => exact absurd hindex (hnone d)
    | error err => rfl

/-- The report on the image and the snapshot agree on every slot, and the snapshot shows nothing
else. -/
structure ViewsAgree (image : Image) (m : Memory) : Prop where
  agree (e : Nat) : e ∈ m.slots → ∃ r, (ImageReport.of image m).entries[e]? = some r ∧
    r.index = e ∧ image.toc[e]? = some r.entry ∧ m.Agree r m.snapshot
  scalars : ∀ x ∈ m.snapshot.scalars, x.entry ∈ m.slots
  arrays : ∀ x ∈ m.snapshot.arrays, x.entry ∈ m.slots
  increasing_scalars : (m.snapshot.scalars.map ScalarView.entry).Pairwise (· < ·)
  increasing_arrays : (m.snapshot.arrays.map ArrayView.entry).Pairwise (· < ·)

/-- In every memory that an image can be loaded to and that can come from this one, the report on
the image and the snapshot show the same of every slot. -/
theorem viewsAgree_of_load (h : load image = .ok m) (edits : List Edit) :
    (m.afterEdits edits).ViewsAgree image := by
  have hevolves := m.evolves_afterEdits edits
  have htoc : m.toc = image.toc := by
    obtain ⟨statics, blocks, _, _, rfl⟩ := load_eq_ok_iff.1 h
    rfl
  have hincreasing : (m.afterEdits edits).slots.Pairwise (· < ·) := by
    rw [hevolves.slots]
    exact (hasSlots_of_load h).increasing
  constructor
  case agree =>
    intro e he
    rw [hevolves.slots] at he
    obtain ⟨t, ht, hscalar, hfits⟩ := exists_of_mem_slots h he
    rw [← hevolves.size_statics] at hfits
    refine ⟨EntryReport.of (m.afterEdits edits) e t, ?_, rfl, ht, ?_⟩
    · change (image.toc.toList.mapIdx _)[e]? = _
      rw [List.getElem?_mapIdx, Array.getElem?_toList, ht]
      rfl
    · refine agree_of_mem_slots (hincreasing.imp Nat.ne_of_lt) ?_ ?_ hscalar hfits
      · rwa [hevolves.slots]
      · rwa [hevolves.toc, htoc]
  case scalars =>
    intro x hx
    obtain ⟨e, he, hx⟩ := List.mem_filterMap.1 hx
    rwa [entry_of_scalarView? hx]
  case arrays =>
    intro x hx
    obtain ⟨e, he, hx⟩ := List.mem_filterMap.1 hx
    rwa [entry_of_arrayView? hx]
  case increasing_scalars =>
    change (List.map _ (List.filterMap _ _)).Pairwise _
    rw [map_key_filterMap fun _ _ => entry_of_scalarView?]
    exact hincreasing.filter _
  case increasing_arrays =>
    change (List.map _ (List.filterMap _ _)).Pairwise _
    rw [map_key_filterMap fun _ _ => entry_of_arrayView?]
    exact hincreasing.filter _

def mixedWidths : Image where
  version := Image.currentVersion
  header := ⟨7, 0, 7, 33, 7, 26, 0, 0, 7⟩
  toc := #[⟨.ubyte, 0, 0⟩, ⟨.array, 0, 1⟩, ⟨.uword, 0, 0⟩, ⟨.array, 0, 3⟩, ⟨.ulong, 0, 0⟩,
    ⟨.array, 0, 5⟩, ⟨.ubyte, 0, 0⟩]
  defaultData := #[7, 1, 0, 1, 0, 9, 0, 7, 0, 10, 0, 2, 0, 0, 0, 0, 0, 27, 0, 2, 0, 3, 0, 0, 0, 0,
    0, 1, 0, 44, 1, 255, 255]
  clumps := #[]
  code := #[]

theorem viewsAgree_of_mixedWidths :
    ∃ m, load mixedWidths = .ok m ∧ m.slots = [0, 1, 3, 5] ∧
      (m.afterEdits [.setArrayLength 1 4]).ViewsAgree mixedWidths ∧
      ∃ r x, (ImageReport.of mixedWidths (m.afterEdits [.setArrayLength 1 4])).entries[3]?
          = some r ∧
        ((m.afterEdits [.setArrayLength 1 4]).snapshot.arrays.filter fun x => x.entry = 3) = [x] ∧
        r.elements = some x.elements ∧ x.elements = [19660801, -65236, 65535] := by
  obtain ⟨m, hm⟩ : ∃ m, load mixedWidths = .ok m := ⟨_, rfl⟩
  have hviews := viewsAgree_of_load hm [.setArrayLength 1 4]
  have hslots : m.slots = [0, 1, 3, 5] := by
    cases hm
    rfl
  have hindex : (m.afterEdits [.setArrayLength 1 4]).blockIndex 3 = .ok 1 := by
    cases hm
    rfl
  have hshown : ((m.afterEdits [.setArrayLength 1 4]).snapshot.arrays.filter fun x => x.entry = 3)
      = [⟨3, 1, some .ulong, [19660801, -65236, 65535]⟩] := by
    cases hm
    decide +kernel
  have hthree : 3 ∈ (m.afterEdits [.setArrayLength 1 4]).slots := by
    rw [(m.evolves_afterEdits _).slots, hslots]
    decide
  obtain ⟨r, hr, hnumber, hentry, hagree⟩ := hviews.agree 3 hthree
  have harray : r.entry.slotType = .array := by
    rw [← Option.some.inj hentry]
    rfl
  rw [← hnumber] at hindex
  obtain ⟨vs, x, helements, _, hx, _, rfl, _⟩ := hagree.array 1 harray hindex
  rw [hnumber, hshown] at hx
  cases hx
  exact ⟨m, hm, hslots, hviews, r, _, hr, hshown, helements, rfl⟩

end Memory

end BrickMachine
