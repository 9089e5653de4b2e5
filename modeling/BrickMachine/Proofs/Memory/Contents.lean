import BrickMachine.Code.Operation
import BrickMachine.Proofs.Failure
import BrickMachine.Proofs.Memory.Frame
import BrickMachine.Proofs.Slot.Truncation

/-!
# Arrays as lists

The elements of an array are a list of values, and what the array instructions do is a matter of
lists: one element is replaced, a part is overwritten, or a whole list is assigned. This holds of an
array with a flat element type that is no wider than its elements. Then every element can be
read and stored, elements do not overlap, and nothing that writes elements can fail once the array
has been resized: `storeElements` succeeds, and `assign` and `copyArray` do all of their work or
none.
-/

namespace BrickMachine

/-- The list with the elements at `start`, `start + 1`, … replaced, as far as it reaches. -/
def overwrite {α : Type} (ws : List α) (start : Nat) (vs : List α) : List α :=
  ws.mapIdx fun j w => if j < start then w else vs[j - start]?.getD w

section Lists

variable {α β : Type} {ws vs : List α}

theorem take_range' {start count n : Nat} (h : count ≤ n) :
    (List.range' start n).take count = List.range' start count := by
  obtain ⟨k, rfl⟩ := Nat.exists_eq_add_of_le h
  rw [← List.range'_append_1]
  exact List.take_left' List.length_range'

theorem getElem?_overwrite (ws : List α) (start : Nat) (vs : List α) (j : Nat) :
    (overwrite ws start vs)[j]?
      = ws[j]?.map fun w => if j < start then w else vs[j - start]?.getD w :=
  List.getElem?_mapIdx

theorem overwrite_nil (ws : List α) (start : Nat) : overwrite ws start [] = ws := by
  apply List.ext_getElem?
  intro j
  rw [getElem?_overwrite]
  cases ws[j]? with
  | none => rfl
  | some w => simp

theorem overwrite_cons (ws : List α) (start : Nat) (v : α) (vs : List α) :
    overwrite ws start (v :: vs) = overwrite (ws.set start v) (start + 1) vs := by
  apply List.ext_getElem?
  intro j
  rw [getElem?_overwrite, getElem?_overwrite, List.getElem?_set]
  rcases Nat.lt_trichotomy j start with hlt | rfl | hgt
  · rw [if_neg (Nat.ne_of_gt hlt)]
    simp only [if_pos hlt, if_pos (Nat.lt_succ_of_lt hlt)]
  · by_cases hj : j < ws.length
    · simp [hj]
    · simp [hj]
  · have hsub : j - start = j - (start + 1) + 1 := by omega
    rw [if_neg (Nat.ne_of_lt hgt), hsub]
    simp only [if_neg (Nat.lt_asymm hgt), if_neg (Nat.not_lt.2 hgt), List.getElem?_cons_succ]

theorem map_overwrite (f : α → β) (ws : List α) (start : Nat) (vs : List α) :
    (overwrite ws start vs).map f = overwrite (ws.map f) start (vs.map f) := by
  apply List.ext_getElem?
  intro j
  rw [List.getElem?_map, getElem?_overwrite, getElem?_overwrite, List.getElem?_map,
    List.getElem?_map]
  cases ws[j]? with
  | none => rfl
  | some w =>
      cases vs[j - start]? with
      | none => simp
      | some v =>
          by_cases hj : j < start
          · simp [hj]
          · simp [hj]

/-- What reaches beyond the list is lost. -/
theorem overwrite_take (ws : List α) (start : Nat) (vs : List α) :
    overwrite ws start (vs.take (ws.length - start)) = overwrite ws start vs := by
  apply List.ext_getElem?
  intro j
  rw [getElem?_overwrite, getElem?_overwrite]
  by_cases hj : j < ws.length
  · by_cases hstart : j < start
    · simp only [if_pos hstart]
    · have hin : j - start < ws.length - start := by omega
      rw [List.getElem?_take_of_lt hin]
  · rw [List.getElem?_eq_none (Nat.le_of_not_lt hj)]
    rfl

theorem overwrite_all (h : ws.length = vs.length) : overwrite ws 0 vs = vs := by
  apply List.ext_getElem?
  intro j
  rw [getElem?_overwrite]
  by_cases hj : j < vs.length
  · have hjw : j < ws.length := h.symm ▸ hj
    simp [hj, hjw]
  · have hjw : ¬ j < ws.length := h.symm ▸ hj
    rw [List.getElem?_eq_none (Nat.le_of_not_lt hj), List.getElem?_eq_none (Nat.le_of_not_lt hjw)]
    rfl

end Lists

/-! ### The elements of a block -/

namespace Block

variable {b : Block} {t : SlotType} {i : Nat}

def value (b : Block) (t : SlotType) (i : Nat) : Int32 :=
  t.valueOfBits (ofLittleEndian (b.data.slice (i * b.vector.elementSize.toNat) t.size))

def values (b : Block) (t : SlotType) : List Int32 :=
  (List.range b.vector.elementCount.toNat).map (b.value t)

theorem length_values (b : Block) (t : SlotType) :
    (b.values t).length = b.vector.elementCount.toNat := by
  rw [values, List.length_map, List.length_range]

/-- An element ends before a later one begins. -/
theorem element_le {size width i j : Nat} (hfits : size ≤ width) (hij : i < j) :
    i * width + size ≤ j * width :=
  calc i * width + size
      ≤ i * width + width := Nat.add_le_add_left hfits _
    _ = (i + 1) * width := (Nat.succ_mul i width).symm
    _ ≤ j * width := Nat.mul_le_mul_right width hij

/-- Every element lies within the contents. -/
theorem Sized.element_le (h : b.Sized) (hfits : t.size ≤ b.vector.elementSize.toNat)
    (hi : i < b.vector.elementCount.toNat) :
    i * b.vector.elementSize.toNat + t.size ≤ b.data.size := by
  have hsize : b.data.size = b.vector.elementCount.toNat * b.vector.elementSize.toNat :=
    h.trans (Nat.mul_comm _ _)
  rw [hsize]
  exact Block.element_le hfits hi

/-- The element that is written has its value truncated. The others do not overlap with it. -/
theorem value_patch (h : b.Sized) (hfits : t.size ≤ b.vector.elementSize.toNat)
    (hi : i < b.vector.elementCount.toNat) (v : Int32) (j : Nat) :
    ({ b with data := b.data.patch (i * b.vector.elementSize.toNat) (t.encode v) } : Block).value
      t j = if i = j then t.truncate v else b.value t j := by
  unfold value
  dsimp only
  have hlen : (t.encode v).length = t.size := t.length_encode v
  rcases Nat.lt_trichotomy i j with hlt | rfl | hgt
  · rw [if_neg (Nat.ne_of_lt hlt), Buffer.slice_patch_of_disjoint]
    rw [hlen]
    exact Or.inr (element_le hfits hlt)
  · have hread := Buffer.slice_patch b.data (i * b.vector.elementSize.toNat) (t.encode v)
    rw [hlen] at hread
    rw [if_pos rfl, hread (h.element_le hfits hi), t.valueOfBits_encode]
  · rw [if_neg (Nat.ne_of_gt hgt), Buffer.slice_patch_of_disjoint]
    exact Or.inl (element_le hfits hgt)

theorem values_patch (h : b.Sized) (hfits : t.size ≤ b.vector.elementSize.toNat)
    (hi : i < b.vector.elementCount.toNat) (v : Int32) :
    ({ b with data := b.data.patch (i * b.vector.elementSize.toNat) (t.encode v) } : Block).values t
      = (b.values t).set i (t.truncate v) := by
  apply List.ext_getElem?
  intro j
  rw [values, List.getElem?_set, values, List.getElem?_map, List.getElem?_map, List.length_map,
    List.length_range, if_pos hi]
  dsimp only
  by_cases hj : j < b.vector.elementCount.toNat
  · rw [List.getElem?_range hj, Option.map_some, value_patch h hfits hi v j]
    split <;> rfl
  · have hne : i ≠ j := Nat.ne_of_lt (Nat.lt_of_lt_of_le hi (Nat.le_of_not_lt hj))
    rw [List.getElem?_eq_none (by rw [List.length_range]; exact Nat.le_of_not_lt hj), if_neg hne]
    rfl

/-- The values of elements are such that their type keeps them. -/
theorem map_truncate_values (h : b.Sized) (hfits : t.size ≤ b.vector.elementSize.toNat) :
    (b.values t).map t.truncate = b.values t := by
  rw [values, List.map_map]
  apply List.map_congr_left
  intro i hi
  have hin := h.element_le hfits (List.mem_range.1 hi)
  have hlt := ofLittleEndian_lt (b.data.slice (i * b.vector.elementSize.toNat) t.size)
  rw [Buffer.length_slice _ _ _ hin] at hlt
  exact t.truncate_valueOfBits hlt

end Block

/-! ### The elements of an array -/

namespace Memory

variable {m m' : Memory} {e e' i d n : Nat} {t : SlotType} {v : Int32} {vs ws : List Int32}

theorem elements_eq_ok_iff {start count : Nat} :
    m.elements e start count = .ok vs
      ↔ (List.range' start count).map (m.element e) = vs.map .ok := by
  induction count generalizing start vs with
  | zero => simp [elements, eq_comm]
  | succ count ih =>
      simp only [elements, bind_eq_ok_iff, ih, List.range'_succ, List.map_cons]
      constructor
      · rintro ⟨w, hw, ws, hws, h⟩
        cases h
        rw [hw, hws, List.map_cons]
      · intro h
        cases vs with
        | nil => cases h
        | cons w ws =>
            obtain ⟨hw, hws⟩ := List.cons.inj h
            exact ⟨w, hw, ws, hws, rfl⟩

def readings (m : Memory) (e : Nat) : Except MemoryError (List (Except MemoryError Int32)) :=
  (m.arrayLength e).map fun n => (List.range n).map (m.element e)

/-- All elements of an array can be read if each of them can. -/
theorem allElements_eq_ok_iff : m.allElements e = .ok vs ↔ m.readings e = .ok (vs.map .ok) := by
  simp only [allElements, readings, bind_eq_ok_iff, map_eq_ok_iff, elements_eq_ok_iff,
    List.range_eq_range']

/-- A part of an array can be read if each of its elements can, whatever the others are. -/
theorem elements_eq_ok_iff_take_drop {start count : Nat} (hn : m.arrayLength e = .ok n)
    (hcount : start + count ≤ n) :
    m.elements e start count = .ok vs ↔ ∃ all, m.readings e = .ok all ∧ all.length = n ∧
      (all.drop start).take count = vs.map .ok := by
  have hpart : (((List.range n).map (m.element e)).drop start).take count
      = (List.range' start count).map (m.element e) := by
    rw [← List.map_drop, ← List.map_take, List.range_eq_range', List.drop_range',
      take_range' (Nat.le_sub_of_add_le' hcount), Nat.zero_add, Nat.mul_one]
  rw [elements_eq_ok_iff, ← hpart, readings, hn]
  constructor
  · intro h
    exact ⟨_, rfl, by rw [List.length_map, List.length_range], h⟩
  · rintro ⟨all, hall, _, h⟩
    cases hall
    exact h

def index? (m : Memory) (e : UInt16) : Except MemoryError (Option Nat) :=
  if e = noEntry then .ok none else (m.scalar e.toNat).map fun v => some v.toUInt32.toNat

/-- The array at entry `e` is block `d`, and its elements have the flat type `t`, which is no wider
than the dope vector says. -/
structure ArrayOf (m : Memory) (e d : Nat) (t : SlotType) : Prop where
  type : m.elementType e = .ok t
  index : m.blockIndex e = .ok d
  fits : t.size ≤ (m.block d).vector.elementSize.toNat

structure HasElements (m : Memory) (e d : Nat) (t : SlotType) (ws : List Int32) : Prop
    extends ArrayOf m e d t where
  sized : (m.block d).Sized
  values : (m.block d).values t = ws

theorem ArrayOf.hasElements (h : m.ArrayOf e d t) (hm : m.Sized) :
    m.HasElements e d t ((m.block d).values t) where
  toArrayOf := h
  sized := hm.block h.index
  values := rfl

/-- The array at entry `e` is a block, but the entry behind it does not declare elements that fit:
it is missing, is not flat, or is wider than the dope vector says. -/
def Misdeclared (m : Memory) (e : Nat) : Prop :=
  ∃ d, m.blockIndex e = .ok d ∧ (m.toc[e + 1]? = none ∨
    ∃ t, m.toc[e + 1]? = some t ∧
      (t.slotType.isFlat = false ∨ (m.block d).vector.elementSize.toNat < t.slotType.size))

theorem arrayOf_or_misdeclared (hd : m.blockIndex e = .ok d) :
    (∃ t, m.ArrayOf e d t) ∨ m.Misdeclared e := by
  obtain ⟨entry, hentry, harray, _⟩ := blockIndex_eq_ok_iff.1 hd
  cases htoc : m.toc[e + 1]? with
  | none => exact Or.inr ⟨d, hd, Or.inl htoc⟩
  | some t =>
      by_cases hflat : t.slotType.isFlat = true
      · rcases Nat.lt_or_ge (m.block d).vector.elementSize.toNat t.slotType.size with hlt | hge
        · exact Or.inr ⟨d, hd, Or.inr ⟨t, htoc, Or.inr hlt⟩⟩
        · have htype : m.elementType e = .ok t.slotType :=
            elementType_eq_ok_iff.2 ⟨entry, t, hentry, harray, htoc, rfl, hflat⟩
          exact Or.inl ⟨t.slotType, htype, hd, hge⟩
      · exact Or.inr ⟨d, hd, Or.inr ⟨t, htoc, Or.inl (Bool.eq_false_iff.2 hflat)⟩⟩

theorem ArrayOf.slotType (h : m.ArrayOf e d t) : m.slotType e = .ok .array := by
  obtain ⟨entry, _, hentry, harray, _⟩ := elementType_eq_ok_iff.1 h.type
  exact slotType_eq_ok_iff.2 ⟨entry, hentry, harray⟩

theorem ArrayOf.isScalar (h : m.ArrayOf e d t) : t.isScalar = true := by
  obtain ⟨_, _, _, _, _, _, hflat⟩ := elementType_eq_ok_iff.1 h.type
  exact SlotType.isScalar_of_isFlat hflat

theorem ArrayOf.of_changesOnly (h : m.ArrayOf e d t) (hm : m.ChangesOnly e' m') :
    m'.ArrayOf e d t where
  type := (hm.elementType e).trans h.type
  index := (hm.blockIndex e).trans h.index
  fits := by
    rw [hm.elementSize]
    exact h.fits

namespace HasElements

theorem count_eq (h : m.HasElements e d t ws) :
    (m.block d).vector.elementCount.toNat = ws.length := by
  rw [← h.values, Block.length_values]

theorem arrayLength (h : m.HasElements e d t ws) : m.arrayLength e = .ok ws.length := by
  rw [Memory.arrayLength, h.index, ← h.count_eq]
  rfl

theorem elementTarget (h : m.HasElements e d t ws) (hi : i < ws.length) :
    m.elementTarget e i = .ok ⟨t, d, i * (m.block d).vector.elementSize.toNat⟩ := by
  rw [← h.count_eq] at hi
  exact elementTarget_eq_ok_iff.2
    ⟨t, d, h.type, h.index, hi, h.sized.element_le h.fits hi, rfl⟩

theorem element (h : m.HasElements e d t ws) (hi : i < ws.length) :
    m.element e i = .ok ((m.block d).value t i) := by
  rw [Memory.element, h.elementTarget hi]
  rfl

theorem allElements (h : m.HasElements e d t ws) : m.allElements e = .ok ws := by
  rw [allElements_eq_ok_iff, readings, h.arrayLength]
  refine congrArg Except.ok ?_
  calc (List.range ws.length).map (m.element e)
      = (List.range ws.length).map fun i => .ok ((m.block d).value t i) :=
        List.map_congr_left fun i hi => h.element (List.mem_range.1 hi)
    _ = ((m.block d).values t).map .ok := by
        rw [Block.values, List.map_map, h.count_eq]
        rfl
    _ = ws.map .ok := by rw [h.values]

/-- The values of an array are kept by the type of its elements. -/
theorem map_truncate (h : m.HasElements e d t ws) : ws.map t.truncate = ws := by
  rw [← h.values]
  exact Block.map_truncate_values h.sized h.fits

theorem putElement (h : m.HasElements e d t ws) (hi : i < ws.length) (v : Int32) :
    (m.putElement ⟨t, d, i * (m.block d).vector.elementSize.toNat⟩ v).HasElements e d t
      (ws.set i (t.truncate v)) where
  toArrayOf := h.toArrayOf.of_changesOnly (changesOnly_putElement (h.elementTarget hi))
  sized := by
    rw [Memory.putElement, block_modifyBlock _ _ _ _ (blockIndex_lt h.index), if_pos rfl]
    exact ((m.block d).evolves_data (t.size_store v _ _)).sized h.sized
  values := by
    rw [← h.count_eq] at hi
    rw [Memory.putElement, block_modifyBlock _ _ _ _ (blockIndex_lt h.index), if_pos rfl,
      ← h.values, SlotType.store_of_fits h.isScalar (h.sized.element_le h.fits hi)]
    exact Block.values_patch h.sized h.fits hi v

/-- Elements that exist can be stored, one after the other. -/
theorem storeElements (h : m.HasElements e d t ws) (hi : vs.length ≤ ws.length - i) :
    Succeeds (storeElements e i vs) m fun _ m' =>
      m'.HasElements e d t (overwrite ws i (vs.map t.truncate)) := by
  induction vs generalizing m i ws with
  | nil =>
      refine ⟨(), m, rfl, ?_⟩
      rw [List.map_nil, overwrite_nil]
      exact h
  | cons v vs ih =>
      rw [List.length_cons] at hi
      have hlt : i < ws.length := by omega
      have hrest : vs.length ≤ (ws.set i (t.truncate v)).length - (i + 1) := by
        rw [List.length_set]
        omega
      obtain ⟨_, m', hrun, hm'⟩ := ih (h.putElement hlt v) hrest
      refine ⟨(), m', ?_, ?_⟩
      · change Memory.storeElements e i (v :: vs) m = _
        unfold Memory.storeElements
        rw [h.elementTarget hlt]
        exact hrun
      · rw [List.map_cons, overwrite_cons]
        exact hm'

end HasElements

theorem atomic_update {f : Memory → Except MemoryError Memory} {Q : Unit → Memory → Prop}
    (h : ∀ m', f m = .ok m' → Q () m') : Atomic (Change.update f) m Q := by
  cases hf : f m with
  | error err =>
      refine Or.inl ⟨err, ?_⟩
      change Change.update f m = _
      rw [Change.update, hf]
  | ok m' =>
      refine Or.inr ⟨(), m', ?_, h m' hf⟩
      change Change.update f m = _
      rw [Change.update, hf]

theorem elementCount_resize (b : Block) (hn : n ≤ maxArrayLength) :
    (b.resize n).vector.elementCount.toNat = n := by
  unfold Block.resize
  dsimp only
  split
  case isTrue hcount => rw [hcount, toNat_ofNat_of_le hn]
  case isFalse => exact toNat_ofNat_of_le hn

namespace ArrayOf

theorem setArrayLength (h : m.ArrayOf e d t) (hm : m.Sized) (n : Nat) :
    Atomic (Change.update (·.setArrayLength e n)) m fun _ m' =>
      ∃ ws, m'.HasElements e d t ws ∧ ws.length = n := by
  apply atomic_update
  intro m' hm'
  have harray : m'.ArrayOf e d t := h.of_changesOnly (changesOnly_setArrayLength hm')
  obtain ⟨d', hd', rfl⟩ := map_eq_ok_iff.1 hm'
  obtain ⟨hindex, hn⟩ := arrayTarget_eq_ok_iff.1 hd'
  obtain rfl : d = d' := Except.ok.inj (h.index.symm.trans hindex)
  have hblock : (m.resizeBlock d n).block d = (m.block d).resize n := by
    rw [resizeBlock, block_modifyBlock _ _ _ _ (blockIndex_lt hindex), if_pos rfl]
  refine ⟨_, { toArrayOf := harray, sized := ?_, values := rfl }, ?_⟩
  · rw [hblock]
    exact ((m.block d).evolves_resize n).sized (hm.block hindex)
  · rw [Block.length_values, hblock, elementCount_resize _ hn]

/-- Assigning a list gives an array of its values, truncated to the type of the elements. Only a
list that is too long cannot be assigned. -/
theorem assign (h : m.ArrayOf e d t) (hm : m.Sized) (vs : List Int32) :
    Atomic (assign e vs) m fun _ m' => m'.HasElements e d t (vs.map t.truncate) := by
  refine Atomic.bind ((h.setArrayLength hm vs.length).mono ?_)
  rintro _ m' ⟨ws, hws, hlength⟩
  refine (hws.storeElements (Nat.le_of_eq hlength.symm)).mono ?_
  intro _ m'' hm''
  rwa [overwrite_all (by rw [hlength, List.length_map])] at hm''

/-- The source is read before the destination is resized, so it does not matter if they are one
array. -/
theorem copyArray (h : m.ArrayOf e d t) (hm : m.Sized) (src : Nat) :
    Atomic (copyArray e src) m fun _ m' =>
      ∃ vs, m.allElements src = .ok vs ∧ m'.HasElements e d t (vs.map t.truncate) := by
  refine Atomic.bind_of_keeps (fun _ => rfl) fun vs hrun => ?_
  refine (h.assign hm vs).mono fun _ m' hm' => ⟨vs, ?_, hm'⟩
  exact congrArg Prod.fst hrun

end ArrayOf

end Memory

end BrickMachine
