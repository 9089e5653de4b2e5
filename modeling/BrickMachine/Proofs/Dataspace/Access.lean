import BrickMachine.Proofs.Dataspace.Arrays
import BrickMachine.Proofs.Memory.Access

/-!
# Access to a loaded dataspace

`Loaded es m` says that a memory is what the entries `es` are loaded as. For one entry among the
others, it gives the place of its slot, the value there, and for an array also the block and its
elements. A later entry lies behind an earlier one in all respects.
-/

namespace BrickMachine

namespace Declared

def slotType : Declared → SlotType
  | number t _ => t
  | list .. => .array

def initial (index : Nat) : Declared → List UInt8
  | number t v => t.encode v
  | list .. => SlotType.array.encode (Int32.ofNat index)

theorem size_slotType (x : Declared) : x.slotType.size = x.staticSize := by
  cases x <;> rfl

end Declared

/-- The entries that have a slot. -/
theorem Entry.of_declared? {e : Entry} {x : Declared} (h : e.declared? = some x) :
    (∃ t v, e = .scalar t v ∧ t.isFlat = true ∧ x = .number t v) ∨
    (∃ t, e = .zeroed t ∧ t.isFlat = true ∧ x = .number t 0) ∨
    ∃ t size vs count, e = .array t size vs count ∧ x = .list t size.toNat count.toNat vs := by
  cases e with
  | scalar t v =>
      obtain ⟨hflat, hx⟩ := Option.ite_none_right_eq_some.1 h
      cases hx
      exact Or.inl ⟨t, v, rfl, hflat, rfl⟩
  | zeroed t =>
      obtain ⟨hflat, hx⟩ := Option.ite_none_right_eq_some.1 h
      cases hx
      exact Or.inr (Or.inl ⟨t, rfl, hflat, rfl⟩)
  | array t size vs count =>
      cases h
      exact Or.inr (Or.inr ⟨t, size, vs, count, rfl, rfl⟩)
  | declaration => cases h

/-- How an entry lays out the slot that it has. -/
theorem Entry.layout_of_declared? {e : Entry} {x : Declared} (h : e.declared? = some x) :
    (∀ offset, (e.toToc offset).slotType = x.slotType ∧
      (e.toToc offset).descriptor = UInt16.ofNat offset) ∧
    e.storage = x.staticSize ∧ ∀ index, e.initial index = x.initial index := by
  rcases Entry.of_declared? h with ⟨t, v, rfl, _, rfl⟩ | ⟨t, rfl, _, rfl⟩ | ⟨t, _, _, _, rfl, rfl⟩
  · exact ⟨fun _ => ⟨rfl, rfl⟩, rfl, fun _ => rfl⟩
  · exact ⟨fun _ => ⟨rfl, rfl⟩, rfl, fun _ => rfl⟩
  · exact ⟨fun _ => ⟨rfl, rfl⟩, rfl, fun _ => rfl⟩

namespace Dataspace

/-- What follows an array declares its elements. -/
theorem Completes.element_after {w : Memory.Walk} {es : List Entry} (h : Completes w es)
    {before after : List Entry} {t : SlotType} {size count : UInt16} {vs : List Int32}
    (hes : es = before ++ .array t size vs count :: after) :
    ∃ n rest, after = .declaration t n :: rest := by
  induction h generalizing before with
  | done => simp at hes
  | @array u n fs size' vs' count' _ ih =>
      rcases List.append_eq_cons_iff.1 hes.symm with ⟨rfl, hcons⟩ | ⟨rest, rfl, hrest⟩
      · cases hcons
        exact ⟨n, fs, rfl⟩
      · exact ih hrest
  | scalar _ _ _ ih | zeroed _ _ ih | head _ _ ih | nested _ _ ih | members _ _ ih
  | element _ _ _ _ ih | member _ _ _ ih =>
      rcases List.append_eq_cons_iff.1 hes.symm with ⟨rfl, hcons⟩ | ⟨rest, rfl, hrest⟩
      · cases hcons
      · exact ih hrest

/-- A memory that entries are loaded as. -/
structure Loaded (es : List Entry) (m : Memory) : Prop where
  complete : Completes (.skipping 0) es
  size_le : staticSize es ≤ 65535
  toc : m.toc = (tocFrom 0 es).toArray
  statics : m.statics = (initialFrom 1 es).toArray
  blocks : ∃ table arrays, m.blocks = (table :: arrays).toArray ∧
    arrays.map Block.plan = arrayPlans es
  plans_lt : (arrayPlans es).length < 65535
  slots : m.slots = (slotsFrom 0 es).map Prod.fst

theorem length_flatMap_encode (t : SlotType) (vs : List Int32) :
    (vs.flatMap t.encode).length = vs.length * t.size := by
  induction vs with
  | nil => exact (Nat.zero_mul _).symm
  | cons v vs ih =>
      rw [List.flatMap_cons, List.length_append, SlotType.length_encode, ih, List.length_cons,
        Nat.succ_mul, Nat.add_comm]

/-- The bytes of one element among the others. -/
theorem slice_flatMap_encode (t : SlotType) {vs : List Int32} {i : Nat} {v : Int32}
    (hv : vs[i]? = some v) :
    Buffer.slice (vs.flatMap t.encode).toArray (i * t.size) t.size = t.encode v := by
  obtain ⟨hi, rfl⟩ := List.getElem?_eq_some_iff.1 hv
  have hsplit : vs.flatMap t.encode = (vs.take i).flatMap t.encode ++ t.encode vs[i]
      ++ (vs.drop (i + 1)).flatMap t.encode := by
    rw [List.append_assoc, ← List.flatMap_cons, ← List.drop_eq_getElem_cons hi,
      ← List.flatMap_append, List.take_append_drop]
  have hslice := Buffer.slice_middle ((vs.take i).flatMap t.encode) (t.encode vs[i])
    ((vs.drop (i + 1)).flatMap t.encode)
  rw [length_flatMap_encode, List.length_take, Nat.min_eq_left (Nat.le_of_lt hi),
    SlotType.length_encode] at hslice
  rw [hsplit, hslice]

/-- The contents of an array that has as many values as elements. -/
theorem arrayContents_flat {t : SlotType} {size count : UInt16} {vs : List Int32}
    (ht : t.isFlat = true) (hsize : size.toNat = t.size) (hcount : count.toNat = vs.length) :
    arrayContents t size vs count = vs.flatMap t.encode := by
  have hlen : size.toNat * count.toNat = (vs.flatMap t.encode).length := by
    rw [length_flatMap_encode, hsize, hcount, Nat.mul_comm]
  rw [arrayContents, if_pos ht, fitted, hlen, List.take_length, Nat.sub_self, List.replicate_zero,
    List.append_nil]

theorem arrayContents_zeros {t : SlotType} (ht : t.isFlat = false) (size count : UInt16)
    (vs : List Int32) :
    arrayContents t size vs count = List.replicate (size.toNat * count.toNat) 0 := by
  rw [arrayContents, ht, if_neg Bool.false_ne_true, fitted, List.take_nil, List.nil_append]
  rfl

/-- An entry that comes after another has it among the entries before it. -/
theorem exists_between {before₁ before₂ after₁ after₂ : List Entry} {e₁ e₂ : Entry}
    (h : before₁ ++ e₁ :: after₁ = before₂ ++ e₂ :: after₂)
    (hlt : before₁.length < before₂.length) :
    ∃ between, before₂ = before₁ ++ e₁ :: between := by
  rcases List.append_eq_append_iff.1 h with ⟨rest, rfl, hrest⟩ | ⟨rest, rfl, _⟩
  · rcases List.cons_eq_append_iff.1 hrest with ⟨rfl, _⟩ | ⟨between, rfl, _⟩
    · rw [List.append_nil] at hlt
      exact absurd hlt (Nat.lt_irrefl _)
    · exact ⟨between, rfl⟩
  · rw [List.length_append] at hlt
    exact absurd hlt (Nat.not_lt_of_le (Nat.le_add_right _ _))

namespace Loaded

variable {es before after : List Entry} {m : Memory} {e : Entry} {x : Declared}

/-- The slot of an entry lies where the storage of the entries before it ends. -/
theorem slot (h : Loaded es m) (hes : es = before ++ e :: after) (hx : e.declared? = some x) :
    ∃ t, m.toc[before.length]? = some t ∧ t.slotType = x.slotType ∧
      t.descriptor.toNat = staticSize before ∧
      staticSize before + x.slotType.size ≤ m.statics.size ∧
      m.statics.slice (staticSize before) x.slotType.size
        = x.initial ((arrayPlans before).length + 1) := by
  subst hes
  obtain ⟨htoc, hstorage, hinitial⟩ := e.layout_of_declared? hx
  have hsize := h.size_le
  rw [staticSize_append, staticSize] at hsize
  have hoffset : (UInt16.ofNat (staticSize before)).toNat = staticSize before :=
    toNat_ofNat_of_le (Nat.le_trans (Nat.le_add_right _ _) hsize)
  rw [x.size_slotType, ← hstorage]
  refine ⟨e.toToc (0 + staticSize before), ?_, (htoc _).1, ?_, ?_, ?_⟩
  · rw [h.toc, List.getElem?_toArray, getElem?_tocFrom]
  · rw [(htoc _).2, Nat.zero_add, hoffset]
  · rw [h.statics, List.size_toArray, length_initialFrom, staticSize_append, staticSize]
    omega
  · rw [h.statics, slice_initialFrom, hinitial]

theorem scalar (h : Loaded es m) (hes : es = before ++ e :: after) {t : SlotType} {v : Int32}
    (hx : e.declared? = some (.number t v)) : m.scalar before.length = .ok (t.truncate v) := by
  obtain ⟨entry, hentry, htype, hoffset, hfits, hslice⟩ := h.slot hes hx
  have hflat : t.isFlat = true := by
    rcases Entry.of_declared? hx with ⟨_, _, _, ht, hx⟩ | ⟨_, _, ht, hx⟩ | ⟨_, _, _, _, _, hx⟩
    · cases hx
      exact ht
    · cases hx
      exact ht
    · cases hx
  refine Memory.scalar_eq_ok_iff.2 ⟨entry, hentry, ?_⟩
  rw [htype, hoffset, hslice]
  exact ⟨SlotType.isScalar_of_isFlat hflat, hfits, (t.valueOfBits_encode v).symm⟩

section Array

variable {t : SlotType} {size count : UInt16} {vs : List Int32}

/-- An array has the block after those of the arrays before it, with its size, its count and its
contents. -/
theorem getElem?_blocks (h : Loaded es m) (hes : es = before ++ .array t size vs count :: after) :
    ∃ b, m.blocks[(arrayPlans before).length + 1]? = some b ∧
      b.plan = ⟨size, count, arrayContents t size vs count⟩ := by
  obtain ⟨table, arrays, hblocks, hplans⟩ := h.blocks
  have hplan : arrayPlans es = arrayPlans before
      ++ ⟨size, count, arrayContents t size vs count⟩ :: arrayPlans after := by
    rw [hes, arrayPlans_append]
    rfl
  have hget : (arrays.map Block.plan)[(arrayPlans before).length]?
      = some ⟨size, count, arrayContents t size vs count⟩ := by
    rw [hplans, hplan]
    simp
  rw [List.getElem?_map] at hget
  obtain ⟨b, hb, hbplan⟩ := Option.map_eq_some_iff.1 hget
  refine ⟨b, ?_, hbplan⟩
  rw [hblocks, List.getElem?_toArray, List.getElem?_cons_succ, hb]

theorem blockIndex (h : Loaded es m) (hes : es = before ++ .array t size vs count :: after) :
    m.blockIndex before.length = .ok ((arrayPlans before).length + 1) := by
  obtain ⟨entry, hentry, htype, hoffset, hfits, hslice⟩ := h.slot hes rfl
  obtain ⟨b, hb, _⟩ := h.getElem?_blocks hes
  obtain ⟨hindex, _⟩ := Array.getElem?_eq_some_iff.1 hb
  have hlt : (arrayPlans before).length + 1 < 65536 := by
    have hplans := congrArg List.length (arrayPlans_append before (.array t size vs count :: after))
    have hall := h.plans_lt
    rw [hes, hplans, List.length_append] at hall
    omega
  refine Memory.blockIndex_eq_ok_iff.2 ⟨entry, hentry, htype, ?_, ?_, Nat.succ_pos _, hindex⟩
  · rw [hoffset]
    exact hfits
  · rw [hoffset]
    exact ((congrArg ofLittleEndian hslice).trans (SlotType.ofLittleEndian_encode_array hlt)).symm

theorem block (h : Loaded es m) (hes : es = before ++ .array t size vs count :: after) :
    (m.block ((arrayPlans before).length + 1)).plan
      = ⟨size, count, arrayContents t size vs count⟩ := by
  obtain ⟨b, hb, hplan⟩ := h.getElem?_blocks hes
  rw [Memory.block, hb, Option.getD_some, hplan]

theorem arrayLength (h : Loaded es m) (hes : es = before ++ .array t size vs count :: after) :
    m.arrayLength before.length = .ok count.toNat := by
  refine map_eq_ok_iff.2 ⟨_, h.blockIndex hes, ?_⟩
  exact congrArg (fun p : ArrayPlan => p.count.toNat) (h.block hes)

theorem arrayData (h : Loaded es m) (hes : es = before ++ .array t size vs count :: after) :
    m.arrayData before.length = .ok (arrayContents t size vs count).toArray := by
  refine map_eq_ok_iff.2 ⟨_, h.blockIndex hes, ?_⟩
  exact congrArg (fun p : ArrayPlan => p.contents.toArray) (h.block hes)

theorem elementType (h : Loaded es m) (hes : es = before ++ .array t size vs count :: after)
    (ht : t.isFlat = true) : m.elementType before.length = .ok t := by
  obtain ⟨entry, hentry, htype, _⟩ := h.slot hes rfl
  obtain ⟨n, rest, rfl⟩ := h.complete.element_after hes
  have hnext : m.toc[before.length + 1]? = some ⟨t, 0, n⟩ := by
    have hget := getElem?_tocFrom 0 (before ++ [.array t size vs count]) (.declaration t n) rest
    rw [List.length_append, List.length_singleton, List.append_assoc, List.singleton_append,
      ← hes] at hget
    rw [h.toc, List.getElem?_toArray, hget]
    rfl
  exact Memory.elementType_eq_ok_iff.2 ⟨entry, ⟨t, 0, n⟩, hentry, htype, hnext, rfl, ht⟩

/-- The elements of an array are the values that it was declared with, truncated. -/
theorem element (h : Loaded es m) (hes : es = before ++ .array t size vs count :: after)
    (ht : t.isFlat = true) (hsize : size.toNat = t.size) (hcount : count.toNat = vs.length)
    {i : Nat} {v : Int32} (hv : vs[i]? = some v) :
    m.element before.length i = .ok (t.truncate v) := by
  have hblock := h.block hes
  rw [arrayContents_flat ht hsize hcount] at hblock
  have hi := (List.getElem?_eq_some_iff.1 hv).1
  have hbound : i * t.size + t.size ≤ vs.length * t.size := by
    rw [← Nat.succ_mul]
    exact Nat.mul_le_mul_right t.size hi
  generalize hb : m.block ((arrayPlans before).length + 1) = b at hblock
  obtain ⟨hbsize, hbcount, hbdata⟩ : b.vector.elementSize.toNat = t.size ∧
      b.vector.elementCount.toNat = vs.length ∧ b.data = (vs.flatMap t.encode).toArray := by
    refine ⟨?_, ?_, congrArg (fun p : ArrayPlan => p.contents.toArray) hblock⟩
    · exact (congrArg (fun p : ArrayPlan => p.elementSize.toNat) hblock).trans hsize
    · exact (congrArg (fun p : ArrayPlan => p.count.toNat) hblock).trans hcount
  refine map_eq_ok_iff.2 ⟨⟨t, (arrayPlans before).length + 1, i * t.size⟩, ?_, ?_⟩
  · refine Memory.elementTarget_eq_ok_iff.2 ⟨t, _, h.elementType hes ht, h.blockIndex hes, ?_⟩
    rw [hb, hbsize, hbcount, hbdata, List.size_toArray, length_flatMap_encode]
    exact ⟨hi, hbound, rfl⟩
  · rw [Memory.getElement, hb, hbdata, slice_flatMap_encode t hv, t.valueOfBits_encode]

end Array

/-! ### Different slots -/

/-- A later slot lies behind an earlier one. -/
theorem slot_lt (h : Loaded es m) {before' after' : List Entry} {e' : Entry} {x' : Declared}
    (hes : es = before ++ e :: after) (hx : e.declared? = some x)
    (hes' : es = before' ++ e' :: after') (hx' : e'.declared? = some x')
    (hlt : before.length < before'.length) :
    ∃ t t', m.toc[before.length]? = some t ∧ m.toc[before'.length]? = some t' ∧
      t.descriptor.toNat + t.slotType.size ≤ t'.descriptor.toNat := by
  obtain ⟨t, ht, htype, hoffset, _⟩ := h.slot hes hx
  obtain ⟨t', ht', _, hoffset', _⟩ := h.slot hes' hx'
  obtain ⟨between, rfl⟩ := exists_between (hes.symm.trans hes') hlt
  refine ⟨t, t', ht, ht', ?_⟩
  rw [hoffset, hoffset', htype, x.size_slotType, ← (e.layout_of_declared? hx).2.1,
    staticSize_append, staticSize]
  omega

/-- A later array has a later block than an earlier one. -/
theorem blockIndex_lt (h : Loaded es m) {before' after' : List Entry} {t t' : SlotType}
    {size size' count count' : UInt16} {vs vs' : List Int32}
    (hes : es = before ++ .array t size vs count :: after)
    (hes' : es = before' ++ .array t' size' vs' count' :: after')
    (hlt : before.length < before'.length) :
    ∃ b b', m.blockIndex before.length = .ok b ∧ m.blockIndex before'.length = .ok b' ∧
      b < b' := by
  refine ⟨_, _, h.blockIndex hes, h.blockIndex hes', ?_⟩
  obtain ⟨between, rfl⟩ := exists_between (hes.symm.trans hes') hlt
  rw [arrayPlans_append, List.length_append]
  change _ < _ + ((arrayPlans between).length + 1) + 1
  omega

end Loaded

end Dataspace

end BrickMachine
