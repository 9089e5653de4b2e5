import BrickMachine.Code.Assembly
import BrickMachine.Image.Dataspace
import BrickMachine.Proofs.Machine.Shape

/-!
# The shape of a loaded memory

A memory that was loaded from an image is changed by its host through five operations, and by a
machine that makes steps on it. An `Edit` is one such change; it may fail, and may then have
changed something already. `shape_afterEdits` says what no sequence of edits can destroy: the
statics have the size that the image gives, the blocks have the dope vectors that were built from
the image except for their element counts, and every array is as long as its dope vector says.
-/

namespace BrickMachine

/-- A change that a host or a headless machine can make to a memory. -/
inductive Edit where
  | setScalar (e : Nat) (v : Int32)
  | setArrayLength (e n : Nat)
  | setElement (e i : Nat) (v : Int32)
  | setArrayData (e : Nat) (bytes : List UInt8)
  | copyArray (dst src : Nat)
  /-- One step of a machine that has the memory for its own. -/
  | step (machine : Machine HeadlessRobot)

def Edit.change : Edit → Change Unit
  | setScalar e v => Change.update (·.setScalar e v)
  | setArrayLength e n => Change.update (·.setArrayLength e n)
  | setElement e i v => Change.update (·.setElement e i v)
  | setArrayData e bytes => Change.update (·.setArrayData e bytes)
  | copyArray dst src => Memory.copyArray dst src
  | step machine => fun m => (.ok (), { machine with memory := m }.step.2.memory)

theorem Edit.keeps_change (edit : Edit) : Keeps Memory.Evolves edit.change := by
  cases edit with
  | setScalar e v => exact Memory.keeps_update Memory.evolves_setScalar
  | setArrayLength e n => exact Memory.keeps_update Memory.evolves_setArrayLength
  | setElement e i v => exact Memory.keeps_update Memory.evolves_setElement
  | setArrayData e bytes => exact Memory.keeps_update Memory.evolves_setArrayData
  | copyArray dst src => exact (Memory.arrayKeeps_evolves dst).copyArray src
  | step machine => exact fun m => Machine.evolves_step { machine with memory := m }

namespace Memory

def afterEdits (m : Memory) : List Edit → Memory
  | [] => m
  | edit :: edits => (edit.change.run m).2.afterEdits edits

theorem evolves_afterEdits (m : Memory) (edits : List Edit) : m.Evolves (m.afterEdits edits) := by
  induction edits generalizing m with
  | nil => exact refl_of Evolves m
  | cons edit edits ih => exact trans_of Evolves (edit.keeps_change m) (ih _)

/-- The dope vectors that are built from an image: those of its table, or only the table's own. -/
def builtVectors (image : Image) : Except Corruption (List DopeVector) :=
  if image.header.dynamicDefaultSize = 0 then .ok [loneTable image]
  else loadTable image image.header.dopeVectorOffset.toNat

/-- A memory with statics of the given size and the given dope vectors, except for the element
counts of arrays. -/
structure HasShape (m : Memory) (size : Nat) (vectors : List DopeVector) : Prop where
  statics : m.statics.size = size
  count : m.blocks.size = vectors.length
  nonempty : 0 < m.blocks.size
  /-- The table has its dope vector as it was, and no contents. -/
  table : m.blocks[0]? = vectors[0]?.map (⟨·, #[]⟩)
  /-- An array has its dope vector as it was but for the count, and the contents it gives. -/
  array (i : Nat) (v : DopeVector) : 0 < i → vectors[i]? = some v →
    ∃ b, m.blocks[i]? = some b ∧
      b.data.size = b.vector.elementSize.toNat * b.vector.elementCount.toNat ∧
      b.vector.offset = v.offset ∧ b.vector.elementSize = v.elementSize ∧
      b.vector.backPointer = v.backPointer ∧ b.vector.linkIndex = v.linkIndex

theorem mapM_loadBlock_vectors {image : Image} {vs : List DopeVector} {bs : List Block}
    (h : vs.mapM (loadBlock image) = .ok bs) : bs.map Block.vector = vs := by
  induction vs generalizing bs with
  | nil =>
      cases h
      rfl
  | cons v vs ih =>
      rw [List.mapM_cons] at h
      obtain ⟨b, hb, h⟩ := bind_eq_ok_iff.1 h
      obtain ⟨bs, hbs, h⟩ := bind_eq_ok_iff.1 h
      cases h
      rw [List.map_cons, ih hbs]
      congr 1
      unfold loadBlock at hb
      split at hb
      · cases hb
        rfl
      · obtain ⟨bytes, _, hb⟩ := bind_eq_ok_iff.1 hb
        cases hb
        rfl

theorem builtVectors_of_loadBlocks {image : Image} {bs : List Block}
    (h : loadBlocks image = .ok bs) : builtVectors image = .ok (bs.map Block.vector) := by
  unfold loadBlocks at h
  unfold builtVectors
  split at h
  case isTrue hstatic =>
    cases h
    exact if_pos hstatic
  case isFalse hdynamic =>
    obtain ⟨vectors, hvectors, h⟩ := bind_eq_ok_iff.1 h
    rw [if_neg hdynamic, hvectors]
    cases vectors with
    | nil => cases h
    | cons table vectors =>
        obtain ⟨arrays, harrays, h⟩ := bind_eq_ok_iff.1 h
        cases h
        rw [List.map_cons, mapM_loadBlock_vectors harrays]

/-- A loaded memory has the shape that its image says. -/
theorem hasShape_load {image : Image} {m : Memory} (h : load image = .ok m) :
    ∃ vectors, builtVectors image = .ok vectors ∧
      m.HasShape image.header.staticSize.toNat vectors := by
  obtain ⟨statics, blocks, hstatics, hblocks, rfl⟩ := load_eq_ok_iff.1 h
  obtain ⟨table, arrays, rfl, hsized⟩ := sized_loadBlocks hblocks
  refine ⟨_, builtVectors_of_loadBlocks hblocks, ?_⟩
  constructor
  case statics => rw [size_fillStatics hstatics, Array.size_replicate]
  case count => simp
  case nonempty => simp
  case table => simp
  case array =>
    rintro i v hi hv
    obtain ⟨j, rfl⟩ : ∃ j, i = j + 1 := Nat.exists_eq_add_one.2 hi
    rw [List.map_cons, List.getElem?_cons_succ, List.getElem?_map] at hv
    obtain ⟨b, hb, rfl⟩ := Option.map_eq_some_iff.1 hv
    refine ⟨b, ?_, hsized b (List.mem_of_getElem? hb), rfl, rfl, rfl, rfl⟩
    rw [List.getElem?_toArray, List.getElem?_cons_succ, hb]

/-- What can have come from a memory of some shape has the same shape. -/
theorem HasShape.of_evolves {m m' : Memory} {size : Nat} {vectors : List DopeVector}
    (hm : m.HasShape size vectors) (h : m.Evolves m') : m'.HasShape size vectors := by
  constructor
  case statics => rw [h.size_statics, hm.statics]
  case count => rw [h.size_blocks, hm.count]
  case nonempty =>
    rw [h.size_blocks]
    exact hm.nonempty
  case table => rw [h.table, hm.table]
  case array =>
    intro i v hi hv
    obtain ⟨b, hb, hsized, hoffset, hsize, hback, hlink⟩ := hm.array i v hi hv
    obtain ⟨b', hb', hbb'⟩ := h.block i b hb
    have hvector := hbb'.vector
    refine ⟨b', hb', hbb'.sized hsized, ?_, ?_, ?_, ?_⟩
    · rw [← hoffset, ← hvector]
    · rw [← hsize, ← hvector]
    · rw [← hback, ← hvector]
    · rw [← hlink, ← hvector]

/-- No sequence of edits destroys the shape that a memory got from its image. -/
theorem shape_afterEdits {image : Image} {m : Memory} (h : load image = .ok m)
    (edits : List Edit) :
    ∃ vectors, builtVectors image = .ok vectors ∧
      (m.afterEdits edits).HasShape image.header.staticSize.toNat vectors := by
  obtain ⟨vectors, hvectors, hm⟩ := hasShape_load h
  exact ⟨vectors, hvectors, hm.of_evolves (m.evolves_afterEdits edits)⟩

def twoArrays : Image :=
  (((({} : Dataspace).scalar .ulong 3).array .uword [1, 2, 3]).array .ubyte []).toImage #[]
    (assemble [.mov 3 1]).toArray

def arrayEdits : List Edit :=
  [.setElement 3 0 7, .setArrayLength 1 2,
   .step ⟨twoArrays, ⟨#[], #[], #[], []⟩, {}, false, .ofSensors [], .driven 0, #[], []⟩]

theorem shape_afterEdits_twoArrays :
    ∃ m, load twoArrays = .ok m ∧ ∃ vectors, builtVectors twoArrays = .ok vectors ∧
      (m.afterEdits arrayEdits).HasShape 8 vectors := by
  obtain ⟨m, hm⟩ : ∃ m, load twoArrays = .ok m := ⟨_, rfl⟩
  exact ⟨m, hm, shape_afterEdits hm arrayEdits⟩

end Memory

end BrickMachine
