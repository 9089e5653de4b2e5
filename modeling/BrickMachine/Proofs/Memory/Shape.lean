import BrickMachine.Memory.Load
import BrickMachine.Proofs.Memory.Access

/-!
# The shape of memory

Whatever happens to a memory, its statics keep their size, it has the same blocks, and a dope
vector keeps everything but its element count. `m.Evolves m'` says that the memory `m'` can have
come from `m` in this respect, and that no block whose contents have the size its dope vector says
has lost this property on the way. Every change of memory keeps this relation, also if it fails.
-/

namespace BrickMachine

namespace Block

def Sized (b : Block) : Prop := b.data.size = b.vector.byteLength

instance (b : Block) : Decidable b.Sized := inferInstanceAs (Decidable (_ = _))

/-- The block `b'` can have come from `b`: only the element count and the contents are others. -/
structure Evolves (b b' : Block) : Prop where
  vector : { b'.vector with elementCount := b.vector.elementCount } = b.vector
  sized : b.Sized → b'.Sized

theorem Evolves.refl (b : Block) : b.Evolves b := ⟨rfl, id⟩

theorem Evolves.trans {a b c : Block} (h₁ : a.Evolves b) (h₂ : b.Evolves c) : a.Evolves c := by
  refine ⟨?_, fun h => h₂.sized (h₁.sized h)⟩
  rw [← h₁.vector, ← h₂.vector]

theorem evolves_resize (b : Block) (n : Nat) : b.Evolves (b.resize n) := by
  unfold resize
  dsimp only
  split
  · exact Evolves.refl b
  · exact ⟨rfl, fun _ => Buffer.size_resize _ _⟩

/-- Contents of the same size may take the place of a block's own. -/
theorem evolves_data (b : Block) {data : Buffer} (h : data.size = b.data.size) :
    b.Evolves { b with data } :=
  ⟨rfl, fun hb => h.trans hb⟩

end Block

namespace Memory

structure Evolves (m m' : Memory) : Prop where
  toc : m'.toc = m.toc
  slots : m'.slots = m.slots
  size_statics : m'.statics.size = m.statics.size
  size_blocks : m'.blocks.size = m.blocks.size
  table : m'.blocks[0]? = m.blocks[0]?
  block (i : Nat) (b : Block) : m.blocks[i]? = some b →
    ∃ b', m'.blocks[i]? = some b' ∧ b.Evolves b'

instance : IsPreorder Memory Evolves where
  refl m := ⟨rfl, rfl, rfl, rfl, rfl, fun _ b hb => ⟨b, hb, Block.Evolves.refl b⟩⟩
  trans a b c h₁ h₂ :=
    { toc := h₂.toc.trans h₁.toc
      slots := h₂.slots.trans h₁.slots
      size_statics := h₂.size_statics.trans h₁.size_statics
      size_blocks := h₂.size_blocks.trans h₁.size_blocks
      table := h₂.table.trans h₁.table
      block := by
        intro i x hx
        obtain ⟨y, hy, hxy⟩ := h₁.block i x hx
        obtain ⟨z, hz, hyz⟩ := h₂.block i y hy
        exact ⟨z, hz, hxy.trans hyz⟩ }

variable {m : Memory} {e i d n : Nat}

/-- Every array has contents of the size that its dope vector says. The table's own block is no
array. -/
def Sized (m : Memory) : Prop :=
  ∀ i b, 0 < i → m.blocks[i]? = some b → b.Sized

theorem sized_iff : m.Sized ↔ ∀ b ∈ m.blocks.toList.tail, b.Sized := by
  constructor
  · intro h b hb
    obtain ⟨i, hi⟩ := List.getElem?_of_mem hb
    rw [List.getElem?_tail, Array.getElem?_toList] at hi
    exact h (i + 1) b (Nat.succ_pos i) hi
  · intro h i b hpos hb
    obtain ⟨j, rfl⟩ : ∃ j, i = j + 1 := Nat.exists_eq_add_one.2 hpos
    apply h b
    apply List.mem_of_getElem?
    rw [List.getElem?_tail, Array.getElem?_toList]
    exact hb

instance (m : Memory) : Decidable m.Sized := decidable_of_iff _ sized_iff.symm

/-! ### Changes of memory -/

theorem evolves_putSlot (m : Memory) (target : SlotTarget) (v : Int32) :
    m.Evolves (m.putSlot target v) :=
  { (refl_of Evolves m) with size_statics := target.slotType.size_store v _ _ }

/-- Any block but that of the table may be changed. -/
theorem evolves_modifyBlock {f : Block → Block} (hd : 0 < d) (hf : ∀ b : Block, b.Evolves (f b)) :
    m.Evolves (m.modifyBlock d f) where
  toc := rfl
  slots := rfl
  size_statics := rfl
  size_blocks := Array.size_modify
  table := by
    rw [modifyBlock, Array.getElem?_modify, if_neg (Nat.ne_of_gt hd)]
  block i b hb := by
    rw [modifyBlock, Array.getElem?_modify, hb]
    split
    · exact ⟨f b, rfl, hf b⟩
    · exact ⟨b, rfl, Block.Evolves.refl b⟩

theorem blockIndex_pos (h : m.blockIndex e = .ok d) : 0 < d := by
  obtain ⟨_, _, _, _, _, hpos, _⟩ := blockIndex_eq_ok_iff.1 h
  exact hpos

theorem evolves_setScalar {m' : Memory} {v : Int32} (h : m.setScalar e v = .ok m') :
    m.Evolves m' := by
  obtain ⟨target, _, rfl⟩ := map_eq_ok_iff.1 h
  exact evolves_putSlot m target v

theorem evolves_putElement {target : ElementTarget} {v : Int32}
    (h : m.elementTarget e i = .ok target) : m.Evolves (m.putElement target v) := by
  obtain ⟨t, d, _, hd, _, _, rfl⟩ := elementTarget_eq_ok_iff.1 h
  exact evolves_modifyBlock (blockIndex_pos hd) fun b => b.evolves_data (t.size_store v _ _)

theorem evolves_setElement {m' : Memory} {v : Int32} (h : m.setElement e i v = .ok m') :
    m.Evolves m' := by
  obtain ⟨target, htarget, rfl⟩ := map_eq_ok_iff.1 h
  exact evolves_putElement htarget

theorem evolves_setArrayLength {m' : Memory} (h : m.setArrayLength e n = .ok m') :
    m.Evolves m' := by
  obtain ⟨d, hd, rfl⟩ := map_eq_ok_iff.1 h
  obtain ⟨hd, _⟩ := arrayTarget_eq_ok_iff.1 hd
  exact evolves_modifyBlock (blockIndex_pos hd) fun b => b.evolves_resize n

theorem evolves_setArrayData {m' : Memory} {bytes : List UInt8}
    (h : m.setArrayData e bytes = .ok m') : m.Evolves m' := by
  obtain ⟨d, hd, rfl⟩ := map_eq_ok_iff.1 h
  exact evolves_modifyBlock (blockIndex_pos hd) fun b =>
    b.evolves_data (Buffer.size_patch _ _ _)

/-! ### Changes that may fail halfway -/

section

variable {r : Memory → Memory → Prop} [IsPreorder Memory r]

theorem keeps_update {f : Memory → Except MemoryError Memory}
    (hf : ∀ {m m'}, f m = .ok m' → r m m') : Keeps r (Change.update f) := by
  intro m
  change r m (Change.update f m).2
  unfold Change.update
  cases h : f m with
  | error e => exact refl_of r m
  | ok m' => exact hf h

/-- Resizing the array at entry `e` and storing one of its elements keep the relation. -/
structure ArrayKeeps (r : Memory → Memory → Prop) (e : Nat) : Prop where
  resize {m m' : Memory} {n : Nat} : m.setArrayLength e n = .ok m' → r m m'
  store {m : Memory} {i : Nat} {target : ElementTarget} {v : Int32} :
    m.elementTarget e i = .ok target → r m (m.putElement target v)

namespace ArrayKeeps

variable (h : ArrayKeeps r e)
include h

theorem storeElements (i : Nat) (vs : List Int32) : Keeps r (storeElements e i vs) := by
  induction vs generalizing i with
  | nil => exact Keeps.pure ()
  | cons v vs ih =>
      intro m
      change r m (Memory.storeElements e i (v :: vs) m).2
      unfold Memory.storeElements
      cases htarget : m.elementTarget e i with
      | error e => exact refl_of r m
      | ok target => exact trans_of r (h.store htarget) (ih (i + 1) _)

theorem assign (vs : List Int32) : Keeps r (assign e vs) :=
  Keeps.bind (keeps_update h.resize) fun _ => h.storeElements 0 vs

theorem copyArray (src : Nat) : Keeps r (copyArray e src) :=
  Keeps.bind (fun m => refl_of r m) fun vs => h.assign vs

end ArrayKeeps

end

theorem arrayKeeps_evolves (e : Nat) : ArrayKeeps Evolves e where
  resize := evolves_setArrayLength
  store := evolves_putElement

/-! ### The memory that a program starts with -/

theorem load_eq_ok_iff {image : Image} :
    load image = .ok m ↔ ∃ statics blocks,
      fillStatics (Array.replicate image.header.staticSize.toNat 0) image.defaultData.toList
        (owners image.toc.toList) = .ok statics ∧
      loadBlocks image = .ok blocks ∧
      m = ⟨image.toc, statics, blocks.toArray, (owners image.toc.toList).map Prod.fst⟩ := by
  simp only [load, bind_eq_ok_iff, Except.ok.injEq]
  constructor
  · rintro ⟨statics, hstatics, blocks, hblocks, rfl⟩
    exact ⟨statics, blocks, hstatics, hblocks, rfl⟩
  · rintro ⟨statics, blocks, hstatics, hblocks, rfl⟩
    exact ⟨statics, hstatics, blocks, hblocks, rfl⟩

theorem size_fillStatics {statics filled : Buffer} {defaults : List UInt8}
    {slots : List (Nat × TocEntry)} (h : fillStatics statics defaults slots = .ok filled) :
    filled.size = statics.size := by
  induction slots generalizing statics defaults with
  | nil =>
      cases h
      rfl
  | cons slot slots ih =>
      obtain ⟨i, e⟩ := slot
      unfold fillStatics at h
      dsimp only at h
      split at h
      · cases h
      · split at h
        · rw [ih h, Buffer.size_patch]
        · split at h
          · rw [ih h, Buffer.size_patch]
          · cases h

theorem length_mapped {image : Image} {address len : Nat} {part : DynamicPart}
    {bytes : List UInt8} (h : mapped image address len part = .ok bytes) : bytes.length = len := by
  unfold mapped at h
  dsimp only at h
  split at h
  case isTrue hin =>
    cases h
    exact Buffer.length_slice _ _ _ hin.2
  case isFalse => cases h

theorem sized_loadBlock {image : Image} {v : DopeVector} {b : Block}
    (h : loadBlock image v = .ok b) : b.Sized := by
  unfold loadBlock at h
  split at h
  case isTrue hcount =>
    cases h
    simp [Block.Sized, DopeVector.byteLength, hcount]
  case isFalse =>
    obtain ⟨bytes, hbytes, hb⟩ := bind_eq_ok_iff.1 h
    cases hb
    exact length_mapped hbytes

theorem sized_mapM_loadBlock {image : Image} {vs : List DopeVector} {bs : List Block}
    (h : vs.mapM (loadBlock image) = .ok bs) : ∀ b ∈ bs, b.Sized := by
  induction vs generalizing bs with
  | nil =>
      cases h
      exact List.forall_mem_nil _
  | cons v vs ih =>
      rw [List.mapM_cons] at h
      obtain ⟨b, hb, h⟩ := bind_eq_ok_iff.1 h
      obtain ⟨bs, hbs, h⟩ := bind_eq_ok_iff.1 h
      cases h
      exact List.forall_mem_cons.2 ⟨sized_loadBlock hb, ih hbs⟩

/-- The block of the table comes first and is empty. The others are as large as their dope vectors
say. -/
theorem sized_loadBlocks {image : Image} {bs : List Block} (h : loadBlocks image = .ok bs) :
    ∃ table arrays, bs = ⟨table, #[]⟩ :: arrays ∧ ∀ b ∈ arrays, b.Sized := by
  unfold loadBlocks at h
  split at h
  · cases h
    exact ⟨_, [], rfl, List.forall_mem_nil _⟩
  · obtain ⟨vectors, _, h⟩ := bind_eq_ok_iff.1 h
    cases vectors with
    | nil => cases h
    | cons table vectors =>
        obtain ⟨arrays, harrays, h⟩ := bind_eq_ok_iff.1 h
        cases h
        exact ⟨table, arrays, rfl, sized_mapM_loadBlock harrays⟩

end Memory

end BrickMachine
