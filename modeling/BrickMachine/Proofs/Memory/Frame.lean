import BrickMachine.Proofs.Memory.Shape

/-!
# Changes of one array

An array entry names a block, and the changes that go through the entry reach nothing else:
`m.ChangesOnly e m'` says that from `m` to `m'` the block of entry `e` is the only one that is
another, and that even there the dope vector has only a new element count. If the entry names no
block, then nothing has changed at all.
-/

namespace BrickMachine

namespace Memory

variable {m m' : Memory} {e i d n : Nat}

/-- The element count and the contents of the array at entry `e` are all that may have changed. -/
structure ChangesOnly (e : Nat) (m m' : Memory) : Prop where
  toc : m'.toc = m.toc
  slots : m'.slots = m.slots
  statics : m'.statics = m.statics
  size_blocks : m'.blocks.size = m.blocks.size
  /-- Every other block is the same. -/
  block (i : Nat) : m.blockIndex e ≠ .ok i → m'.blocks[i]? = m.blocks[i]?
  /-- The dope vector of every block is the same but for the count. -/
  vector (i : Nat) : { (m'.block i).vector with elementCount := (m.block i).vector.elementCount }
    = (m.block i).vector

namespace ChangesOnly

/-! What an access looks up before it comes to a block is the same. -/

theorem entry (h : m.ChangesOnly e m') (e' : Nat) : m'.entry e' = m.entry e' := by
  unfold Memory.entry
  rw [h.toc]

theorem slotType (h : m.ChangesOnly e m') (e' : Nat) : m'.slotType e' = m.slotType e' := by
  unfold Memory.slotType
  rw [h.entry]

theorem slotBytes (h : m.ChangesOnly e m') (t : TocEntry) : m'.slotBytes t = m.slotBytes t := by
  unfold Memory.slotBytes
  rw [h.statics]

theorem blockIndex (h : m.ChangesOnly e m') (e' : Nat) : m'.blockIndex e' = m.blockIndex e' := by
  unfold Memory.blockIndex
  simp only [h.entry, h.slotBytes, h.size_blocks]

theorem elementType (h : m.ChangesOnly e m') (e' : Nat) :
    m'.elementType e' = m.elementType e' := by
  unfold Memory.elementType
  simp only [h.entry, h.slotType]

theorem elementSize (h : m.ChangesOnly e m') (i : Nat) :
    (m'.block i).vector.elementSize = (m.block i).vector.elementSize := by
  rw [← h.vector i]

/-- Without a block, nothing can change. -/
theorem eq_of_no_block (h : m.ChangesOnly e m') (hnone : ∀ d, m.blockIndex e ≠ .ok d) :
    m' = m := by
  have hblocks : m'.blocks = m.blocks := by
    apply Array.ext_getElem?
    intro i
    exact h.block i (hnone i)
  cases m
  cases m'
  cases h.toc
  cases h.slots
  cases h.statics
  cases hblocks
  rfl

end ChangesOnly

instance (e : Nat) : IsPreorder Memory (ChangesOnly e) where
  refl m := ⟨rfl, rfl, rfl, rfl, fun _ _ => rfl, fun _ => rfl⟩
  trans a b c h₁ h₂ :=
    { toc := h₂.toc.trans h₁.toc
      slots := h₂.slots.trans h₁.slots
      statics := h₂.statics.trans h₁.statics
      size_blocks := h₂.size_blocks.trans h₁.size_blocks
      block := by
        intro i hi
        have hi' : b.blockIndex e ≠ .ok i := by rwa [h₁.blockIndex]
        rw [h₂.block i hi', h₁.block i hi]
      vector := by
        intro i
        rw [← h₁.vector i, ← h₂.vector i] }

/-! ### The changes -/

theorem block_modifyBlock (m : Memory) (d i : Nat) (f : Block → Block) (hd : d < m.blocks.size) :
    (m.modifyBlock d f).block i = if d = i then f (m.block i) else m.block i := by
  unfold block modifyBlock
  rw [Array.getElem?_modify]
  split
  case isTrue hi =>
    subst hi
    rw [Array.getElem?_eq_getElem hd]
    rfl
  case isFalse => rfl

theorem blockIndex_lt (h : m.blockIndex e = .ok d) : d < m.blocks.size := by
  obtain ⟨_, _, _, _, _, _, hlt⟩ := blockIndex_eq_ok_iff.1 h
  exact hlt

theorem Sized.block (hm : m.Sized) (hd : m.blockIndex e = .ok d) : (m.block d).Sized := by
  have hlt : d < m.blocks.size := blockIndex_lt hd
  have hget : m.blocks[d]? = some m.blocks[d] := Array.getElem?_eq_getElem hlt
  have hblock : m.block d = m.blocks[d] := by
    rw [Memory.block, hget]
    rfl
  rw [hblock]
  exact hm d _ (blockIndex_pos hd) hget

theorem changesOnly_modifyBlock {f : Block → Block} (hd : m.blockIndex e = .ok d)
    (hf : ∀ b : Block, b.Evolves (f b)) : m.ChangesOnly e (m.modifyBlock d f) where
  toc := rfl
  slots := rfl
  statics := rfl
  size_blocks := Array.size_modify
  block i hi := by
    have hne : d ≠ i := by
      rintro rfl
      exact hi hd
    rw [modifyBlock, Array.getElem?_modify, if_neg hne]
  vector i := by
    rw [block_modifyBlock m d i f (blockIndex_lt hd)]
    split
    · exact (hf _).vector
    · rfl

theorem changesOnly_putElement {target : ElementTarget} {v : Int32}
    (h : m.elementTarget e i = .ok target) : m.ChangesOnly e (m.putElement target v) := by
  obtain ⟨t, d, _, hd, _, _, rfl⟩ := elementTarget_eq_ok_iff.1 h
  exact changesOnly_modifyBlock hd fun b => b.evolves_data (t.size_store v _ _)

theorem changesOnly_setArrayLength (h : m.setArrayLength e n = .ok m') : m.ChangesOnly e m' := by
  obtain ⟨d, hd, rfl⟩ := map_eq_ok_iff.1 h
  obtain ⟨hd, _⟩ := arrayTarget_eq_ok_iff.1 hd
  exact changesOnly_modifyBlock hd fun b => b.evolves_resize n

theorem arrayKeeps_changesOnly (e : Nat) : ArrayKeeps (ChangesOnly e) e where
  resize := changesOnly_setArrayLength
  store := changesOnly_putElement

end Memory

end BrickMachine
