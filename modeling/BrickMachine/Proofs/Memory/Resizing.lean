import BrickMachine.Proofs.Machine.Edits
import BrickMachine.Proofs.Memory.Contents

/-!
# Resizing arrays and storing elements

Several array entries may name one block, and each of them finds the block's elements at the same
places, so a change that goes through one entry is seen through all of them. For elements that fit,
resizing is a matter of lists again: the values are cut off behind the new length or extended with
zeros, as `resized` says. Of a sequence of resizes only the lengths that the block itself got
matter. An element behind one of them was lost at that time, and reads zero if it comes back.

`resizes_and_stores` says when resizing an array and storing one of its elements succeed, what they
change, and what is left of the elements after any sequence of resizes.
-/

namespace BrickMachine

section Lists

variable {α : Type} [OfNat α 0]

def resized (xs : List α) (n : Nat) : List α :=
  xs.take n ++ List.replicate (n - xs.length) 0

theorem length_resized (xs : List α) (n : Nat) : (resized xs n).length = n := by
  simp only [resized, List.length_append, List.length_take, List.length_replicate]
  omega

theorem getElem?_resized (xs : List α) (n j : Nat) :
    (resized xs n)[j]? = if j < n then some (xs[j]?.getD 0) else none := by
  simp only [resized, List.getElem?_append, List.length_take, List.getElem?_take,
    List.getElem?_replicate]
  grind

theorem length_foldl_resized (xs : List α) (ns : List Nat) :
    (ns.foldl resized xs).length = ns.getLastD xs.length := by
  induction ns generalizing xs with
  | nil => rfl
  | cons n ns ih => rw [List.foldl_cons, ih, length_resized, List.getLastD_cons]

theorem resized_length (xs : List α) : resized xs xs.length = xs := by
  simp [resized]

/-- After resizes one behind the other, a member is the old one if no length was so small that it
was cut off, and zero otherwise. -/
theorem getElem?_foldl_resized (xs : List α) (ns : List Nat) (j : Nat) :
    (ns.foldl resized xs)[j]?
      = if j < ns.getLastD xs.length then some (if ∀ n ∈ ns, j < n then xs[j]?.getD 0 else 0)
        else none := by
  induction ns generalizing xs with
  | nil =>
      by_cases hj : j < xs.length
      · simp [hj]
      · simp [hj]
  | cons n ns ih =>
      rw [List.foldl_cons, ih, length_resized, List.getLastD_cons, getElem?_resized]
      by_cases hn : j < n
      · simp [hn]
      · simp [hn]

end Lists

namespace Buffer

theorem toList_resize (b : Buffer) (n : Nat) : (b.resize n).toList = resized b.toList n := by
  unfold resize resized
  split
  case isTrue hn => simp [Nat.sub_eq_zero_of_le hn]
  case isFalse hn =>
    rw [List.take_of_length_le (by simpa using Nat.le_of_not_le hn)]
    simp

theorem resize_size (b : Buffer) : b.resize b.size = b := by
  rw [← Array.toList_inj, toList_resize, ← Array.length_toList, resized_length]

/-- A part of the new buffer is what there was of it, extended with zeros. -/
theorem slice_resize (b : Buffer) {start len n : Nat} (h : start + len ≤ n) :
    (b.resize n).slice start len = resized (b.slice start len) len := by
  apply List.ext_getElem?
  intro i
  rw [getElem?_slice, getElem?_resized, getElem?_slice]
  by_cases hi : i < len
  · have hin : start + i < n := by omega
    rw [if_pos hi, if_pos hi, if_pos hi, ← Array.getElem?_toList, toList_resize,
      getElem?_resized, if_pos hin, Array.getElem?_toList]
  · rw [if_neg hi, if_neg hi]

theorem slice_of_size_le (b : Buffer) {start len : Nat} (h : b.size ≤ start) :
    b.slice start len = [] := by
  rw [slice, Array.toList_extract, List.extract_eq_take_drop, List.drop_of_length_le (by simpa)]
  exact List.take_nil

end Buffer

/-! ### Blocks -/

namespace Block

variable {b : Block} {t : SlotType} {n : Nat}

/-- If the block has its new length already, then its contents have their new size. -/
theorem resize_eq (hb : b.Sized) (hn : n ≤ Memory.maxArrayLength) :
    b.resize n = ⟨{ b.vector with elementCount := UInt16.ofNat n },
      b.data.resize (n * b.vector.elementSize.toNat)⟩ := by
  have hcount : (UInt16.ofNat n).toNat = n := toNat_ofNat_of_le hn
  unfold resize
  dsimp only
  split
  case isTrue hsame =>
    have hsize : b.data.size = n * b.vector.elementSize.toNat := by
      rw [hb, DopeVector.byteLength, hsame, hcount, Nat.mul_comm]
    rw [← hsize, Buffer.resize_size, ← hsame]
  case isFalse =>
    rw [DopeVector.byteLength, hcount, Nat.mul_comm]

/-- The values of all elements, when some are cut off or new ones start at zero. -/
theorem values_resize (hb : b.Sized) (hfits : t.size ≤ b.vector.elementSize.toNat)
    (hn : n ≤ Memory.maxArrayLength) : (b.resize n).values t = resized (b.values t) n := by
  have hcount : (UInt16.ofNat n).toNat = n := toNat_ofNat_of_le hn
  apply List.ext_getElem?
  intro j
  rw [resize_eq hb hn, getElem?_resized, values, values, List.getElem?_map, List.getElem?_map]
  dsimp only
  rw [hcount]
  by_cases hj : j < n
  · rw [if_pos hj, List.getElem?_range hj, Option.map_some, value]
    dsimp only
    rw [Buffer.slice_resize _ (element_le hfits hj)]
    by_cases hold : j < b.vector.elementCount.toNat
    · have hlength := Buffer.length_slice _ _ _ (hb.element_le hfits hold)
      have hsame := resized_length (b.data.slice (j * b.vector.elementSize.toNat) t.size)
      rw [hlength] at hsame
      rw [hsame, List.getElem?_range hold]
      rfl
    · have hbehind : b.data.size ≤ j * b.vector.elementSize.toNat := by
        rw [hb, DopeVector.byteLength, Nat.mul_comm]
        exact Nat.mul_le_mul_right _ (Nat.le_of_not_lt hold)
      have hzeros : resized (b.data.slice (j * b.vector.elementSize.toNat) t.size) t.size
          = List.replicate t.size 0 := by
        rw [Buffer.slice_of_size_le _ hbehind]
        simp [resized]
      rw [hzeros, t.valueOfBits_zeros, List.getElem?_eq_none (by simpa using hold)]
      rfl
  · rw [if_neg hj, List.getElem?_eq_none (by simpa using hj)]
    rfl

end Block

/-! ### Memory -/

namespace Memory

variable {m m' : Memory} {e f d i n : Nat} {t : SlotType} {v : Int32}

structure ChangesBlock (d : Nat) (m m' : Memory) : Prop where
  toc : m'.toc = m.toc
  slots : m'.slots = m.slots
  statics : m'.statics = m.statics
  size_blocks : m'.blocks.size = m.blocks.size
  block (k : Nat) : k ≠ d → m'.blocks[k]? = m.blocks[k]?

theorem ChangesOnly.changesBlock (h : m.ChangesOnly e m') (hd : m.blockIndex e = .ok d) :
    m.ChangesBlock d m' where
  toc := h.toc
  slots := h.slots
  statics := h.statics
  size_blocks := h.size_blocks
  block k hk := h.block k fun hindex => hk (Except.ok.inj (hindex.symm.trans hd))

/-! #### Resizing -/

theorem run_update {g : Memory → Except MemoryError Memory} :
    (Change.update g).run m =
      match g m with
      | .ok m' => (.ok (), m')
      | .error err => (.error err, m) := rfl

theorem setArrayLength_eq_ok (hd : m.blockIndex e = .ok d) (hn : n ≤ maxArrayLength) :
    m.setArrayLength e n = .ok (m.resizeBlock d n) := by
  rw [setArrayLength, arrayTarget_eq_ok_iff.2 ⟨hd, hn⟩]
  rfl

theorem setArrayLength_eq_error (hd : m.blockIndex e = .ok d) (hn : maxArrayLength < n) :
    m.setArrayLength e n = .error (.outOfRange .arrayLength n maxArrayLength) := by
  rw [setArrayLength, arrayTarget, hd]
  change Except.map _ (if n ≤ maxArrayLength then _ else _) = _
  rw [if_neg (Nat.not_le.2 hn)]
  rfl

theorem block_resizeBlock {k : Nat} (hk : m.blockIndex e = .ok k) (n d : Nat) :
    (m.resizeBlock k n).block d = if k = d then (m.block d).resize n else m.block d := by
  rw [resizeBlock, block_modifyBlock _ _ _ _ (blockIndex_lt hk)]

/-- Block `d` has `n` elements, and its contents are cut off or extended with zeros. Everything else
is the same. -/
structure ResizesBlock (d n : Nat) (m m' : Memory) : Prop extends ChangesBlock d m m' where
  vector : (m'.block d).vector = { (m.block d).vector with elementCount := UInt16.ofNat n }
  data : (m'.block d).data.toList
    = resized (m.block d).data.toList (n * (m.block d).vector.elementSize.toNat)

theorem resizesBlock_resizeBlock (hm : m.Sized) (hd : m.blockIndex e = .ok d)
    (hn : n ≤ maxArrayLength) : m.ResizesBlock d n (m.resizeBlock d n) where
  toChangesBlock := (changesOnly_setArrayLength (setArrayLength_eq_ok hd hn)).changesBlock hd
  vector := by rw [block_resizeBlock hd, if_pos rfl, Block.resize_eq (hm.block hd) hn]
  data := by
    rw [block_resizeBlock hd, if_pos rfl, Block.resize_eq (hm.block hd) hn, Buffer.toList_resize]

/-! #### Storing an element -/

/-- Behind the last element, reading fails. -/
theorem HasElements.element_eq {ws : List Int32} (h : m.HasElements f d t ws) (j : Nat) :
    m.element f j = match ws[j]? with
      | some w => .ok w
      | none => .error (.outOfRange .arrayIndex j ws.length) := by
  by_cases hj : j < ws.length
  · have hw : ws[j]? = some ((m.block d).value t j) := by
      have hcount := h.count_eq
      rw [← h.values, Block.values, List.getElem?_map, List.getElem?_range (by omega)]
      rfl
    rw [h.element hj, hw]
  · rw [List.getElem?_eq_none (Nat.le_of_not_lt hj), Memory.element, Memory.elementTarget, h.type,
      h.index]
    change Except.map _ (if j < (m.block d).vector.elementCount.toNat then _ else _) = _
    rw [h.count_eq, if_neg hj]
    rfl

/-- Every array of block `d` with elements of type `t` gets a new element `i`. Everything else is
the same. -/
structure StoresElement (d : Nat) (t : SlotType) (i : Nat) (v : Int32) (m m' : Memory) : Prop
    extends ChangesBlock d m m' where
  vector : (m'.block d).vector = (m.block d).vector
  stored (f : Nat) : m.blockIndex f = .ok d → m.elementType f = .ok t →
    m'.element f i = .ok (t.truncate v)
  kept (f j : Nat) : m.blockIndex f = .ok d → m.elementType f = .ok t → j ≠ i →
    m'.element f j = m.element f j

theorem storesElement_putElement (h : m.ArrayOf e d t) (hm : m.Sized)
    (hi : i < (m.block d).vector.elementCount.toNat) (v : Int32) :
    m.StoresElement d t i v
      (m.putElement ⟨t, d, i * (m.block d).vector.elementSize.toNat⟩ v) := by
  have hlength : i < ((m.block d).values t).length := by rwa [Block.length_values]
  have hchanges := changesOnly_putElement (v := v) ((h.hasElements hm).elementTarget hlength)
  have hview (f : Nat) (hindex : m.blockIndex f = .ok d) (htype : m.elementType f = .ok t) :
      m.HasElements f d t ((m.block d).values t) :=
    ArrayOf.hasElements ⟨htype, hindex, h.fits⟩ hm
  refine
    { toChangesBlock := hchanges.changesBlock h.index
      vector := ?_
      stored := ?_
      kept := ?_ }
  · rw [putElement, block_modifyBlock _ _ _ _ (blockIndex_lt h.index), if_pos rfl]
  · intro f hindex htype
    have hf := hview f hindex htype
    rw [(hf.putElement hlength v).element_eq, List.getElem?_set_self hlength]
  · intro f j hindex htype hji
    have hf := hview f hindex htype
    rw [(hf.putElement hlength v).element_eq, hf.element_eq, List.getElem?_set_ne (Ne.symm hji),
      List.length_set]

theorem setElement_eq_ok_iff (h : m.ArrayOf e d t) (hm : m.Sized) :
    m.setElement e i v = .ok m' ↔ i < (m.block d).vector.elementCount.toNat ∧
      m' = m.putElement ⟨t, d, i * (m.block d).vector.elementSize.toNat⟩ v := by
  rw [setElement, map_eq_ok_iff]
  constructor
  · rintro ⟨target, htarget, rfl⟩
    obtain ⟨t', d', ht, hd, hi, _, rfl⟩ := elementTarget_eq_ok_iff.1 htarget
    obtain rfl : t = t' := Except.ok.inj (h.type.symm.trans ht)
    obtain rfl : d = d' := Except.ok.inj (h.index.symm.trans hd)
    exact ⟨hi, rfl⟩
  · rintro ⟨hi, rfl⟩
    rw [← Block.length_values (m.block d) t] at hi
    exact ⟨_, (h.hasElements hm).elementTarget hi, rfl⟩

/-! #### Sequences of resizes -/

def resizes (rs : List (Nat × Nat)) : List Edit :=
  rs.map fun r => .setArrayLength r.1 r.2

/-- The lengths that block `d` gets from resizes. Those of other blocks do not count, nor do those
that fail. -/
def lengthsOf (m : Memory) (d : Nat) (rs : List (Nat × Nat)) : List Nat :=
  rs.filterMap fun r =>
    if (m.blockIndex r.1).toOption = some d ∧ r.2 ≤ maxArrayLength then some r.2 else none

theorem toOption_blockIndex_eq_some_iff :
    (m.blockIndex e).toOption = some d ↔ m.blockIndex e = .ok d := by
  cases m.blockIndex e with
  | error err => simp [Except.toOption]
  | ok d' => simp [Except.toOption]

theorem lengthsOf_of_changesOnly (h : m.ChangesOnly e m') (d : Nat) (rs : List (Nat × Nat)) :
    m'.lengthsOf d rs = m.lengthsOf d rs := by
  unfold lengthsOf
  simp only [h.blockIndex]

theorem lengthsOf_cons_of_eq (hd : m.blockIndex e = .ok d) (hn : n ≤ maxArrayLength)
    (rs : List (Nat × Nat)) : m.lengthsOf d ((e, n) :: rs) = n :: m.lengthsOf d rs := by
  simp [lengthsOf, hd, hn, Except.toOption]

theorem lengthsOf_cons_of_ne (h : m.blockIndex e = .ok d → maxArrayLength < n)
    (rs : List (Nat × Nat)) : m.lengthsOf d ((e, n) :: rs) = m.lengthsOf d rs := by
  have hnot : ¬ ((m.blockIndex e).toOption = some d ∧ n ≤ maxArrayLength) := by
    rintro ⟨hd, hn⟩
    exact Nat.not_lt.2 hn (h (toOption_blockIndex_eq_some_iff.1 hd))
  simp [lengthsOf, hnot]

namespace HasElements

variable {ws : List Int32}

theorem resizeBlock (h : m.HasElements f d t ws) {k : Nat} (hk : m.blockIndex e = .ok k)
    (hn : n ≤ maxArrayLength) :
    (m.resizeBlock k n).HasElements f d t (if k = d then resized ws n else ws) where
  toArrayOf := h.toArrayOf.of_changesOnly (changesOnly_setArrayLength (setArrayLength_eq_ok hk hn))
  sized := by
    rw [block_resizeBlock hk]
    split
    case isTrue => exact ((m.block d).evolves_resize n).sized h.sized
    case isFalse => exact h.sized
  values := by
    rw [block_resizeBlock hk]
    split
    case isTrue => rw [Block.values_resize h.sized h.fits hn, h.values]
    case isFalse => exact h.values

/-- Resizes one behind the other, of whatever arrays. -/
theorem afterResizes (h : m.HasElements f d t ws) (rs : List (Nat × Nat)) :
    (m.afterEdits (resizes rs)).HasElements f d t ((m.lengthsOf d rs).foldl resized ws) := by
  induction rs generalizing m ws with
  | nil => exact h
  | cons r rs ih =>
      obtain ⟨e, n⟩ := r
      change (((Change.update (·.setArrayLength e n)).run m).2.afterEdits (resizes rs)).HasElements
        f d t _
      rw [run_update]
      cases hset : m.setArrayLength e n with
      | error err =>
          have hfails : m.blockIndex e = .ok d → maxArrayLength < n := by
            intro hd
            refine Nat.lt_of_not_le fun hn => ?_
            rw [setArrayLength_eq_ok hd hn] at hset
            cases hset
          rw [lengthsOf_cons_of_ne hfails]
          exact ih h
      | ok m₁ =>
          have hchanges := changesOnly_setArrayLength hset
          obtain ⟨k, hk, rfl⟩ := map_eq_ok_iff.1 hset
          obtain ⟨hk, hn⟩ := arrayTarget_eq_ok_iff.1 hk
          have hrest := ih (h.resizeBlock hk hn)
          rw [lengthsOf_of_changesOnly hchanges] at hrest
          by_cases hkd : k = d
          · subst hkd
            rw [if_pos rfl] at hrest
            rw [lengthsOf_cons_of_eq hk hn]
            exact hrest
          · have hother : m.blockIndex e = .ok d → maxArrayLength < n :=
              fun hd => absurd (Except.ok.inj (hk.symm.trans hd)) hkd
            rw [if_neg hkd] at hrest
            rw [lengthsOf_cons_of_ne hother]
            exact hrest

end HasElements

/-- What resizes leave of the elements of the array at entry `f`, where `lengths` are those that its
block gets: the elements below all lengths that it had are as they were, and the others are zero. -/
structure KeepsFront (f d : Nat) (lengths : List Nat) (m m' : Memory) : Prop where
  length : m'.arrayLength f
    = .ok (lengths.getLastD (m.block d).vector.elementCount.toNat)
  kept (j : Nat) : (∀ n ∈ (m.block d).vector.elementCount.toNat :: lengths, j < n) →
    ∃ w, m.element f j = .ok w ∧ m'.element f j = .ok w
  cleared (j : Nat) : (∃ n ∈ (m.block d).vector.elementCount.toNat :: lengths, n ≤ j) →
    j < lengths.getLastD (m.block d).vector.elementCount.toNat → m'.element f j = .ok 0

theorem keepsFront_resizes (h : m.ArrayOf f d t) (hm : m.Sized) (rs : List (Nat × Nat)) :
    m.KeepsFront f d (m.lengthsOf d rs) (m.afterEdits (resizes rs)) := by
  have hold := h.hasElements hm
  have hnew := hold.afterResizes rs
  generalize m.lengthsOf d rs = lengths at hnew ⊢
  generalize (m.block d).values t = ws at hold hnew
  have hlength := length_foldl_resized ws lengths
  refine ⟨?_, fun j hj => ?_, fun j hbehind hj => ?_⟩
  · rw [hnew.arrayLength, hlength, hold.count_eq]
  · rw [hold.count_eq] at hj
    obtain ⟨hfirst, hlater⟩ := List.forall_mem_cons.1 hj
    have hlast : j < lengths.getLastD ws.length := hj _ List.getLastD_mem_cons
    refine ⟨ws[j], ?_, ?_⟩
    · rw [hold.element_eq, List.getElem?_eq_getElem hfirst]
    · rw [hnew.element_eq, getElem?_foldl_resized, if_pos hlast, if_pos hlater,
        List.getElem?_eq_getElem hfirst]
      rfl
  · rw [hold.count_eq] at hbehind hj
    rw [hnew.element_eq, getElem?_foldl_resized, if_pos hj]
    obtain ⟨n, hn, hnj⟩ := hbehind
    rcases List.mem_cons.1 hn with rfl | hn
    · rw [List.getElem?_eq_none hnj]
      simp
    · rw [if_neg fun hall => Nat.not_lt.2 hnj (hall n hn)]

/-- The laws of an array at entry `e`, which is block `d`. A length that is too large is refused.
With any other length the contents are cut off or extended with zeros. If the elements fit, those
that exist can be stored, and all arrays of the block with elements of this type see the new element
and no other change. After any sequence of resizes, of this array and of others, the elements below
the smallest length that the block had are as they were, and those behind it are zero. -/
theorem resizes_and_stores (hm : m.Sized) (hd : m.blockIndex e = .ok d) :
    (∀ n, 65535 < n → (Change.update (·.setArrayLength e n)).run m
      = (.error (.outOfRange .arrayLength n 65535), m)) ∧
    (∀ n, n ≤ 65535 → ∃ m', m.setArrayLength e n = .ok m' ∧ m.ResizesBlock d n m') ∧
    (∀ t, m.ArrayOf e d t → ∀ i v,
      ((∃ m', m.setElement e i v = .ok m') ↔ i < (m.block d).vector.elementCount.toNat) ∧
      ∀ m', m.setElement e i v = .ok m' → m.StoresElement d t i v m') ∧
    ∀ f t, m.ArrayOf f d t → ∀ rs,
      m.KeepsFront f d (m.lengthsOf d rs) (m.afterEdits (resizes rs)) := by
  refine ⟨fun n hn => ?_, fun n hn => ?_, fun t harray i v => ⟨?_, fun m' hset => ?_⟩,
    fun f t harray rs => keepsFront_resizes harray hm rs⟩
  · rw [run_update, setArrayLength_eq_error hd hn]
    rfl
  · exact ⟨_, setArrayLength_eq_ok hd hn, resizesBlock_resizeBlock hm hd hn⟩
  · constructor
    · rintro ⟨m', hset⟩
      exact ((setElement_eq_ok_iff harray hm).1 hset).1
    · intro hi
      exact ⟨_, (setElement_eq_ok_iff harray hm).2 ⟨hi, rfl⟩⟩
  · obtain ⟨hi, rfl⟩ := (setElement_eq_ok_iff harray hm).1 hset
    exact storesElement_putElement harray hm hi v

/-- Three words, which three array entries name, the last of them as signed bytes, and another
array. -/
def sharedWords : Memory where
  toc := #[⟨.array, 0, 0⟩, ⟨.uword, 0, 0⟩, ⟨.array, 0, 2⟩, ⟨.uword, 0, 0⟩, ⟨.array, 0, 4⟩,
    ⟨.sbyte, 0, 0⟩, ⟨.array, 0, 6⟩, ⟨.ubyte, 0, 0⟩]
  statics := #[1, 0, 1, 0, 1, 0, 2, 0]
  blocks := #[⟨⟨0, 10, 3, 0, 0⟩, #[]⟩, ⟨⟨0, 2, 3, 0, 0⟩, #[1, 0, 44, 1, 255, 255]⟩,
    ⟨⟨0, 1, 2, 0, 0⟩, #[8, 9]⟩]
  slots := [0, 2, 4, 6]

theorem resizes_and_stores_sharedWords :
    sharedWords.Sized ∧ sharedWords.blockIndex 0 = .ok 1 ∧
    (Change.update (·.setArrayLength 0 65536)).run sharedWords
      = (.error (.outOfRange .arrayLength 65536 65535), sharedWords) ∧
    (∃ m', sharedWords.setArrayLength 0 2 = .ok m' ∧ sharedWords.ResizesBlock 1 2 m') ∧
    (∃ m', sharedWords.setElement 0 1 (-1) = .ok m' ∧ m'.element 2 1 = .ok 65535 ∧
      m'.element 2 2 = sharedWords.element 2 2) ∧
    (sharedWords.afterEdits (resizes [(2, 1), (6, 0), (0, 65536), (4, 3)])).element 2 0 = .ok 1 ∧
    (sharedWords.afterEdits (resizes [(2, 1), (6, 0), (0, 65536), (4, 3)])).element 2 2
      = .ok 0 := by
  have hsized : sharedWords.Sized := by decide
  have hindex : sharedWords.blockIndex 0 = .ok 1 := rfl
  have hwords (e : Nat) (he : e = 0 ∨ e = 2) : sharedWords.ArrayOf e 1 .uword := by
    rcases he with rfl | rfl <;> exact ⟨rfl, rfl, by decide⟩
  obtain ⟨hrefused, hresized, hstored, hkept⟩ := resizes_and_stores hsized hindex
  obtain ⟨hsucceeds, hstores⟩ := hstored .uword (hwords 0 (Or.inl rfl)) 1 (-1)
  obtain ⟨m', hset⟩ := hsucceeds.2 (by decide)
  have hnew := hstores m' hset
  have hrest := hkept 2 .uword (hwords 2 (Or.inr rfl)) [(2, 1), (6, 0), (0, 65536), (4, 3)]
  have hlengths : sharedWords.lengthsOf 1 [(2, 1), (6, 0), (0, 65536), (4, 3)] = [1, 3] := rfl
  rw [hlengths] at hrest
  obtain ⟨w, hw, hfront⟩ := hrest.kept 0 (by decide)
  obtain rfl : 1 = w := Except.ok.inj hw
  exact ⟨hsized, hindex, hrefused 65536 (by decide), hresized 2 (by decide),
    ⟨m', hset, hnew.stored 2 rfl rfl, hnew.kept 2 2 rfl rfl (by decide)⟩, hfront,
    hrest.cleared 2 ⟨1, by decide, by decide⟩ (by decide)⟩

end Memory

end BrickMachine
