import BrickMachine.Proofs.Machine.Edits
import BrickMachine.Proofs.Memory.Walk
import Mathlib.Algebra.Ring.Nat

/-!
# The slots of a loaded memory

Loading fills the slots in the order of the table of contents, so a later slot overwrites what it
shares with an earlier one, and each slot that does not start at zero takes the next bytes of the
default data. Where a slot finds its bytes is therefore the sum of what the slots before it took.

`slots_of_load` says which entries have a slot, where slots lie, that they can be read whatever
happens to the memory later, and what they start with.
-/

namespace BrickMachine

namespace TocEntry

def defaultSize (t : TocEntry) : Nat :=
  if t.hasZeroDefault then 0 else t.slotType.size

/-- The bytes that a slot starts with, where `defaults` is what the slots before it left of the
default data. -/
def initial (t : TocEntry) (defaults : List UInt8) : List UInt8 :=
  if t.hasZeroDefault then List.replicate t.slotType.size 0 else defaults.take t.slotType.size

def Apart (t u : TocEntry) : Prop :=
  t.descriptor.toNat + t.slotType.size ≤ u.descriptor.toNat ∨
    u.descriptor.toNat + u.slotType.size ≤ t.descriptor.toNat

theorem length_initial {t : TocEntry} {defaults : List UInt8}
    (h : t.defaultSize ≤ defaults.length) : (t.initial defaults).length = t.slotType.size := by
  unfold initial
  unfold defaultSize at h
  split
  case isTrue => exact List.length_replicate
  case isFalse hvalue =>
    rw [if_neg hvalue] at h
    rw [List.length_take, Nat.min_eq_left h]

end TocEntry

namespace Memory

/-! ### Filling the slots -/

section Filling

variable {statics filled : Buffer} {defaults : List UInt8} {i : Nat} {t : TocEntry}
  {slots before after : List (Nat × TocEntry)}

/-- The first slot gets its bytes, and the others are filled with what it leaves. -/
theorem fillStatics_cons_eq_ok_iff :
    fillStatics statics defaults ((i, t) :: slots) = .ok filled ↔
      t.descriptor.toNat + t.slotType.size ≤ statics.size ∧ t.defaultSize ≤ defaults.length ∧
      fillStatics (statics.patch t.descriptor.toNat (t.initial defaults))
        (defaults.drop t.defaultSize) slots = .ok filled := by
  rw [fillStatics, TocEntry.defaultSize, TocEntry.initial]
  dsimp only
  split
  case isTrue houtside => simp [Nat.not_le.2 houtside]
  case isFalse hinside =>
    have hfits := Nat.le_of_not_lt hinside
    split
    case isTrue => simp [hfits]
    case isFalse =>
      rw [List.length_take]
      by_cases hlength : t.slotType.size ≤ defaults.length
      · rw [if_pos (Nat.min_eq_left hlength)]
        simp [hfits, hlength]
      · rw [if_neg (by omega)]
        simp [hlength]

theorem le_size_of_fillStatics (h : fillStatics statics defaults slots = .ok filled) :
    ∀ x ∈ slots, x.2.descriptor.toNat + x.2.slotType.size ≤ statics.size := by
  induction slots generalizing statics defaults with
  | nil => exact List.forall_mem_nil _
  | cons x slots ih =>
      obtain ⟨hfits, _, hrest⟩ := fillStatics_cons_eq_ok_iff.1 h
      refine List.forall_mem_cons.2 ⟨hfits, fun y hy => ?_⟩
      have hy := ih hrest y hy
      rwa [Buffer.size_patch] at hy

/-- Bytes that lie apart from the slots are left as they are. -/
theorem slice_fillStatics (h : fillStatics statics defaults slots = .ok filled)
    (hapart : ∀ x ∈ slots, t.Apart x.2) :
    filled.slice t.descriptor.toNat t.slotType.size
      = statics.slice t.descriptor.toNat t.slotType.size := by
  induction slots generalizing statics defaults with
  | nil =>
      cases h
      rfl
  | cons x slots ih =>
      obtain ⟨hfirst, hapart⟩ := List.forall_mem_cons.1 hapart
      obtain ⟨_, hdefaults, hrest⟩ := fillStatics_cons_eq_ok_iff.1 h
      rw [ih hrest hapart]
      apply Buffer.slice_patch_of_disjoint
      rw [TocEntry.length_initial hdefaults]
      exact hfirst

/-- A slot starts with the bytes that it gets, if no later slot shares some of them. They come
behind those of all slots before it. -/
theorem slice_of_fillStatics
    (h : fillStatics statics defaults (before ++ (i, t) :: after) = .ok filled)
    (hapart : ∀ x ∈ after, t.Apart x.2) :
    (before.map (·.2.defaultSize)).sum + t.defaultSize ≤ defaults.length ∧
      filled.slice t.descriptor.toNat t.slotType.size
        = t.initial (defaults.drop (before.map (·.2.defaultSize)).sum) := by
  induction before generalizing statics defaults with
  | nil =>
      obtain ⟨hfits, hdefaults, hrest⟩ := fillStatics_cons_eq_ok_iff.1 h
      have hlength := TocEntry.length_initial hdefaults
      refine ⟨by simpa using hdefaults, ?_⟩
      rw [slice_fillStatics hrest hapart, ← hlength]
      exact Buffer.slice_patch _ _ _ (hlength.symm ▸ hfits)
  | cons x before ih =>
      obtain ⟨_, hdefaults, hrest⟩ := fillStatics_cons_eq_ok_iff.1 h
      obtain ⟨hlength, hslice⟩ := ih hrest
      rw [List.length_drop] at hlength
      rw [List.map_cons, List.sum_cons]
      refine ⟨by omega, ?_⟩
      rw [hslice, List.drop_drop]

end Filling

/-! ### The slots of a memory -/

def defaultsBefore (toc : Array TocEntry) (slots : List Nat) : Nat :=
  (slots.map fun e => (toc[e]?.map TocEntry.defaultSize).getD 0).sum

variable {image : Image} {m : Memory} {e : Nat} {t : TocEntry}

theorem mem_slots_of_load (h : load image = .ok m) :
    e ∈ m.slots ↔ ∃ t, (e, t) ∈ owners image.toc.toList := by
  obtain ⟨statics, blocks, _, _, rfl⟩ := load_eq_ok_iff.1 h
  simp

/-- The table entry of a slot. -/
theorem getElem?_of_mem_owners {x : Nat × TocEntry} (hx : x ∈ owners image.toc.toList) :
    image.toc[x.1]? = some x.2 ∧ x.2.slotType.isScalar = true := by
  obtain ⟨visited, hvisits⟩ := exists_visits image.toc.toList 0
  obtain ⟨_, ht, hscalar⟩ := (mem_owners_iff hvisits).1 hx
  rw [Array.getElem?_toList] at ht
  exact ⟨ht, hscalar⟩

/-- A slot lies within the static buffer. -/
theorem exists_of_mem_slots (h : load image = .ok m) (he : e ∈ m.slots) :
    ∃ t, image.toc[e]? = some t ∧ t.slotType.isScalar = true ∧
      t.descriptor.toNat + t.slotType.size ≤ m.statics.size := by
  obtain ⟨t, ht⟩ := (mem_slots_of_load h).1 he
  obtain ⟨hentry, hscalar⟩ := getElem?_of_mem_owners ht
  obtain ⟨statics, blocks, hstatics, _, rfl⟩ := load_eq_ok_iff.1 h
  have hfits := le_size_of_fillStatics hstatics _ ht
  rw [← size_fillStatics hstatics] at hfits
  exact ⟨t, hentry, hscalar, hfits⟩

/-- A slot can be read, whatever happens to the memory. -/
theorem exists_scalar_of_mem_slots (h : load image = .ok m) (he : e ∈ m.slots)
    (edits : List Edit) : ∃ v, (m.afterEdits edits).scalar e = .ok v := by
  obtain ⟨t, ht, hscalar, hfits⟩ := exists_of_mem_slots h he
  have hevolves := m.evolves_afterEdits edits
  have htoc : m.toc = image.toc := by
    obtain ⟨statics, blocks, _, _, rfl⟩ := load_eq_ok_iff.1 h
    rfl
  refine ⟨_, scalar_eq_ok_iff.2 ⟨t, ?_, hscalar, ?_, rfl⟩⟩
  · rw [hevolves.toc, htoc]
    exact ht
  · rw [hevolves.size_statics]
    exact hfits

theorem sum_defaultSize_eq {slots : List (Nat × TocEntry)}
    (h : ∀ x ∈ slots, image.toc[x.1]? = some x.2) :
    (slots.map (·.2.defaultSize)).sum = defaultsBefore image.toc (slots.map Prod.fst) := by
  rw [defaultsBefore, List.map_map]
  congr 1
  apply List.map_congr_left
  intro x hx
  rw [Function.comp_apply, h x hx]
  rfl

/-- A slot that no later slot overlaps with starts at zero, if its flag says so, and otherwise with
the bytes of the default data behind those of the slots before it. -/
theorem slice_of_load (h : load image = .ok m) {before after : List Nat}
    (hslots : m.slots = before ++ e :: after) (ht : image.toc[e]? = some t)
    (hapart : ∀ f ∈ after, ∀ u, image.toc[f]? = some u → t.Apart u) :
    defaultsBefore image.toc before + t.defaultSize ≤ image.defaultData.size ∧
      m.statics.slice t.descriptor.toNat t.slotType.size
        = t.initial (image.defaultData.toList.drop (defaultsBefore image.toc before)) := by
  have howners := fun x (hx : x ∈ owners image.toc.toList) => (getElem?_of_mem_owners hx).1
  obtain ⟨statics, blocks, hstatics, _, rfl⟩ := load_eq_ok_iff.1 h
  obtain ⟨before', rest, hrest, rfl, hafter⟩ := List.map_eq_append_iff.1 hslots
  obtain ⟨x, after', rfl, rfl, rfl⟩ := List.map_eq_cons_iff.1 hafter
  rw [hrest] at hstatics howners
  have hx : image.toc[x.1]? = some x.2 := howners x (by simp)
  obtain rfl : x.2 = t := Option.some.inj (hx.symm.trans ht)
  have hbefore : ∀ y ∈ before', image.toc[y.1]? = some y.2 :=
    fun y hy => howners y (List.mem_append_left _ hy)
  rw [← sum_defaultSize_eq hbefore, ← Array.length_toList]
  apply slice_of_fillStatics hstatics
  intro y hy
  exact hapart y.1 (List.mem_map_of_mem hy) y.2 (howners y (by simp [hy]))

/-- The memory has the slots that the image gives it, and they hold their defaults. -/
structure HasSlots (m : Memory) (image : Image) : Prop where
  increasing : m.slots.Pairwise (· < ·)
  /-- An entry has no slot exactly if it is void or a cluster or declares elements of an array. -/
  absent (i : Nat) (t : TocEntry) : image.toc[i]? = some t →
    (i ∉ m.slots ↔ t.slotType = .void ∨ t.slotType = .cluster ∨
      ∃ a ∈ m.slots, Declares image.toc.toList a i)
  inside (e : Nat) : e ∈ m.slots → ∃ t, image.toc[e]? = some t ∧
    t.descriptor.toNat + t.slotType.size ≤ m.statics.size
  readable (e : Nat) (edits : List Edit) : e ∈ m.slots →
    ∃ v, (m.afterEdits edits).scalar e = .ok v
  /-- A slot that no later one overlaps with starts at zero, if its flag says so. -/
  zeroed (before : List Nat) (e : Nat) (after : List Nat) (t : TocEntry) :
    m.slots = before ++ e :: after → image.toc[e]? = some t →
    (∀ f ∈ after, ∀ u, image.toc[f]? = some u → t.Apart u) → t.hasZeroDefault = true →
    m.statics.slice t.descriptor.toNat t.slotType.size = List.replicate t.slotType.size 0
  /-- Otherwise it starts with the bytes that come behind those of the slots before it. -/
  defaulted (before : List Nat) (e : Nat) (after : List Nat) (t : TocEntry) :
    m.slots = before ++ e :: after → image.toc[e]? = some t →
    (∀ f ∈ after, ∀ u, image.toc[f]? = some u → t.Apart u) → t.hasZeroDefault = false →
    defaultsBefore image.toc before + t.slotType.size ≤ image.defaultData.size ∧
      m.statics.slice t.descriptor.toNat t.slotType.size
        = Buffer.slice image.defaultData (defaultsBefore image.toc before) t.slotType.size

theorem hasSlots_of_load (h : load image = .ok m) : m.HasSlots image where
  increasing := by
    obtain ⟨statics, blocks, _, _, rfl⟩ := load_eq_ok_iff.1 h
    exact pairwise_owners _
  absent i t ht := by
    rw [← Array.getElem?_toList] at ht
    obtain ⟨statics, blocks, _, _, rfl⟩ := load_eq_ok_iff.1 h
    exact not_mem_owners_iff ht
  inside e he := by
    obtain ⟨t, ht, _, hfits⟩ := exists_of_mem_slots h he
    exact ⟨t, ht, hfits⟩
  readable e edits he := exists_scalar_of_mem_slots h he edits
  zeroed before e after t hslots ht hapart hzero := by
    obtain ⟨_, hslice⟩ := slice_of_load h hslots ht hapart
    rw [hslice, TocEntry.initial, if_pos hzero]
  defaulted before e after t hslots ht hapart hvalue := by
    obtain ⟨hlength, hslice⟩ := slice_of_load h hslots ht hapart
    have hvalue : ¬ t.hasZeroDefault = true := Bool.eq_false_iff.1 hvalue
    rw [TocEntry.defaultSize, if_neg hvalue] at hlength
    refine ⟨hlength, ?_⟩
    rw [hslice, TocEntry.initial, if_neg hvalue, Buffer.slice, Array.toList_extract,
      List.extract_eq_take_drop, Nat.add_sub_cancel_left]

/-- The walk over the table of contents ends for every image, and finds each slot at a place that it
comes to. If the image can be loaded, the memory has these slots, which lie within the static buffer
and can be read whatever happens to the memory, and they hold their defaults. -/
theorem slots_of_load (image : Image) :
    (∃ visited, Visits image.toc.toList 0 visited ∧ visited.length ≤ image.toc.size ∧
      owners image.toc.toList = visited.filterMap (owner? image.toc.toList)) ∧
    ∀ m, load image = .ok m → m.HasSlots image := by
  obtain ⟨visited, hvisits⟩ := exists_visits image.toc.toList 0
  exact ⟨⟨visited, hvisits, hvisits.length_le, hvisits.owners_eq⟩, fun m h => hasSlots_of_load h⟩

/-- A byte, an array of clusters of two numbers, a word that starts at zero within the two bytes of
the array, a long number, and an array of clusters whose members the table does not have. -/
def raggedTable : Image where
  version := Image.currentVersion
  header := ⟨10, 0, 12, 9, 9, 0, 0, 0, 0⟩
  toc := #[⟨.ubyte, 0, 0⟩, ⟨.array, 0, 2⟩, ⟨.array, 0, 0⟩, ⟨.cluster, 0, 2⟩, ⟨.ubyte, 0, 0⟩,
    ⟨.uword, 0, 0⟩, ⟨.uword, 1, 3⟩, ⟨.slong, 0, 5⟩, ⟨.array, 0, 9⟩, ⟨.cluster, 0, 1000⟩]
  defaultData := #[7, 1, 0, 210, 4, 0, 0, 2, 0]
  clumps := #[]
  code := #[]

theorem slots_of_load_raggedTable :
    ∃ m, load raggedTable = .ok m ∧ m.slots = [0, 1, 6, 7, 8] ∧
      m.slots.Pairwise (· < ·) ∧
      (4 ∉ m.slots ↔ ∃ a ∈ m.slots, Declares raggedTable.toc.toList a 4) ∧
      (∃ v, m.scalar 8 = .ok v) ∧
      m.statics.slice 3 2 = [0, 0] ∧ m.statics.slice 5 4 = [210, 4, 0, 0] := by
  obtain ⟨m, hm⟩ : ∃ m, load raggedTable = .ok m := ⟨_, rfl⟩
  have hslots : m.slots = [0, 1, 6, 7, 8] := by
    cases hm
    rfl
  obtain ⟨_, hloaded⟩ := slots_of_load raggedTable
  have hm' := hloaded m hm
  refine ⟨m, hm, hslots, hm'.increasing, ?_, ?_, ?_, ?_⟩
  · simpa using hm'.absent 4 ⟨.ubyte, 0, 0⟩ rfl
  · exact hm'.readable 8 [] (by simp [hslots])
  · exact hm'.zeroed [0, 1] 6 [7, 8] ⟨.uword, 1, 3⟩ hslots rfl
      (by simp [raggedTable, TocEntry.Apart, SlotType.size]) rfl
  · exact (hm'.defaulted [0, 1, 6] 7 [8] ⟨.slong, 0, 5⟩ hslots rfl
      (by simp [raggedTable, TocEntry.Apart, SlotType.size]) rfl).2

end Memory

end BrickMachine
