import BrickMachine.Proofs.Memory.Access

/-!
# Stores to one slot

A store to a slot changes the bytes at which the slot lies, and nothing else: `m.StoresOnly e m'`
says that from `m` to `m'` the bytes of the slot at entry `e` are all that may be others. Slots may
overlap, so an entry that shares some of these bytes may well read as another value afterwards.
-/

namespace BrickMachine

namespace Memory

variable {m m' : Memory} {e : Nat}

/-- Byte `i` of the statics belongs to the slot at entry `e`. -/
def Occupies (m : Memory) (e i : Nat) : Prop :=
  ∃ t, m.toc[e]? = some t ∧ t.descriptor.toNat ≤ i ∧ i < t.descriptor.toNat + t.slotType.size

/-- The bytes of the slot at entry `e` are all that may have changed. -/
structure StoresOnly (e : Nat) (m m' : Memory) : Prop where
  toc : m'.toc = m.toc
  slots : m'.slots = m.slots
  blocks : m'.blocks = m.blocks
  size_statics : m'.statics.size = m.statics.size
  byte (i : Nat) : ¬ m.Occupies e i → m'.statics[i]? = m.statics[i]?

theorem occupies_congr (h : m'.toc = m.toc) {i : Nat} : m'.Occupies e i ↔ m.Occupies e i := by
  rw [Occupies, Occupies, h]

instance (e : Nat) : IsPreorder Memory (StoresOnly e) where
  refl _ := ⟨rfl, rfl, rfl, rfl, fun _ _ => rfl⟩
  trans a b c h₁ h₂ :=
    { toc := h₂.toc.trans h₁.toc
      slots := h₂.slots.trans h₁.slots
      blocks := h₂.blocks.trans h₁.blocks
      size_statics := h₂.size_statics.trans h₁.size_statics
      byte := by
        intro i hi
        rw [h₂.byte i (mt (occupies_congr h₁.toc).1 hi), h₁.byte i hi] }

theorem storesOnly_setScalar {v : Int32} (h : m.setScalar e v = .ok m') : m.StoresOnly e m' := by
  obtain ⟨target, htarget, rfl⟩ := map_eq_ok_iff.1 h
  obtain ⟨t, ht, hflat, hfits, rfl⟩ := slotTarget_eq_ok_iff.1 htarget
  rw [putSlot_of_fits hflat hfits]
  refine ⟨rfl, rfl, rfl, Buffer.size_patch _ _ _, fun i hi => ?_⟩
  rw [Buffer.getElem?_patch, SlotType.length_encode, if_neg]
  rintro ⟨hstart, hstop, _⟩
  exact hi ⟨t, ht, hstart, hstop⟩

/-! ### Slots that lie apart -/

def Apart (m : Memory) (e f : Nat) : Prop := ∀ i, m.Occupies e i → ¬ m.Occupies f i

theorem Apart.congr {f : Nat} (h : m.Apart e f) (htoc : m'.toc = m.toc) : m'.Apart e f := by
  intro i he hf
  exact h i ((occupies_congr htoc).1 he) ((occupies_congr htoc).1 hf)

namespace StoresOnly

variable {f : Nat} (h : m.StoresOnly e m') (hapart : m.Apart f e)
include h

theorem entry (f : Nat) : m'.entry f = m.entry f := by
  unfold Memory.entry
  rw [h.toc]

include hapart

/-- What lies apart from the slot is read as before. -/
theorem slotBytes {t : TocEntry} (ht : m.toc[f]? = some t) : m'.slotBytes t = m.slotBytes t := by
  have hslice : m'.statics.slice t.descriptor.toNat t.slotType.size
      = m.statics.slice t.descriptor.toNat t.slotType.size := by
    apply List.ext_getElem?
    intro i
    rw [Buffer.getElem?_slice, Buffer.getElem?_slice]
    by_cases hi : i < t.slotType.size
    · have hoccupies : m.Occupies f (t.descriptor.toNat + i) :=
        ⟨t, ht, Nat.le_add_right _ _, Nat.add_lt_add_left hi _⟩
      rw [if_pos hi, if_pos hi, h.byte _ (hapart _ hoccupies)]
    · rw [if_neg hi, if_neg hi]
  unfold Memory.slotBytes
  dsimp only
  rw [h.size_statics, hslice]

theorem scalar : m'.scalar f = m.scalar f := by
  unfold Memory.scalar
  rw [h.entry]
  cases ht : m.entry f with
  | error err => rfl
  | ok t =>
      change (if _ then m'.slotBytes t >>= _ else _) = if _ then m.slotBytes t >>= _ else _
      rw [h.slotBytes hapart (entry_eq_ok_iff.1 ht)]

theorem blockIndex : m'.blockIndex f = m.blockIndex f := by
  unfold Memory.blockIndex
  rw [h.entry, h.blocks]
  cases ht : m.entry f with
  | error err => rfl
  | ok t =>
      change (if _ then m'.slotBytes t >>= _ else _) = if _ then m.slotBytes t >>= _ else _
      rw [h.slotBytes hapart (entry_eq_ok_iff.1 ht)]

end StoresOnly

end Memory

end BrickMachine
