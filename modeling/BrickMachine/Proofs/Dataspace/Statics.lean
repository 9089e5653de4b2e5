import BrickMachine.Proofs.Dataspace.Entries
import BrickMachine.Proofs.Memory.Shape
import BrickMachine.Proofs.Slot.Codec

/-!
# The static part of a dataspace

A walk over the table of contents of a dataspace finds the entries that have a slot, and filling
their slots from the default data lays the initial bytes of all entries one after the other. Each
entry finds its own bytes where the storage of the entries before it ends.
-/

namespace BrickMachine

namespace Entry

/-- The bytes that a slot starts with. An array has the dope vector with the given index. -/
def initial (index : Nat) : Entry → List UInt8
  | scalar t v => t.encode v
  | zeroed t => t.encode 0
  | array .. => SlotType.array.encode (Int32.ofNat index)
  | declaration .. => []

@[simp] theorem length_initial (index : Nat) (e : Entry) :
    (e.initial index).length = e.storage := by
  cases e <;> simp [initial, storage]

def defaults (index : Nat) : Entry → List UInt8
  | zeroed _ => []
  | e => e.initial index

theorem length_defaults_le (index : Nat) (e : Entry) : (e.defaults index).length ≤ e.storage := by
  cases e with
  | zeroed => exact Nat.zero_le _
  | _ => simp [defaults]

theorem defaults_eq_nil {index : Nat} {e : Entry} (h : e.initial index = []) :
    e.defaults index = [] := by
  cases e with
  | zeroed => rfl
  | _ => exact h

end Entry

namespace Dataspace

/-! ### Which entries have a slot -/

theorem arrayPlans_append (es fs : List Entry) :
    arrayPlans (es ++ fs) = arrayPlans es ++ arrayPlans fs :=
  List.filterMap_append

theorem staticSize_append (es fs : List Entry) :
    staticSize (es ++ fs) = staticSize es + staticSize fs := by
  induction es with
  | nil => simp [staticSize]
  | cons e es ih => rw [List.cons_append, staticSize, ih, staticSize, Nat.add_assoc]

def ownersOf (i offset : Nat) : List Entry → List (Nat × TocEntry)
  | [] => []
  | e :: es =>
    (if e.declared?.isSome then [(i, e.toToc offset)] else [])
      ++ ownersOf (i + 1) (offset + e.storage) es

theorem map_fst_ownersOf (i offset : Nat) (es : List Entry) :
    (ownersOf i offset es).map Prod.fst = (slotsFrom i es).map Prod.fst := by
  induction es generalizing i offset with
  | nil => rfl
  | cons e es ih =>
      rw [ownersOf, slotsFrom, List.map_append, List.map_append, ← ih (i + 1) (offset + e.storage)]
      cases e.declared? with
      | none => rfl
      | some x => rfl

/-- An entry that the walk meets outside of element declarations and that is no array. -/
theorem ownersFrom_number {t : TocEntry} (ht : t.slotType ≠ .array) (i : Nat)
    (ts : List TocEntry) :
    Memory.ownersFrom (.skipping 0) i (t :: ts)
      = if t.slotType.isFlat then (i, t) :: Memory.ownersFrom (.skipping 0) (i + 1) ts
        else Memory.ownersFrom (.skipping 0) (i + 1) ts := by
  rw [Memory.ownersFrom]
  cases h : t.slotType with
  | array => exact absurd h ht
  | _ => rfl

/-- The walk finds the entries that have a slot. -/
theorem ownersFrom_tocFrom {w : Memory.Walk} {es : List Entry} (h : Completes w es)
    (i offset : Nat) : Memory.ownersFrom w i (tocFrom offset es) = ownersOf i offset es := by
  induction h generalizing i offset with
  | done => rfl
  | @scalar t es ht v _ ih =>
      rw [tocFrom, ownersFrom_number ht, ih, ownersOf, Entry.declared?]
      change (if t.isFlat then _ else _) = _
      cases t.isFlat with
      | false => rfl
      | true => rfl
  | @zeroed t es ht _ ih =>
      rw [tocFrom, ownersFrom_number ht, ih, ownersOf, Entry.declared?]
      change (if t.isFlat then _ else _) = _
      cases t.isFlat with
      | false => rfl
      | true => rfl
  | head n _ ih => exact ih (i + 1) offset
  | array size vs count _ ih =>
      have hrest := ih (i + 1) (offset + SlotType.array.size)
      exact congrArg (List.cons _) hrest
  | nested n _ ih => exact ih (i + 1) offset
  | members n _ ih => exact ih (i + 1) offset
  | @element t es harray hcluster n _ ih =>
      rw [tocFrom, Memory.ownersFrom]
      cases ht : t with
      | array => exact absurd ht harray
      | cluster => exact absurd ht hcluster
      | _ => exact ih (i + 1) offset
  | member t n _ ih => exact ih (i + 1) offset

theorem owners_tocFrom {es : List Entry} (h : Completes (.skipping 0) es) :
    Memory.owners (tocFrom 0 es) = ownersOf 0 0 es :=
  ownersFrom_tocFrom h 0 0

/-- Only slots take storage. -/
theorem Completes.storage_eq_zero {w : Memory.Walk} {es : List Entry} (h : Completes w es) :
    ∀ e ∈ es, e.declared?.isSome = false → e.storage = 0 := by
  have hnumber {t : SlotType} (ht : t ≠ .array) (hflat : ¬ t.isFlat = true) : t.size = 0 := by
    cases t with
    | void => rfl
    | cluster => rfl
    | array => exact absurd rfl ht
    | _ => exact absurd rfl hflat
  induction h with
  | done => exact List.forall_mem_nil _
  | scalar ht v _ ih =>
      refine List.forall_mem_cons.2 ⟨fun hnone => hnumber ht fun hflat => ?_, ih⟩
      simp [Entry.declared?, hflat] at hnone
  | zeroed ht _ ih =>
      refine List.forall_mem_cons.2 ⟨fun hnone => hnumber ht fun hflat => ?_, ih⟩
      simp [Entry.declared?, hflat] at hnone
  | array size vs count _ ih =>
      refine List.forall_mem_cons.2 ⟨fun hnone => ?_, ih⟩
      cases hnone
  | head n _ ih => exact List.forall_mem_cons.2 ⟨fun _ => rfl, ih⟩
  | nested n _ ih => exact List.forall_mem_cons.2 ⟨fun _ => rfl, ih⟩
  | members n _ ih => exact List.forall_mem_cons.2 ⟨fun _ => rfl, ih⟩
  | element _ _ n _ ih => exact List.forall_mem_cons.2 ⟨fun _ => rfl, ih⟩
  | member t n _ ih => exact List.forall_mem_cons.2 ⟨fun _ => rfl, ih⟩

/-! ### What the slots start with -/

def initialFrom (index : Nat) : List Entry → List UInt8
  | [] => []
  | e :: es => e.initial index ++ initialFrom (index + (arrayPlans [e]).length) es

@[simp] theorem length_initialFrom (index : Nat) (es : List Entry) :
    (initialFrom index es).length = staticSize es := by
  induction es generalizing index with
  | nil => rfl
  | cons e es ih => rw [initialFrom, List.length_append, Entry.length_initial, ih, staticSize]

theorem initialFrom_append (index : Nat) (es fs : List Entry) :
    initialFrom index (es ++ fs)
      = initialFrom index es ++ initialFrom (index + (arrayPlans es).length) fs := by
  induction es generalizing index with
  | nil => rfl
  | cons e es ih =>
      have hcons : arrayPlans (e :: es) = arrayPlans [e] ++ arrayPlans es :=
        arrayPlans_append [e] es
      rw [List.cons_append, initialFrom, ih, hcons, List.length_append, initialFrom,
        List.append_assoc, Nat.add_assoc]

theorem slotDefaults_cons (index : Nat) (e : Entry) (es : List Entry) :
    slotDefaults index (e :: es)
      = e.defaults index ++ slotDefaults (index + (arrayPlans [e]).length) es := by
  cases e <;> rfl

/-- A slot that takes its value from the default data. -/
theorem fillStatics_value {t : TocEntry} {done value : List UInt8} (i : Nat)
    (hoffset : t.descriptor.toNat = done.length) (hsize : value.length = t.slotType.size)
    (hzero : t.hasZeroDefault = false) (zeros rest : List UInt8) (slots : List (Nat × TocEntry)) :
    Memory.fillStatics (done ++ List.replicate t.slotType.size 0 ++ zeros).toArray (value ++ rest)
        ((i, t) :: slots)
      = Memory.fillStatics (done ++ value ++ zeros).toArray rest slots := by
  have hfits : ¬ (done ++ List.replicate value.length 0 ++ zeros).toArray.size
      < done.length + value.length := by
    simp
  rw [Memory.fillStatics]
  dsimp only
  rw [hoffset, ← hsize, if_neg hfits, hzero, if_neg Bool.false_ne_true, List.take_left, if_pos rfl,
    List.drop_left, Buffer.patch_middle List.length_replicate]

/-- A slot that starts at zero takes nothing from the default data. -/
theorem fillStatics_zero {t : TocEntry} {done : List UInt8} (i : Nat)
    (hoffset : t.descriptor.toNat = done.length) (hzero : t.hasZeroDefault = true)
    (zeros defaults : List UInt8) (slots : List (Nat × TocEntry)) :
    Memory.fillStatics (done ++ List.replicate t.slotType.size 0 ++ zeros).toArray defaults
        ((i, t) :: slots)
      = Memory.fillStatics (done ++ List.replicate t.slotType.size 0 ++ zeros).toArray defaults
          slots := by
  have hfits : ¬ (done ++ List.replicate t.slotType.size 0 ++ zeros).toArray.size
      < done.length + t.slotType.size := by
    simp
  rw [Memory.fillStatics]
  dsimp only
  rw [hoffset, if_neg hfits, hzero, if_pos rfl, Buffer.patch_middle rfl]

/-- What one entry adds behind bytes that are done. -/
theorem fillStatics_entry {e : Entry} (he : e.declared?.isSome = false → e.storage = 0)
    {done : List UInt8} (hoffset : (UInt16.ofNat done.length).toNat = done.length) (i index : Nat)
    (zeros rest : List UInt8) (slots : List (Nat × TocEntry)) :
    Memory.fillStatics (done ++ List.replicate e.storage 0 ++ zeros).toArray
        (e.defaults index ++ rest)
        ((if e.declared?.isSome then [(i, e.toToc done.length)] else []) ++ slots)
      = Memory.fillStatics (done ++ e.initial index ++ zeros).toArray rest slots := by
  cases hslot : e.declared?.isSome with
  | false =>
      have hinitial : e.initial index = [] := by
        rw [← List.length_eq_zero_iff, Entry.length_initial, he hslot]
      have hdefaults : e.defaults index = [] := e.defaults_eq_nil hinitial
      rw [hinitial, hdefaults, he hslot]
      rfl
  | true =>
      rw [if_pos rfl, List.singleton_append]
      cases e with
      | scalar t v =>
          exact fillStatics_value (t := ⟨t, 0, _⟩) i hoffset (SlotType.length_encode t v) rfl zeros
            rest slots
      | zeroed t =>
          rw [Entry.initial, SlotType.encode_zero]
          exact fillStatics_zero (t := ⟨t, TocEntry.zeroDefaultFlag, _⟩) i hoffset rfl zeros
            rest slots
      | array =>
          exact fillStatics_value (t := ⟨.array, 0, _⟩) i hoffset (SlotType.length_encode .array _)
            rfl zeros rest slots
      | declaration => cases hslot

/-- Filling the slots of entries behind bytes that are done, where the default data starts with
the values of these slots. -/
theorem fillStatics_ownersOf {es : List Entry}
    (hes : ∀ e ∈ es, e.declared?.isSome = false → e.storage = 0) (i index : Nat)
    (done rest : List UInt8) (hfits : done.length + staticSize es ≤ 65535) :
    Memory.fillStatics (done ++ List.replicate (staticSize es) 0).toArray
        (slotDefaults index es ++ rest) (ownersOf i done.length es)
      = .ok (done ++ initialFrom index es).toArray := by
  induction es generalizing i index done with
  | nil =>
      rw [staticSize, List.replicate_zero, initialFrom]
      rfl
  | cons e es ih =>
      obtain ⟨he, hes⟩ := List.forall_mem_cons.1 hes
      rw [staticSize] at hfits
      have hoffset : (UInt16.ofNat done.length).toNat = done.length :=
        toNat_ofNat_of_le (Nat.le_trans (Nat.le_add_right _ _) hfits)
      -- the slot of this entry joins the bytes that are done
      have hlen : (done ++ e.initial index).length = done.length + e.storage := by
        rw [List.length_append, Entry.length_initial]
      rw [staticSize, ← List.replicate_append_replicate, ← List.append_assoc, ownersOf,
        slotDefaults_cons, List.append_assoc (e.defaults index), fillStatics_entry he hoffset,
        ← hlen, ih hes _ _ _ (by omega), initialFrom, ← List.append_assoc]

theorem fillStatics_owners {es : List Entry} (h : Completes (.skipping 0) es)
    (hfits : staticSize es ≤ 65535) (rest : List UInt8) :
    Memory.fillStatics (Array.replicate (staticSize es) 0) (slotDefaults 1 es ++ rest)
        (Memory.owners (tocFrom 0 es))
      = .ok (initialFrom 1 es).toArray := by
  have hzeros : Array.replicate (staticSize es) (0 : UInt8)
      = (([] : List UInt8) ++ List.replicate (staticSize es) 0).toArray := by
    rw [List.nil_append, List.toArray_replicate]
  rw [owners_tocFrom h, hzeros]
  exact fillStatics_ownersOf h.storage_eq_zero 0 1 [] rest (by simpa using hfits)

/-! ### One entry among the others -/

theorem length_tocFrom (offset : Nat) (es : List Entry) :
    (tocFrom offset es).length = es.length := by
  induction es generalizing offset with
  | nil => rfl
  | cons e es ih => rw [tocFrom, List.length_cons, ih, List.length_cons]

theorem getElem?_tocFrom (offset : Nat) (before : List Entry) (e : Entry) (after : List Entry) :
    (tocFrom offset (before ++ e :: after))[before.length]?
      = some (e.toToc (offset + staticSize before)) := by
  induction before generalizing offset with
  | nil => rfl
  | cons b before ih =>
      rw [List.cons_append, tocFrom, List.length_cons, List.getElem?_cons_succ, ih, staticSize,
        Nat.add_assoc]

/-- An entry finds its own bytes where its storage starts. -/
theorem slice_initialFrom (before : List Entry) (e : Entry) (after : List Entry) :
    Buffer.slice (initialFrom 1 (before ++ e :: after)).toArray (staticSize before) e.storage
      = e.initial ((arrayPlans before).length + 1) := by
  have hparts : initialFrom 1 (before ++ e :: after) = initialFrom 1 before
      ++ e.initial ((arrayPlans before).length + 1)
      ++ initialFrom (1 + (arrayPlans before).length + (arrayPlans [e]).length) after := by
    rw [initialFrom_append, initialFrom, ← List.append_assoc, Nat.add_comm 1]
  have hslice := Buffer.slice_middle (initialFrom 1 before)
    (e.initial ((arrayPlans before).length + 1))
    (initialFrom (1 + (arrayPlans before).length + (arrayPlans [e]).length) after)
  rw [length_initialFrom, Entry.length_initial] at hslice
  rw [hparts, hslice]

end Dataspace

end BrickMachine
