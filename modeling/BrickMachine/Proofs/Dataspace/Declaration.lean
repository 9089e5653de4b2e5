import BrickMachine.Image.Dataspace

/-!
# Declarations and what they mean

A dataspace is built by a sequence of declarations. The `Inventory` of such a sequence says what
it declares, without any layout: the entries that have a slot, in order, and for each of them the
number or the list that it holds in the end. The layout of the dataspace and the loading of its
image have to agree with the inventory and not only with each other.
-/

namespace BrickMachine

inductive Declaration where
  | scalar (t : SlotType) (v : Int32)
  | zeroed (t : SlotType)
  | array (element : SlotType) (values : List Int32)
  | nestedArray (inner : SlotType)
  | clusterArray (members : List SlotType) (count : UInt16)
  | cluster (members : List SlotType)
  | setDefault (entry : UInt16) (v : Int32)
  | setArrayDefault (entry : UInt16) (values : List Int32)

namespace Declaration

def apply (d : Dataspace) : Declaration → Dataspace
  | scalar t v => d.scalar t v
  | zeroed t => d.zeroed t
  | array element values => d.array element values
  | nestedArray inner => d.nestedArray inner
  | clusterArray members count => d.clusterArray members count
  | cluster members => d.cluster members
  | setDefault entry v => d.setDefault entry v
  | setArrayDefault entry values => d.setArrayDefault entry values

/-- An array is declared as such: neither as a scalar, nor as the type of elements. -/
def Admissible : Declaration → Prop
  | scalar t _ | zeroed t | array t _ | nestedArray t => t ≠ .array
  | _ => True

instance : DecidablePred Admissible
  | scalar t _ | zeroed t | array t _ | nestedArray t => inferInstanceAs (Decidable (t ≠ .array))
  | clusterArray .. | cluster _ | setDefault .. | setArrayDefault .. =>
    inferInstanceAs (Decidable True)

end Declaration

def Dataspace.declared (declarations : List Declaration) : Dataspace :=
  declarations.foldl Declaration.apply {}

inductive Declared where
  | number (t : SlotType) (v : Int32)
  /-- An array, with the size and the count of its elements. Values are kept of flat elements
  only; others are zero. -/
  | list (element : SlotType) (elementSize count : Nat) (values : List Int32)

namespace Declared

def withValue (v : Int32) : Declared → Declared
  | number t _ => number t v
  | x => x

def withValues (vs : List Int32) : Declared → Declared
  | list element size _ _ => list element size vs.length vs
  | x => x

/-- A list of flat elements has elements of their own size, one for each value. -/
def Proper : Declared → Prop
  | number .. => True
  | list element size count vs => element.isFlat = true → size = element.size ∧ count = vs.length

theorem proper_list (element : SlotType) (vs : List Int32) :
    (list element element.size vs.length vs).Proper :=
  fun _ => ⟨rfl, rfl⟩

theorem proper_of_not_isFlat {element : SlotType} (h : ¬ element.isFlat = true) (size count : Nat)
    (vs : List Int32) : (list element size count vs).Proper :=
  fun hflat => absurd hflat h

theorem Proper.withValue (v : Int32) {x : Declared} (h : x.Proper) : (x.withValue v).Proper := by
  cases x with
  | number => trivial
  | list => exact h

theorem Proper.withValues (vs : List Int32) {x : Declared} (h : x.Proper) :
    (x.withValues vs).Proper := by
  cases x with
  | number => trivial
  | list => exact fun hflat => ⟨(h hflat).1, rfl⟩

def FitsWords : Declared → Prop
  | number .. => True
  | list _ size count _ => size ≤ 65535 ∧ count ≤ 65535

instance : DecidablePred FitsWords
  | number .. => inferInstanceAs (Decidable True)
  | list _ size count _ => inferInstanceAs (Decidable (size ≤ 65535 ∧ count ≤ 65535))

def staticSize : Declared → Nat
  | number t _ => t.size
  | list .. => SlotType.array.size

def tableSize : Declared → Nat
  | number .. => 0
  | list .. => DopeVector.recordSize

def contentsSize : Declared → Nat
  | number .. => 0
  | list _ size count _ => size * count

end Declared

structure Inventory where
  /-- The number of the next entry. -/
  next : Nat := 0
  /-- The entries that have a slot, each with what it holds. -/
  slots : List (Nat × Declared) := []

namespace Inventory

/-- A number is declared. It takes one entry, which has a slot if the type is flat. -/
def number (inv : Inventory) (t : SlotType) (v : Int32) : Inventory where
  next := inv.next + 1
  slots := inv.slots ++ if t.isFlat then [(inv.next, .number t v)] else []

/-- A list is declared, and `declarations` entries after it that say what its elements are. -/
def list (inv : Inventory) (x : Declared) (declarations : Nat) : Inventory where
  next := inv.next + (declarations + 1)
  slots := inv.slots ++ [(inv.next, x)]

def member (inv : Inventory) (t : SlotType) : Inventory :=
  if t = .array then inv.list (.list .ubyte SlotType.ubyte.size 0 []) 1 else inv.number t 0

def revise (inv : Inventory) (entry : Nat) (f : Declared → Declared) : Inventory :=
  { inv with slots := inv.slots.map fun s => if s.1 = entry then (s.1, f s.2) else s }

def declare (inv : Inventory) : Declaration → Inventory
  | .scalar t v => inv.number t v
  | .zeroed t => inv.number t 0
  | .array element values => inv.list (.list element element.size values.length values) 1
  | .nestedArray _ => inv.list (.list .array SlotType.array.size 0 []) 2
  | .clusterArray members count =>
    inv.list (.list .cluster (Dataspace.clusterSize members) count.toNat []) (members.length + 1)
  | .cluster members => members.foldl member { inv with next := inv.next + 1 }
  | .setDefault entry v => inv.revise entry.toNat (Declared.withValue v)
  | .setArrayDefault entry values => inv.revise entry.toNat (Declared.withValues values)

def declared (declarations : List Declaration) : Inventory :=
  declarations.foldl declare {}

def total (size : Declared → Nat) : List (Nat × Declared) → Nat
  | [] => 0
  | s :: slots => size s.2 + total size slots

theorem total_append (size : Declared → Nat) (slots slots' : List (Nat × Declared)) :
    total size (slots ++ slots') = total size slots + total size slots' := by
  induction slots with
  | nil => exact (Nat.zero_add _).symm
  | cons s slots ih => rw [List.cons_append, total, ih, total, Nat.add_assoc]

/-- Every number that the image of the inventory stores fits a word, and so does the address of
the last byte. The dope vector table has one more record, for itself. -/
structure Fits (inv : Inventory) : Prop where
  entries : inv.next ≤ 65535
  lists : ∀ s ∈ inv.slots, s.2.FitsWords
  bytes : total Declared.staticSize inv.slots
    + (DopeVector.recordSize + total Declared.tableSize inv.slots)
    + total Declared.contentsSize inv.slots ≤ 65535

/-! ### Lists of flat elements -/

theorem mem_slots_number {inv : Inventory} {t : SlotType} {v : Int32} {s : Nat × Declared}
    (hs : s ∈ (inv.number t v).slots) : s ∈ inv.slots ∨ s.2 = .number t v := by
  rcases List.mem_append.1 hs with hs | hs
  · exact Or.inl hs
  · split at hs
    · rw [List.mem_singleton.1 hs]
      exact Or.inr rfl
    · cases hs

theorem mem_slots_list {inv : Inventory} {x : Declared} {n : Nat} {s : Nat × Declared}
    (hs : s ∈ (inv.list x n).slots) : s ∈ inv.slots ∨ s.2 = x := by
  rcases List.mem_append.1 hs with hs | hs
  · exact Or.inl hs
  · rw [List.mem_singleton.1 hs]
    exact Or.inr rfl

def Proper (inv : Inventory) : Prop := ∀ s ∈ inv.slots, s.2.Proper

theorem Proper.number {inv : Inventory} (h : inv.Proper) (t : SlotType) (v : Int32) :
    (inv.number t v).Proper := by
  intro s hs
  rcases mem_slots_number hs with hs | hs
  · exact h s hs
  · rw [hs]
    trivial

theorem Proper.list {inv : Inventory} (h : inv.Proper) {x : Declared} (hx : x.Proper) (n : Nat) :
    (inv.list x n).Proper := by
  intro s hs
  rcases mem_slots_list hs with hs | hs
  · exact h s hs
  · rw [hs]
    exact hx

theorem Proper.revise {inv : Inventory} (h : inv.Proper) (entry : Nat) {f : Declared → Declared}
    (hf : ∀ {x : Declared}, x.Proper → (f x).Proper) : (inv.revise entry f).Proper := by
  intro s hs
  obtain ⟨r, hr, rfl⟩ := List.mem_map.1 hs
  split
  · exact hf (h r hr)
  · exact h r hr

theorem Proper.member {inv : Inventory} (h : inv.Proper) (t : SlotType) :
    (inv.member t).Proper := by
  unfold Inventory.member
  split
  · exact h.list (Declared.proper_list .ubyte []) 1
  · exact h.number t 0

theorem Proper.declare {inv : Inventory} (h : inv.Proper) (x : Declaration) :
    (inv.declare x).Proper := by
  cases x with
  | scalar t v => exact h.number t v
  | zeroed t => exact h.number t 0
  | array t vs => exact h.list (Declared.proper_list t vs) 1
  | nestedArray => exact h.list (Declared.proper_of_not_isFlat (by decide) _ _ _) 2
  | clusterArray => exact h.list (Declared.proper_of_not_isFlat (by decide) _ _ _) _
  | cluster members =>
      have hfold {inv : Inventory} (h : inv.Proper) :
          (members.foldl Inventory.member inv).Proper := by
        induction members generalizing inv with
        | nil => exact h
        | cons t members ih => exact ih (h.member t)
      exact hfold h
  | setDefault entry v => exact h.revise _ (Declared.Proper.withValue v)
  | setArrayDefault entry vs => exact h.revise _ (Declared.Proper.withValues vs)

theorem proper_declared (declarations : List Declaration) : (declared declarations).Proper := by
  have hfold {inv : Inventory} (h : inv.Proper) : (declarations.foldl declare inv).Proper := by
    induction declarations generalizing inv with
    | nil => exact h
    | cons x declarations ih => exact ih (h.declare x)
  exact hfold (List.forall_mem_nil _)

end Inventory

end BrickMachine
