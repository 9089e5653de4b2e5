import BrickMachine.Memory.Load
import BrickMachine.Proofs.Dataspace.Declaration
import Mathlib.Data.List.Induction

/-!
# The entries of a dataspace

The entries of a declared dataspace have the slots that the inventory lists, in the same order and
at the same numbers, with sizes and counts cut to words. They also come in groups: an array is
followed by all that declares its elements. `Completes` says this for a walk over the entries that
is in the middle of such a group.

`Follows` puts both together. Every declaration keeps it, so it holds of every dataspace that is
built by declarations.
-/

namespace BrickMachine

/-- What is left of a declared slot when its size and its count are kept in words. -/
def Declared.stored : Declared → Declared
  | number t v => number t v
  | list element size count values => list element (size % 65536) (count % 65536) values

theorem Declared.stored_withValue (v : Int32) (x : Declared) :
    (x.stored.withValue v).stored = (x.withValue v).stored := by
  cases x with
  | number => rfl
  | list => simp [stored, withValue]

theorem Declared.stored_withValues (vs : List Int32) (x : Declared) :
    (x.stored.withValues vs).stored = (x.withValues vs).stored := by
  cases x with
  | number => rfl
  | list => simp [stored, withValues]

namespace Entry

def declared? : Entry → Option Declared
  | scalar t v => if t.isFlat then some (.number t v) else none
  | zeroed t => if t.isFlat then some (.number t 0) else none
  | array element size values count => some (.list element size.toNat count.toNat values)
  | declaration .. => none

theorem declared?_withValue (v : Int32) (e : Entry) :
    (e.withValue v).declared? = e.declared?.map fun x => (x.withValue v).stored := by
  cases e with
  | scalar t =>
      simp only [withValue, declared?]
      split <;> rfl
  | zeroed t =>
      simp only [withValue, declared?]
      split <;> rfl
  | array element size vs count =>
      simp [withValue, declared?, Declared.withValue, Declared.stored,
        Nat.mod_eq_of_lt size.toNat_lt, Nat.mod_eq_of_lt count.toNat_lt]
  | declaration => rfl

theorem declared?_withValues (vs : List Int32) (e : Entry) :
    (e.withValues vs).declared? = e.declared?.map fun x => (x.withValues vs).stored := by
  cases e with
  | scalar t =>
      simp only [withValues, declared?]
      split <;> rfl
  | zeroed t =>
      simp only [withValues, declared?]
      split <;> rfl
  | array element size _ count =>
      simp [withValues, declared?, Declared.withValues, Declared.stored,
        Nat.mod_eq_of_lt size.toNat_lt]
  | declaration => rfl

inductive Revises : Entry → Entry → Prop
  | scalar (t : SlotType) (u v : Int32) : Revises (.scalar t u) (.scalar t v)
  | zeroed (t : SlotType) (v : Int32) : Revises (.zeroed t) (.scalar t v)
  | array (t : SlotType) (size : UInt16) (us vs : List Int32) (m n : UInt16) :
      Revises (.array t size us m) (.array t size vs n)
  | same (e : Entry) : Revises e e

theorem Revises.eq_declaration {t : SlotType} {n : UInt16} {e : Entry}
    (h : (declaration t n).Revises e) : e = declaration t n := by
  cases h
  rfl

theorem revises_withValue (v : Int32) (e : Entry) : e.Revises (e.withValue v) := by
  cases e with
  | scalar t u => exact .scalar t u v
  | zeroed t => exact .zeroed t v
  | array => exact .same _
  | declaration => exact .same _

theorem revises_withValues (vs : List Int32) (e : Entry) : e.Revises (e.withValues vs) := by
  cases e with
  | scalar => exact .same _
  | zeroed => exact .same _
  | array t size us count => exact .array t size us vs count _
  | declaration => exact .same _

end Entry

namespace Dataspace

/-! ### Slots -/

def slotsFrom (i : Nat) : List Entry → List (Nat × Declared)
  | [] => []
  | e :: es => (e.declared?.map (i, ·)).toList ++ slotsFrom (i + 1) es

theorem slotsFrom_append (i : Nat) (es fs : List Entry) :
    slotsFrom i (es ++ fs) = slotsFrom i es ++ slotsFrom (i + es.length) fs := by
  induction es generalizing i with
  | nil => rfl
  | cons e es ih =>
      have hlen : i + 1 + es.length = i + (e :: es).length := by
        rw [List.length_cons, Nat.add_assoc, Nat.add_comm 1]
      rw [List.cons_append, slotsFrom, ih, hlen, slotsFrom, List.append_assoc]

theorem slotsFrom_declarations (i : Nat) (ts : List SlotType) :
    slotsFrom i (ts.map (Entry.declaration · 0)) = [] := by
  induction ts generalizing i with
  | nil => rfl
  | cons t ts ih => exact ih (i + 1)

/-- A slot belongs to one entry among the others. -/
theorem exists_of_mem_slotsFrom {i n : Nat} {x : Declared} {es : List Entry}
    (h : (n, x) ∈ slotsFrom i es) :
    ∃ before e after, es = before ++ e :: after ∧ n = i + before.length ∧
      e.declared? = some x := by
  induction es generalizing i with
  | nil => cases h
  | cons e es ih =>
      rcases List.mem_append.1 h with h | h
      · obtain ⟨y, hy, hxy⟩ := Option.map_eq_some_iff.1 (Option.mem_toList.1 h)
        cases hxy
        exact ⟨[], e, es, rfl, rfl, hy⟩
      · obtain ⟨before, f, after, rfl, rfl, hf⟩ := ih h
        refine ⟨e :: before, f, after, rfl, ?_, hf⟩
        rw [List.length_cons, Nat.add_assoc, Nat.add_comm 1]

theorem le_of_mem_slotsFrom {i : Nat} {s : Nat × Declared} {es : List Entry}
    (h : s ∈ slotsFrom i es) : i ≤ s.1 := by
  obtain ⟨before, e, after, _, hn, _⟩ := exists_of_mem_slotsFrom (n := s.1) (x := s.2) h
  rw [hn]
  exact Nat.le_add_right i before.length

theorem pairwise_slotsFrom (i : Nat) (es : List Entry) :
    (slotsFrom i es).Pairwise fun s s' => s.1 < s'.1 := by
  induction es generalizing i with
  | nil => exact List.Pairwise.nil
  | cons e es ih =>
      refine List.pairwise_append.2 ⟨?_, ih (i + 1), ?_⟩
      · cases e.declared? with
        | none => exact List.Pairwise.nil
        | some x => exact List.pairwise_singleton _ _
      · intro s hs s' hs'
        obtain ⟨y, _, rfl⟩ := Option.map_eq_some_iff.1 (Option.mem_toList.1 hs)
        exact le_of_mem_slotsFrom hs'

/-- Changing one entry changes its slot only. -/
theorem slotsFrom_modify {f : Entry → Entry} {g : Declared → Declared}
    (hf : ∀ e, (f e).declared? = e.declared?.map g) (i k : Nat) (es : List Entry) :
    slotsFrom i (es.modify k f)
      = (slotsFrom i es).map fun s => if s.1 = i + k then (s.1, g s.2) else s := by
  induction es generalizing i k with
  | nil => rw [List.modify_nil, slotsFrom, List.map_nil]
  | cons e es ih =>
      cases k with
      | zero =>
          have hrest : (slotsFrom (i + 1) es).map
              (fun s => if s.1 = i + 0 then (s.1, g s.2) else s) = slotsFrom (i + 1) es := by
            refine (List.map_congr_left (g := id) fun s hs => ?_).trans (List.map_id _)
            exact if_neg (Nat.ne_of_gt (le_of_mem_slotsFrom hs))
          rw [List.modify_zero_cons, slotsFrom, slotsFrom, List.map_append, hrest, hf]
          cases e.declared? with
          | none => rfl
          | some x => simp
      | succ k =>
          have hnum : i + 1 + k = i + (k + 1) := by rw [Nat.add_assoc, Nat.add_comm 1]
          rw [List.modify_succ_cons, slotsFrom, ih, hnum, slotsFrom, List.map_append]
          cases e.declared? with
          | none => rfl
          | some x => simp

/-! ### Groups -/

/-- The entries complete what a walk is in the middle of, and then declare one thing after the
other, each in full. -/
inductive Completes : Memory.Walk → List Entry → Prop
  | done : Completes (.skipping 0) []
  | scalar {t : SlotType} {es : List Entry} (ht : t ≠ .array) (v : Int32) :
      Completes (.skipping 0) es → Completes (.skipping 0) (.scalar t v :: es)
  | zeroed {t : SlotType} {es : List Entry} (ht : t ≠ .array) :
      Completes (.skipping 0) es → Completes (.skipping 0) (.zeroed t :: es)
  | head {es : List Entry} (n : UInt16) :
      Completes (.skipping 0) es → Completes (.skipping 0) (.declaration .cluster n :: es)
  /-- What comes after an array is the declaration of its elements. -/
  | array {t : SlotType} {n : UInt16} {es : List Entry} (size : UInt16) (vs : List Int32)
      (count : UInt16) : Completes .element (.declaration t n :: es) →
        Completes (.skipping 0) (.array t size vs count :: .declaration t n :: es)
  | nested {es : List Entry} (n : UInt16) :
      Completes .element es → Completes .element (.declaration .array n :: es)
  | members {es : List Entry} (n : UInt16) :
      Completes (.skipping n.toNat) es → Completes .element (.declaration .cluster n :: es)
  | element {t : SlotType} {es : List Entry} (harray : t ≠ .array) (hcluster : t ≠ .cluster)
      (n : UInt16) : Completes (.skipping 0) es → Completes .element (.declaration t n :: es)
  | member {k : Nat} {es : List Entry} (t : SlotType) (n : UInt16) :
      Completes (.skipping k) es → Completes (.skipping (k + 1)) (.declaration t n :: es)

namespace Completes

variable {w : Memory.Walk} {es fs : List Entry}

theorem append (h : Completes w es) (hfs : Completes (.skipping 0) fs) :
    Completes w (es ++ fs) := by
  induction h with
  | done => exact hfs
  | scalar ht v _ ih => exact .scalar ht v ih
  | zeroed ht _ ih => exact .zeroed ht ih
  | head n _ ih => exact .head n ih
  | array size vs count _ ih => exact .array size vs count ih
  | nested n _ ih => exact .nested n ih
  | members n _ ih => exact .members n ih
  | element harray hcluster n _ ih => exact .element harray hcluster n ih
  | member t n _ ih => exact .member t n ih

theorem declarations (ts : List SlotType) (hes : Completes (.skipping 0) es) :
    Completes (.skipping ts.length) (ts.map (Entry.declaration · 0) ++ es) := by
  induction ts with
  | nil => exact hes
  | cons t ts ih => exact .member t 0 ih

/-- Values and contents play no part in how entries are grouped. -/
theorem revise {e e' : Entry} (h : Completes w (e :: es)) (he : e.Revises e') :
    Completes w (e' :: es) := by
  cases he with
  | scalar _ _ v =>
      cases h with
      | scalar ht _ h => exact .scalar ht v h
  | zeroed _ v =>
      cases h with
      | zeroed ht h => exact .scalar ht v h
  | array _ size _ vs _ count =>
      cases h with
      | array _ _ _ h => exact .array size vs count h
  | same => exact h

theorem modify {f : Entry → Entry} (hf : ∀ e, Entry.Revises e (f e)) (h : Completes w es)
    (k : Nat) : Completes w (es.modify k f) := by
  induction h generalizing k with
  | done =>
      rw [List.modify_nil]
      exact .done
  | scalar ht v h ih =>
      cases k with
      | zero => exact (Completes.scalar ht v h).revise (hf _)
      | succ k => exact .scalar ht v (ih k)
  | zeroed ht h ih =>
      cases k with
      | zero => exact (Completes.zeroed ht h).revise (hf _)
      | succ k => exact .zeroed ht (ih k)
  | head n h ih =>
      cases k with
      | zero => exact (Completes.head n h).revise (hf _)
      | succ k => exact .head n (ih k)
  | @array t n es size vs count h ih =>
      cases k with
      | zero => exact (Completes.array size vs count h).revise (hf _)
      | succ k =>
          cases k with
          | zero =>
              have hsame : f (.declaration t n) = .declaration t n := (hf _).eq_declaration
              change Completes _ (_ :: f (.declaration t n) :: es)
              rw [hsame]
              exact .array size vs count h
          | succ k => exact .array size vs count (ih (k + 1))
  | nested n h ih =>
      cases k with
      | zero => exact (Completes.nested n h).revise (hf _)
      | succ k => exact .nested n (ih k)
  | members n h ih =>
      cases k with
      | zero => exact (Completes.members n h).revise (hf _)
      | succ k => exact .members n (ih k)
  | element harray hcluster n h ih =>
      cases k with
      | zero => exact (Completes.element harray hcluster n h).revise (hf _)
      | succ k => exact .element harray hcluster n (ih k)
  | member t n h ih =>
      cases k with
      | zero => exact (Completes.member t n h).revise (hf _)
      | succ k => exact .member t n (ih k)

end Completes

/-! ### Dataspaces that follow an inventory -/

/-- The entries of a dataspace are those that an inventory lists. -/
structure Follows (d : Dataspace) (inv : Inventory) : Prop where
  next : d.entries.size = inv.next
  slots : slotsFrom 0 d.entries.toList = inv.slots.map fun s => (s.1, s.2.stored)
  complete : Completes (.skipping 0) d.entries.toList

namespace Follows

variable {d d' : Dataspace} {inv inv' : Inventory}

/-- Entries that complete nothing else are added at the end. -/
theorem append (h : Follows d inv) (es : List Entry)
    (hentries : d'.entries.toList = d.entries.toList ++ es)
    (hnext : inv'.next = inv.next + es.length)
    (hslots : inv'.slots.map (fun s => (s.1, s.2.stored))
      = inv.slots.map (fun s => (s.1, s.2.stored)) ++ slotsFrom inv.next es)
    (hes : Completes (.skipping 0) es) : Follows d' inv' where
  next := by
    rw [← Array.length_toList, hentries, List.length_append, Array.length_toList, h.next, hnext]
  slots := by
    rw [hentries, slotsFrom_append, h.slots, hslots, Array.length_toList, Nat.zero_add, h.next]
  complete := by
    rw [hentries]
    exact h.complete.append hes

theorem scalar (h : Follows d inv) {t : SlotType} (ht : t ≠ .array) (v : Int32) :
    Follows (d.scalar t v) (inv.number t v) := by
  refine h.append [.scalar t v] Array.toList_push rfl ?_ (.scalar ht v .done)
  cases hflat : t.isFlat with
  | false => simp [Inventory.number, slotsFrom, Entry.declared?, hflat]
  | true => simp [Inventory.number, slotsFrom, Entry.declared?, hflat, Declared.stored]

theorem zeroed (h : Follows d inv) {t : SlotType} (ht : t ≠ .array) :
    Follows (d.zeroed t) (inv.number t 0) := by
  refine h.append [.zeroed t] Array.toList_push rfl ?_ (.zeroed ht .done)
  cases hflat : t.isFlat with
  | false => simp [Inventory.number, slotsFrom, Entry.declared?, hflat]
  | true => simp [Inventory.number, slotsFrom, Entry.declared?, hflat, Declared.stored]

/-- An array with all that declares its elements. -/
theorem list (h : Follows d inv) {t : SlotType} (size count : Nat) (vs : List Int32) (n : UInt16)
    (es : List Entry)
    (hentries : d'.entries.toList = d.entries.toList
      ++ .array t (UInt16.ofNat size) vs (UInt16.ofNat count) :: .declaration t n :: es)
    (hslots : slotsFrom (inv.next + 2) es = [])
    (hes : Completes .element (.declaration t n :: es)) :
    Follows d' (inv.list (.list t size count vs) (es.length + 1)) := by
  refine h.append _ hentries rfl ?_ (.array _ _ _ hes)
  simp [Inventory.list, slotsFrom, Entry.declared?, Declared.stored, hslots]

theorem array (h : Follows d inv) {t : SlotType} (ht : t ≠ .array) (vs : List Int32) :
    Follows (d.array t vs) (inv.list (.list t t.size vs.length vs) 1) := by
  refine h.list t.size vs.length vs 0 [] ?_ rfl ?_
  · simp [Dataspace.array, push]
  · by_cases hcluster : t = .cluster
    · subst hcluster
      exact .members 0 .done
    · exact .element ht hcluster 0 .done

theorem nestedArray (h : Follows d inv) {inner : SlotType} (hinner : inner ≠ .array) :
    Follows (d.nestedArray inner) (inv.list (.list .array SlotType.array.size 0 []) 2) := by
  refine h.list SlotType.array.size 0 [] 0 [.declaration inner 0] ?_ rfl ?_
  · simp [Dataspace.nestedArray, push]
  · refine .nested 0 ?_
    by_cases hcluster : inner = .cluster
    · subst hcluster
      exact .members 0 .done
    · exact .element hinner hcluster 0 .done

theorem toList_foldl_push (ts : List SlotType) (d : Dataspace) :
    (ts.foldl (fun d t => d.push (.declaration t 0)) d).entries.toList
      = d.entries.toList ++ ts.map (Entry.declaration · 0) := by
  induction ts generalizing d with
  | nil => simp
  | cons t ts ih =>
      rw [List.foldl_cons, ih]
      simp [push]

theorem clusterArray (h : Follows d inv) {members : List SlotType}
    (hmembers : members.length ≤ 65535) (count : UInt16) :
    Follows (d.clusterArray members count)
      (inv.list (.list .cluster (clusterSize members) count.toNat []) (members.length + 1)) := by
  have hlen : (UInt16.ofNat members.length).toNat = members.length :=
    toNat_ofNat_of_le hmembers
  have hentries : (d.clusterArray members count).entries.toList = d.entries.toList
      ++ .array .cluster (UInt16.ofNat (clusterSize members)) [] (UInt16.ofNat count.toNat)
        :: .declaration .cluster (UInt16.ofNat members.length)
        :: members.map (Entry.declaration · 0) := by
    rw [Dataspace.clusterArray, toList_foldl_push]
    simp [push]
  have hgroup : Completes .element (.declaration .cluster (UInt16.ofNat members.length)
      :: members.map (Entry.declaration · 0)) := by
    refine .members _ ?_
    rw [hlen, ← List.append_nil (members.map _)]
    exact Completes.declarations members .done
  have hlist := h.list _ _ _ _ _ hentries (slotsFrom_declarations _ members) hgroup
  rw [List.length_map] at hlist
  exact hlist

theorem member (h : Follows d inv) (t : SlotType) : Follows (d.member t) (inv.member t) := by
  unfold Dataspace.member Inventory.member
  split
  · exact h.array (by decide) []
  case isFalse ht => exact h.scalar ht 0

theorem cluster (h : Follows d inv) (members : List SlotType) :
    Follows (d.cluster members)
      (members.foldl Inventory.member { inv with next := inv.next + 1 }) := by
  have hfold {d : Dataspace} {inv : Inventory} (h : Follows d inv) :
      Follows (members.foldl Dataspace.member d) (members.foldl Inventory.member inv) := by
    induction members generalizing d inv with
    | nil => exact h
    | cons t members ih => exact ih (h.member t)
  apply hfold
  refine h.append [.declaration .cluster _] Array.toList_push rfl ?_ (.head _ .done)
  exact (List.append_nil _).symm

/-- A change to one entry. -/
theorem revise (h : Follows d inv) (entry : UInt16) {f : Entry → Entry} {g : Declared → Declared}
    (hf : ∀ e, (f e).declared? = e.declared?.map fun x => (g x).stored)
    (hg : ∀ x, (g x.stored).stored = (g x).stored) (hkeep : ∀ e, Entry.Revises e (f e)) :
    Follows ⟨d.entries.modify entry.toNat f⟩ (inv.revise entry.toNat g) where
  next := Array.size_modify.trans h.next
  slots := by
    rw [Array.toList_modify, slotsFrom_modify hf, h.slots, Inventory.revise, List.map_map,
      List.map_map]
    apply List.map_congr_left
    rintro ⟨n, x⟩ -
    rw [Function.comp_apply, Function.comp_apply, Nat.zero_add]
    dsimp only
    split
    · rw [hg]
    · rfl
  complete := by
    rw [Array.toList_modify]
    exact h.complete.modify hkeep _

/-- Every declaration is followed, as long as no more entries are needed than words can number. -/
theorem declare (h : Follows d inv) {x : Declaration} (hx : x.Admissible)
    (hnext : (inv.declare x).next ≤ 65535) : Follows (x.apply d) (inv.declare x) := by
  cases x with
  | scalar t v => exact h.scalar hx v
  | zeroed t => exact h.zeroed hx
  | array t vs => exact h.array hx vs
  | nestedArray inner => exact h.nestedArray hx
  | clusterArray members count =>
      refine h.clusterArray ?_ count
      change inv.next + (members.length + 1 + 1) ≤ 65535 at hnext
      omega
  | cluster members => exact h.cluster members
  | setDefault entry v =>
      exact h.revise entry (Entry.declared?_withValue v) (Declared.stored_withValue v)
        (Entry.revises_withValue v)
  | setArrayDefault entry vs =>
      exact h.revise entry (Entry.declared?_withValues vs) (Declared.stored_withValues vs)
        (Entry.revises_withValues vs)

end Follows

theorem next_le_member (inv : Inventory) (t : SlotType) : inv.next ≤ (inv.member t).next := by
  unfold Inventory.member
  split
  · exact Nat.le_add_right inv.next 2
  · exact Nat.le_add_right inv.next 1

theorem next_le_declare (inv : Inventory) (x : Declaration) : inv.next ≤ (inv.declare x).next := by
  have hfold (members : List SlotType) (inv : Inventory) :
      inv.next ≤ (members.foldl Inventory.member inv).next := by
    induction members generalizing inv with
    | nil => exact Nat.le_refl inv.next
    | cons t members ih => exact Nat.le_trans (next_le_member inv t) (ih _)
  cases x with
  | cluster members =>
      exact Nat.le_trans (Nat.le_succ inv.next) (hfold members { inv with next := inv.next + 1 })
  | setDefault => exact Nat.le_refl inv.next
  | setArrayDefault => exact Nat.le_refl inv.next
  | _ => exact Nat.le_add_right inv.next _

/-- What declarations build follows what they declare. -/
theorem follows_declared {xs : List Declaration} (hxs : ∀ x ∈ xs, x.Admissible)
    (hnext : (Inventory.declared xs).next ≤ 65535) :
    Follows (declared xs) (Inventory.declared xs) := by
  -- only the number of entries in the end is bounded, so the last declaration is taken off
  induction xs using List.reverseRecOn with
  | nil => exact ⟨rfl, rfl, .done⟩
  | append_singleton xs x ih =>
      have hstep : Inventory.declared (xs ++ [x]) = (Inventory.declared xs).declare x := by
        rw [Inventory.declared, List.foldl_append]
        rfl
      rw [hstep] at hnext ⊢
      rw [declared, List.foldl_append]
      refine Follows.declare (ih ?_ ?_) (hxs x (by simp)) hnext
      · intro y hy
        exact hxs y (List.mem_append_left [x] hy)
      · exact Nat.le_trans (next_le_declare _ x) hnext

end Dataspace

end BrickMachine
