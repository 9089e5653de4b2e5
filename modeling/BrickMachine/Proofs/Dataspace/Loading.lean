import BrickMachine.Proofs.Dataspace.Access
import BrickMachine.Proofs.Image.RoundTrip

/-!
# Loading a declared dataspace

The builder lays out a dataspace and the loader walks over its image, each by an algorithm of its
own. `load_declared` says that they agree on every sequence of declarations that fits the format:
the image loads, and the memory holds what the inventory of the declarations lists, no more and no
less. The same is true of the image that is read back from its bytes.
-/

namespace BrickMachine

/-- A memory that has the given slots and holds in them what was declared. -/
structure Memory.Holds (m : Memory) (slots : List (Nat × Declared)) : Prop where
  slots_eq : m.slots = slots.map Prod.fst
  increasing : m.slots.Pairwise (· < ·)
  number {e : Nat} {t : SlotType} {v : Int32} :
    (e, .number t v) ∈ slots → m.scalar e = .ok (t.truncate v)
  length {e : Nat} {t : SlotType} {size count : Nat} {vs : List Int32} :
    (e, .list t size count vs) ∈ slots → m.arrayLength e = .ok count
  /-- Flat elements are the values, one for each. -/
  element {e : Nat} {t : SlotType} {size count : Nat} {vs : List Int32} :
    (e, .list t size count vs) ∈ slots → t.isFlat = true → count = vs.length ∧
      ∀ i v, vs[i]? = some v → m.element e i = .ok (t.truncate v)
  /-- Other elements are zero. -/
  zeros {e : Nat} {t : SlotType} {size count : Nat} {vs : List Int32} :
    (e, .list t size count vs) ∈ slots → t.isFlat = false →
      m.arrayData e = .ok (Array.replicate (size * count) 0)
  /-- Different slots have different bytes: the later lies behind the earlier. -/
  disjoint {e e' : Nat} {x x' : Declared} : (e, x) ∈ slots → (e', x') ∈ slots → e < e' →
    ∃ t t', m.entry e = .ok t ∧ m.entry e' = .ok t' ∧
      t.descriptor.toNat + t.slotType.size ≤ t'.descriptor.toNat
  /-- Different arrays have different blocks. -/
  blocks {e e' : Nat} {t t' : SlotType} {size size' count count' : Nat} {vs vs' : List Int32} :
    (e, .list t size count vs) ∈ slots → (e', .list t' size' count' vs') ∈ slots → e < e' →
      ∃ b b', m.blockIndex e = .ok b ∧ m.blockIndex e' = .ok b' ∧ b < b'

namespace Dataspace

/-! ### What a loaded dataspace holds -/

/-- A list belongs to one array among the other entries. -/
theorem exists_array_of_mem {es : List Entry} {e size count : Nat} {t : SlotType}
    {vs : List Int32} (h : (e, .list t size count vs) ∈ slotsFrom 0 es) :
    ∃ before size' count' after, es = before ++ .array t size' vs count' :: after ∧
      e = before.length ∧ size'.toNat = size ∧ count'.toNat = count := by
  obtain ⟨before, y, after, hes, he, hy⟩ := exists_of_mem_slotsFrom h
  rw [Nat.zero_add] at he
  rcases Entry.of_declared? hy with
    ⟨_, _, _, _, hx⟩ | ⟨_, _, _, hx⟩ | ⟨_, size', _, count', rfl, hx⟩
  · cases hx
  · cases hx
  · cases hx
    exact ⟨before, size', count', after, hes, he, rfl, rfl⟩

theorem Loaded.holds {es : List Entry} {m : Memory} (h : Loaded es m)
    (hproper : ∀ s ∈ slotsFrom 0 es, s.2.Proper) : m.Holds (slotsFrom 0 es) where
  slots_eq := h.slots
  increasing := by
    rw [h.slots, List.pairwise_map]
    exact pairwise_slotsFrom 0 es
  number hx := by
    obtain ⟨before, y, after, hes, rfl, hy⟩ := exists_of_mem_slotsFrom hx
    rw [Nat.zero_add]
    exact h.scalar hes hy
  length hx := by
    obtain ⟨before, size', count', after, hes, rfl, rfl, rfl⟩ := exists_array_of_mem hx
    exact h.arrayLength hes
  element hx ht := by
    obtain ⟨hsize, hcount⟩ := hproper _ hx ht
    obtain ⟨before, size', count', after, hes, rfl, hsize', hcount'⟩ := exists_array_of_mem hx
    refine ⟨hcount, fun i v hv => ?_⟩
    exact h.element hes ht (hsize'.trans hsize) (hcount'.trans hcount) hv
  zeros hx ht := by
    obtain ⟨before, size', count', after, hes, rfl, rfl, rfl⟩ := exists_array_of_mem hx
    rw [h.arrayData hes, arrayContents_zeros ht, List.toArray_replicate]
  disjoint hx hx' hlt := by
    obtain ⟨before, y, after, hes, rfl, hy⟩ := exists_of_mem_slotsFrom hx
    obtain ⟨before', y', after', hes', rfl, hy'⟩ := exists_of_mem_slotsFrom hx'
    rw [Nat.zero_add, Nat.zero_add] at hlt ⊢
    obtain ⟨t, t', ht, ht', hbehind⟩ := h.slot_lt hes hy hes' hy' hlt
    exact ⟨t, t', Memory.entry_eq_ok_iff.2 ht, Memory.entry_eq_ok_iff.2 ht', hbehind⟩
  blocks hx hx' hlt := by
    obtain ⟨before, _, _, after, hes, rfl, _, _⟩ := exists_array_of_mem hx
    obtain ⟨before', _, _, after', hes', rfl, _, _⟩ := exists_array_of_mem hx'
    exact h.blockIndex_lt hes hes' hlt

/-! ### The size of a dataspace -/

/-- A size that is counted entry by entry is a sum over the slots. -/
theorem total_slotsFrom {size : Declared → Nat} {f : List Entry → Nat} (hnil : f [] = 0)
    {es : List Entry} (hcons : ∀ e ∈ es, ∀ fs, f (e :: fs) = e.declared?.elim 0 size + f fs)
    (i : Nat) : Inventory.total size (slotsFrom i es) = f es := by
  induction es generalizing i with
  | nil => exact hnil.symm
  | cons e es ih =>
      obtain ⟨he, hes⟩ := List.forall_mem_cons.1 hcons
      rw [slotsFrom, Inventory.total_append, ih hes, he]
      cases e.declared? <;> rfl

theorem staticSize_eq {es : List Entry} (h : Completes (.skipping 0) es) :
    staticSize es = Inventory.total Declared.staticSize (slotsFrom 0 es) := by
  refine (total_slotsFrom rfl (fun e he fs => ?_) 0).symm
  rw [staticSize]
  cases hx : e.declared? with
  | none => rw [h.storage_eq_zero e he (by rw [hx]; rfl), Option.elim]
  | some x => rw [(e.layout_of_declared? hx).2.1, Option.elim]

/-- What one entry adds to the table and to the contents. -/
theorem sizes_arrayPlans (e : Entry) :
    (arrayPlans [e]).length * DopeVector.recordSize = e.declared?.elim 0 Declared.tableSize ∧
    ((arrayPlans [e]).flatMap ArrayPlan.contents).length
      = e.declared?.elim 0 Declared.contentsSize := by
  cases e with
  | scalar t v =>
      rw [Entry.declared?]
      split <;> exact ⟨rfl, rfl⟩
  | zeroed t =>
      rw [Entry.declared?]
      split <;> exact ⟨rfl, rfl⟩
  | array t size vs count =>
      refine ⟨rfl, ?_⟩
      change ([ArrayPlan.mk size count (arrayContents t size vs count)].flatMap _).length = _
      rw [List.flatMap_singleton]
      exact length_fitted _ _
  | declaration => exact ⟨rfl, rfl⟩

theorem tableSize_eq (es : List Entry) : (arrayPlans es).length * DopeVector.recordSize
    = Inventory.total Declared.tableSize (slotsFrom 0 es) := by
  refine (total_slotsFrom (f := fun es => (arrayPlans es).length * DopeVector.recordSize) rfl
    (fun e _ fs => ?_) 0).symm
  rw [← (sizes_arrayPlans e).1, ← Nat.add_mul, ← List.length_append, ← arrayPlans_append]
  rfl

theorem contentsSize_eq (es : List Entry) :
    ((arrayPlans es).flatMap ArrayPlan.contents).length
      = Inventory.total Declared.contentsSize (slotsFrom 0 es) := by
  refine (total_slotsFrom (f := fun es => ((arrayPlans es).flatMap ArrayPlan.contents).length) rfl
    (fun e _ fs => ?_) 0).symm
  rw [← (sizes_arrayPlans e).2, ← List.length_append, ← List.flatMap_append, ← arrayPlans_append]
  rfl

/-! ### Loading -/

/-- A dataspace whose parts fit the format is loaded as its entries. -/
theorem exists_loaded {d : Dataspace} (hcomplete : Completes (.skipping 0) d.entries.toList)
    (hfits : staticSize d.entries.toList + d.dynamics.length ≤ 65535) (clumps : Array Clump)
    (code : Array UInt16) :
    ∃ m, Memory.load (d.toImage clumps code) = .ok m ∧ Loaded d.entries.toList m := by
  obtain ⟨table, arrays, hblocks, hplans⟩ := loadBlocks_toImage clumps code hfits
  have hsize := Nat.le_trans (Nat.le_add_right _ _) hfits
  have hstatic : (d.toImage clumps code).header.staticSize.toNat
      = staticSize d.entries.toList :=
    toNat_ofNat_of_le hsize
  have hfill := fillStatics_owners hcomplete hsize d.dynamics
  rw [← hstatic] at hfill
  have hlen := length_dynamicDefaults (staticSize d.entries.toList) (arrayPlans d.entries.toList)
  change d.dynamics.length = _ at hlen
  rw [DopeVector.recordSize] at hlen
  refine ⟨_, Memory.load_eq_ok_iff.2 ⟨_, _, hfill, hblocks, rfl⟩, ?_⟩
  exact
    { complete := hcomplete
      size_le := hsize
      toc := rfl
      statics := rfl
      blocks := ⟨table, arrays, rfl, hplans⟩
      plans_lt := by omega
      slots := by
        change (Memory.owners (tocFrom 0 d.entries.toList)).map Prod.fst = _
        rw [owners_tocFrom hcomplete, map_fst_ownersOf] }

/-- An image of a dataspace that fits the format is well formed if its other parts are. -/
theorem wellFormed_toImage {d : Dataspace} (hentries : d.entries.size ≤ 65535)
    (hfits : staticSize d.entries.toList + d.dynamics.length ≤ 65535) {clumps : Array Clump}
    {code : Array UInt16} (hclumps : clumps.size ≤ 65535)
    (hdependents : ∀ c ∈ clumps, c.dependents.length ≤ 255) (hcode : code.size ≤ 65535) :
    (d.toImage clumps code).WellFormed := by
  have htoc : (tocFrom 0 d.entries.toList).toArray.size ≤ 65535 := by
    rw [List.size_toArray, length_tocFrom, Array.length_toList]
    exact hentries
  have hdata : (slotDefaults 1 d.entries.toList ++ d.dynamics).toArray.size ≤ 65535 := by
    have hslots := length_slotDefaults_le 1 d.entries.toList
    rw [List.size_toArray, List.length_append]
    omega
  exact
    { toc := htoc
      defaultData := hdata
      clumps := hclumps
      code := hcode
      dependents := hdependents
      entryCount := toNat_ofNat_of_le htoc
      defaultDataSize := toNat_ofNat_of_le hdata }

/-! ### Dataspaces that follow an inventory -/

section Follows

variable {d : Dataspace} {inv : Inventory}

/-- If everything fits, nothing of a slot is lost. -/
theorem Follows.slotsFrom_eq (h : Follows d inv) (hfits : inv.Fits) :
    slotsFrom 0 d.entries.toList = inv.slots := by
  rw [h.slots]
  refine (List.map_congr_left (g := id) fun s hs => ?_).trans (List.map_id _)
  obtain ⟨e, x⟩ := s
  cases x with
  | number => rfl
  | list t size count vs =>
      obtain ⟨hsize, hcount⟩ := hfits.lists _ hs
      dsimp only [Declared.stored, id]
      rw [Nat.mod_eq_of_lt (Nat.lt_succ_of_le hsize), Nat.mod_eq_of_lt (Nat.lt_succ_of_le hcount)]

theorem Follows.size_le (h : Follows d inv) (hfits : inv.Fits) :
    staticSize d.entries.toList + d.dynamics.length ≤ 65535 := by
  have hbytes := hfits.bytes
  have hlen := length_dynamicDefaults (staticSize d.entries.toList) (arrayPlans d.entries.toList)
  change d.dynamics.length = _ at hlen
  rw [← h.slotsFrom_eq hfits, ← staticSize_eq h.complete, ← tableSize_eq, ← contentsSize_eq]
    at hbytes
  rw [Nat.succ_mul] at hlen
  omega

end Follows

theorem next_le_declared (earlier later : List Declaration) :
    (Inventory.declared earlier).next ≤ (Inventory.declared (earlier ++ later)).next := by
  rw [Inventory.declared, Inventory.declared, List.foldl_append]
  generalize earlier.foldl Inventory.declare {} = inv
  induction later generalizing inv with
  | nil => exact Nat.le_refl inv.next
  | cons x later ih => exact Nat.le_trans (next_le_declare inv x) (ih _)

/-- Declarations that fit the format are found in memory as they were declared. Every declaration
gets the number of the entry that the inventory has next, the image loads, and the memory holds
the slots of the inventory and no others. If the clumps and the code fit too, then all this is
true of the image that is read back from the bytes. -/
theorem load_declared {declarations : List Declaration}
    (hadmissible : ∀ x ∈ declarations, x.Admissible)
    (hfits : (Inventory.declared declarations).Fits) (clumps : Array Clump)
    (code : Array UInt16) :
    (∀ earlier later, declarations = earlier ++ later →
      (declared earlier).next.toNat = (Inventory.declared earlier).next) ∧
    (∃ m, Memory.load ((declared declarations).toImage clumps code) = .ok m ∧
      m.Holds (Inventory.declared declarations).slots) ∧
    (clumps.size ≤ 65535 → (∀ c ∈ clumps, c.dependents.length ≤ 255) → code.size ≤ 65535 →
      ∃ image, Image.ofBytes ((declared declarations).toImage clumps code).toBytes = .ok image ∧
        ∃ m, Memory.load image = .ok m ∧ m.Holds (Inventory.declared declarations).slots) := by
  have hfollows := follows_declared hadmissible hfits.entries
  have hsize := hfollows.size_le hfits
  have hload : ∃ m, Memory.load ((declared declarations).toImage clumps code) = .ok m ∧
      m.Holds (Inventory.declared declarations).slots := by
    obtain ⟨m, hm, hloaded⟩ := exists_loaded hfollows.complete hsize clumps code
    refine ⟨m, hm, ?_⟩
    rw [← hfollows.slotsFrom_eq hfits]
    apply hloaded.holds
    rw [hfollows.slotsFrom_eq hfits]
    exact Inventory.proper_declared declarations
  refine ⟨?_, hload, ?_⟩
  · rintro earlier later rfl
    have hnext := Nat.le_trans (next_le_declared earlier later) hfits.entries
    have hearlier := follows_declared
      (fun x hx => hadmissible x (List.mem_append_left later hx)) hnext
    rw [next, hearlier.next, toNat_ofNat_of_le hnext]
  · intro hclumps hdependents hcode
    have hentries := hfits.entries
    rw [← hfollows.next] at hentries
    have hwell := wellFormed_toImage hentries hsize hclumps hdependents hcode
    exact ⟨_, hwell.ofBytes_toBytes, hload⟩

def mixedDeclarations : List Declaration :=
  [.zeroed .sword, .array .uword [1, 70000], .cluster [.float, .array], .scalar .void 9,
   .nestedArray .ulong, .clusterArray [.ubyte, .array] 2, .setDefault 0 (-5),
   .setArrayDefault 5 [7]]

theorem load_mixedDeclarations :
    (∀ x ∈ mixedDeclarations, x.Admissible) ∧ (Inventory.declared mixedDeclarations).Fits ∧
    (Inventory.declared mixedDeclarations).slots =
      [(0, .number .sword (-5)), (1, .list .uword 2 2 [1, 70000]), (4, .number .float 0),
       (5, .list .ubyte 1 1 [7]), (8, .list .array 2 0 []), (11, .list .cluster 3 2 [])] ∧
    ∃ image, Image.ofBytes ((declared mixedDeclarations).toImage #[⟨0, [0], 0⟩] #[8]).toBytes
        = .ok image ∧
      ∃ m, Memory.load image = .ok m ∧
        m.Holds (Inventory.declared mixedDeclarations).slots := by
  have hadmissible : ∀ x ∈ mixedDeclarations, x.Admissible := by decide
  have hfits : (Inventory.declared mixedDeclarations).Fits :=
    ⟨by decide, by decide, by decide⟩
  obtain ⟨_, _, hread⟩ := load_declared hadmissible hfits #[⟨0, [0], 0⟩] #[8]
  exact ⟨hadmissible, hfits, rfl, hread (by decide) (by decide) (by decide)⟩

end Dataspace

end BrickMachine
