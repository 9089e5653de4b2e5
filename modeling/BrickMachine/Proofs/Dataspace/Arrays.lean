import BrickMachine.Proofs.Dataspace.Statics

/-!
# The dynamic part of a dataspace

The dope vector table and the contents of the arrays follow the values of the slots in the default
data of a dataspace's image. The loader finds them by their addresses, which count from the start
of the slots in memory, and makes of every planned array a block with its size, its count and its
contents.
-/

namespace BrickMachine

namespace DopeVector

/-- A record is read back, whatever follows it. -/
theorem ofBytes?_toBytes (v : DopeVector) (rest : List UInt8) :
    ofBytes? (v.toBytes ++ rest) = some v := by
  have hword (w : UInt16) :
      wordOfBytes (UInt8.ofNat w.toNat) (UInt8.ofNat (w.toNat / 256)) = w :=
    wordOfBytes_eq_iff.2 rfl
  change some (DopeVector.mk _ _ _ _ _) = some v
  simp only [hword]

theorem length_flatMap_toBytes (vs : List DopeVector) :
    (vs.flatMap toBytes).length = vs.length * recordSize := by
  induction vs with
  | nil => rfl
  | cons v vs ih =>
      rw [List.flatMap_cons, List.length_append, length_toBytes, ih, List.length_cons,
        Nat.succ_mul, Nat.add_comm]

theorem dopeVectorsOf_flatMap (vs : List DopeVector) :
    Memory.dopeVectorsOf (vs.flatMap toBytes) vs.length = vs := by
  induction vs with
  | nil => rfl
  | cons v vs ih =>
      rw [List.flatMap_cons, List.length_cons, Memory.dopeVectorsOf, ofBytes?_toBytes]
      dsimp only
      rw [← length_toBytes v, List.drop_left, ih]

end DopeVector

def Block.plan (b : Block) : Dataspace.ArrayPlan :=
  ⟨b.vector.elementSize, b.vector.elementCount, b.data.toList⟩

namespace Dataspace

/-- The block of an array whose contents are found at its offset. -/
theorem exists_loadBlock {image : Image} {v : DopeVector} {p : ArrayPlan} {address : Nat}
    (haddress : v.offset.toNat = address) (hsize : v.elementSize = p.elementSize)
    (hcount : v.elementCount = p.count)
    (hcontents : p.contents.length = p.elementSize.toNat * p.count.toNat)
    (h : Memory.mapped image address p.contents.length .contents = .ok p.contents) :
    ∃ b, Memory.loadBlock image v = .ok b ∧ b.plan = p := by
  have hlen : v.byteLength = p.contents.length := by
    rw [DopeVector.byteLength, hsize, hcount, hcontents]
  unfold Memory.loadBlock
  split
  case isTrue hzero =>
    have hempty : p.contents = [] := by
      rw [← List.length_eq_zero_iff, hcontents, ← hcount, hzero]
      exact Nat.mul_zero _
    refine ⟨_, rfl, ?_⟩
    rw [Block.plan, hsize, hcount, ← hempty]
  case isFalse =>
    refine ⟨_, bind_eq_ok_iff.2 ⟨p.contents, ?_, rfl⟩, ?_⟩
    · rw [haddress, hlen, h]
    · rw [Block.plan, hsize, hcount]

theorem length_fitted (n : Nat) (bytes : List UInt8) : (fitted n bytes).length = n := by
  rw [fitted, List.length_append, List.length_take, List.length_replicate]
  omega

theorem length_contents {es : List Entry} {p : ArrayPlan} (hp : p ∈ arrayPlans es) :
    p.contents.length = p.elementSize.toNat * p.count.toNat := by
  obtain ⟨e, _, he⟩ := List.mem_filterMap.1 hp
  cases e with
  | array t size vs count =>
      cases he
      exact length_fitted _ _
  | _ => cases he

theorem length_dopeVectorsFrom (address index : Nat) (ps : List ArrayPlan) :
    (dopeVectorsFrom address index ps).length = ps.length := by
  induction ps generalizing address index with
  | nil => rfl
  | cons p ps ih => rw [dopeVectorsFrom, List.length_cons, ih, List.length_cons]

theorem length_dynamicDefaults (address : Nat) (ps : List ArrayPlan) :
    (dynamicDefaults address ps).length
      = (ps.length + 1) * DopeVector.recordSize + (ps.flatMap ArrayPlan.contents).length := by
  rw [dynamicDefaults, List.length_append, DopeVector.length_flatMap_toBytes, List.length_cons,
    length_dopeVectorsFrom]

theorem length_slotDefaults_le (index : Nat) (es : List Entry) :
    (slotDefaults index es).length ≤ staticSize es := by
  induction es generalizing index with
  | nil => exact Nat.le_refl 0
  | cons e es ih =>
      have hrest := ih (index + (arrayPlans [e]).length)
      rw [slotDefaults_cons, List.length_append, staticSize]
      exact Nat.add_le_add (e.length_defaults_le index) hrest

section Image

variable {d : Dataspace} (clumps : Array Clump) (code : Array UInt16)

def dynamics (d : Dataspace) : List UInt8 :=
  dynamicDefaults (staticSize d.entries.toList) (arrayPlans d.entries.toList)

/-- What lies in the dynamic part is found at its address. -/
theorem mapped_toImage (hfits : staticSize d.entries.toList + d.dynamics.length ≤ 65535)
    (before : List UInt8) {xs after : List UInt8} (h : d.dynamics = before ++ xs ++ after)
    (part : DynamicPart) :
    Memory.mapped (d.toImage clumps code) (staticSize d.entries.toList + before.length) xs.length
      part = .ok xs := by
  have hslots := length_slotDefaults_le 1 d.entries.toList
  have hsize := Nat.le_trans (Nat.le_add_right _ _) hfits
  have hdata : (d.toImage clumps code).defaultData
      = ((slotDefaults 1 d.entries.toList ++ before) ++ xs ++ after).toArray := by
    rw [List.append_assoc _ before xs, List.append_assoc _ _ after, ← h]
    rfl
  have hstart : (↑(staticSize d.entries.toList + before.length)
      - (↑(d.toImage clumps code).header.staticSize.toNat
        - ↑(d.toImage clumps code).header.dynamicDefaultOffset.toNat) : Int)
      = ↑(slotDefaults 1 d.entries.toList ++ before).length := by
    change (↑(staticSize d.entries.toList + before.length)
      - (↑(UInt16.ofNat (staticSize d.entries.toList)).toNat
        - ↑(UInt16.ofNat (slotDefaults 1 d.entries.toList).length).toNat) : Int) = _
    rw [toNat_ofNat_of_le hsize, toNat_ofNat_of_le (Nat.le_trans hslots hsize),
      List.length_append]
    omega
  rw [Memory.mapped, hstart, hdata, Int.toNat_natCast, if_pos, Buffer.slice_middle]
  refine ⟨Int.natCast_nonneg _, ?_⟩
  simp only [List.size_toArray, List.length_append]
  omega

def vectors (d : Dataspace) : List DopeVector :=
  let plans := arrayPlans d.entries.toList
  let size := staticSize d.entries.toList
  tableVector size plans.length
    :: dopeVectorsFrom (size + (plans.length + 1) * DopeVector.recordSize) 1 plans

theorem length_vectors : d.vectors.length = (arrayPlans d.entries.toList).length + 1 := by
  rw [vectors, List.length_cons, length_dopeVectorsFrom]

theorem dynamics_eq :
    d.dynamics = d.vectors.flatMap DopeVector.toBytes
      ++ (arrayPlans d.entries.toList).flatMap ArrayPlan.contents :=
  rfl

/-- The table is read as it was laid out. -/
theorem loadTable_toImage (hfits : staticSize d.entries.toList + d.dynamics.length ≤ 65535) :
    Memory.loadTable (d.toImage clumps code) (staticSize d.entries.toList) = .ok d.vectors := by
  have hlen := congrArg List.length (dynamics_eq (d := d))
  rw [List.length_append, DopeVector.length_flatMap_toBytes, length_vectors,
    DopeVector.recordSize] at hlen
  have hcount : (UInt16.ofNat ((arrayPlans d.entries.toList).length + 1)).toNat
      = d.vectors.length := by
    rw [toNat_ofNat_of_le (by omega), length_vectors]
  have hall : Memory.mapped (d.toImage clumps code) (staticSize d.entries.toList)
      (d.vectors.length * DopeVector.recordSize) .table
        = .ok (d.vectors.flatMap DopeVector.toBytes) := by
    rw [← DopeVector.length_flatMap_toBytes]
    exact mapped_toImage clumps code hfits [] dynamics_eq .table
  obtain ⟨table, arrays, hvectors, htable⟩ : ∃ table arrays, d.vectors = table :: arrays ∧
      table.elementCount.toNat = d.vectors.length := ⟨_, _, rfl, hcount⟩
  have hfirst : Memory.mapped (d.toImage clumps code) (staticSize d.entries.toList)
      DopeVector.recordSize .table = .ok table.toBytes := by
    have hparts : d.dynamics = [] ++ table.toBytes ++ (arrays.flatMap DopeVector.toBytes
        ++ (arrayPlans d.entries.toList).flatMap ArrayPlan.contents) := by
      rw [dynamics_eq, hvectors, List.flatMap_cons, List.append_assoc, List.nil_append]
    rw [← DopeVector.length_toBytes table]
    exact mapped_toImage clumps code hfits [] hparts .table
  refine bind_eq_ok_iff.2 ⟨_, hfirst, ?_⟩
  rw [← List.append_nil table.toBytes, DopeVector.ofBytes?_toBytes]
  dsimp only [Option.elim]
  rw [htable, if_neg (by rw [hvectors]; exact Nat.succ_ne_zero _)]
  refine bind_eq_ok_iff.2 ⟨_, hall, ?_⟩
  rw [DopeVector.dopeVectorsOf_flatMap]

/-- The arrays whose contents start behind a part of the dynamic part get blocks with the contents
that were planned for them. -/
theorem mapM_loadBlock (hfits : staticSize d.entries.toList + d.dynamics.length ≤ 65535)
    {ps : List ArrayPlan}
    (hps : ∀ p ∈ ps, p.contents.length = p.elementSize.toNat * p.count.toNat)
    (before : List UInt8) (h : d.dynamics = before ++ ps.flatMap ArrayPlan.contents)
    (index : Nat) :
    ∃ blocks, (dopeVectorsFrom (staticSize d.entries.toList + before.length) index ps).mapM
        (Memory.loadBlock (d.toImage clumps code)) = .ok blocks ∧
      blocks.map Block.plan = ps := by
  induction ps generalizing before index with
  | nil => exact ⟨[], rfl, rfl⟩
  | cons p ps ih =>
      obtain ⟨hp, hps⟩ := List.forall_mem_cons.1 hps
      rw [List.flatMap_cons, ← List.append_assoc] at h
      -- for the other arrays, the contents of this one lie before theirs
      obtain ⟨blocks, hblocks, hplans⟩ := ih hps (before ++ p.contents) h (index + 1)
      have hlen := congrArg List.length h
      rw [List.length_append, List.length_append] at hlen
      have haddress : staticSize d.entries.toList + before.length ≤ 65535 := by omega
      rw [List.length_append, ← Nat.add_assoc] at hblocks
      rw [dopeVectorsFrom, List.mapM_cons]
      obtain ⟨b, hb, hplan⟩ := exists_loadBlock
        (v := ⟨UInt16.ofNat (staticSize d.entries.toList + before.length), p.elementSize, p.count,
          0, if ps.isEmpty then noLink else UInt16.ofNat (index + 1)⟩)
        (toNat_ofNat_of_le haddress) rfl rfl hp
        (mapped_toImage clumps code hfits before h .contents)
      refine ⟨b :: blocks, ?_, by rw [List.map_cons, hplan, hplans]⟩
      exact bind_eq_ok_iff.2 ⟨b, hb, bind_eq_ok_iff.2 ⟨blocks, hblocks, rfl⟩⟩

/-- The blocks of a dataspace: that of the table, and one for each array. -/
theorem loadBlocks_toImage (hfits : staticSize d.entries.toList + d.dynamics.length ≤ 65535) :
    ∃ table arrays, Memory.loadBlocks (d.toImage clumps code) = .ok (table :: arrays) ∧
      arrays.map Block.plan = arrayPlans d.entries.toList := by
  have hrecords := DopeVector.length_flatMap_toBytes d.vectors
  rw [length_vectors] at hrecords
  have hlen := congrArg List.length (dynamics_eq (d := d))
  rw [List.length_append, hrecords, DopeVector.recordSize] at hlen
  have hdynamic : ¬ (d.toImage clumps code).header.dynamicDefaultSize = 0 := by
    intro hzero
    have hzero : (UInt16.ofNat d.dynamics.length).toNat = 0 := congrArg UInt16.toNat hzero
    rw [toNat_ofNat_of_le (by omega)] at hzero
    omega
  have hoffset : (d.toImage clumps code).header.dopeVectorOffset.toNat
      = staticSize d.entries.toList :=
    toNat_ofNat_of_le (Nat.le_trans (Nat.le_add_right _ _) hfits)
  obtain ⟨arrays, harrays, hplans⟩ := mapM_loadBlock clumps code hfits
    (fun p hp => length_contents hp) _ dynamics_eq 1
  rw [hrecords] at harrays
  refine ⟨⟨tableVector (staticSize d.entries.toList) (arrayPlans d.entries.toList).length, #[]⟩,
    arrays, ?_, hplans⟩
  rw [Memory.loadBlocks, if_neg hdynamic, hoffset]
  exact bind_eq_ok_iff.2 ⟨_, loadTable_toImage clumps code hfits,
    bind_eq_ok_iff.2 ⟨arrays, harrays, rfl⟩⟩

end Image

end Dataspace

end BrickMachine
