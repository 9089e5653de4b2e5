import BrickMachine.Memory.Load

/-!
# The walk over the table of contents

`Memory.owners` goes through the table entry by entry and keeps in mind whether it is inside an
element declaration. The same walk can be made in jumps: an array is followed by the entries that
declare its elements, and the walk goes on behind them. How many they are is up to the table, and
the last jump may lead far past its end. `Visits toc i visited` says that the walk from entry `i`
comes to the entries `visited` and then to the end of the table.

Every walk ends, since each jump leads forward. The entries that have a slot are those among the
visited that are neither void nor clusters, and an entry that is not visited is in the element
declaration of an array that is.
-/

namespace BrickMachine

namespace Memory

def isArrayAt (toc : List TocEntry) (i : Nat) : Bool :=
  toc[i]?.any (·.slotType = .array)

/-- How many entries declare the elements of an array, where `es` are the entries after it: all
arrays up to the first entry that is none, this entry, and its members if it is a cluster. -/
def declarationLength (es : List TocEntry) : Nat :=
  let arrays := (es.takeWhile (·.slotType = .array)).length
  match es[arrays]? with
  | some e => if e.slotType = .cluster then arrays + 1 + e.descriptor.toNat else arrays + 1
  | none => arrays + 1

def Declares (toc : List TocEntry) (a i : Nat) : Prop :=
  isArrayAt toc a ∧ a < i ∧ i ≤ a + declarationLength (toc.drop (a + 1))

def jump (toc : List TocEntry) (i : Nat) : Nat :=
  if isArrayAt toc i then i + 1 + declarationLength (toc.drop (i + 1)) else i + 1

/-- From entry `i` on, the walk comes to the entries `visited` and then to the end of the table. -/
inductive Visits (toc : List TocEntry) : Nat → List Nat → Prop
  | done {i : Nat} : toc.length ≤ i → Visits toc i []
  | visit {i : Nat} {visited : List Nat} :
      i < toc.length → Visits toc (jump toc i) visited → Visits toc i (i :: visited)

variable {toc es : List TocEntry} {i j a : Nat} {visited : List Nat}

theorem lt_jump (toc : List TocEntry) (i : Nat) : i < jump toc i := by
  unfold jump
  split <;> omega

/-! ### Where the walk comes to -/

/-- Each jump leads forward, so the walk ends. -/
theorem exists_visits (toc : List TocEntry) (i : Nat) : ∃ visited, Visits toc i visited := by
  by_cases hi : i < toc.length
  · have hforward := lt_jump toc i
    obtain ⟨visited, h⟩ := exists_visits toc (jump toc i)
    exact ⟨i :: visited, .visit hi h⟩
  · exact ⟨[], .done (Nat.le_of_not_lt hi)⟩
termination_by toc.length - i

namespace Visits

theorem length_le (h : Visits toc i visited) : visited.length ≤ toc.length - i := by
  induction h with
  | done => exact Nat.zero_le _
  | @visit i visited hi _ ih =>
      have hforward := lt_jump toc i
      rw [List.length_cons]
      omega

theorem bounds (h : Visits toc i visited) : ∀ j ∈ visited, i ≤ j ∧ j < toc.length := by
  induction h with
  | done => exact List.forall_mem_nil _
  | @visit i visited hi _ ih =>
      refine List.forall_mem_cons.2 ⟨⟨Nat.le_refl i, hi⟩, fun j hj => ?_⟩
      have hforward := lt_jump toc i
      exact ⟨Nat.le_trans (Nat.le_of_lt hforward) (ih j hj).1, (ih j hj).2⟩

/-- No visited entry is among those that a jump leaves out. -/
theorem pairwise (h : Visits toc i visited) : visited.Pairwise fun a j => jump toc a ≤ j := by
  induction h with
  | done => exact List.Pairwise.nil
  | visit _ h ih => exact List.pairwise_cons.2 ⟨fun j hj => (h.bounds j hj).1, ih⟩

theorem pairwise_lt (h : Visits toc i visited) : visited.Pairwise (· < ·) :=
  h.pairwise.imp fun {a _} hj => Nat.lt_of_lt_of_le (lt_jump toc a) hj

theorem jump_le (h : Visits toc i visited) (ha : a ∈ visited) (hj : j ∈ visited) (haj : a < j) :
    jump toc a ≤ j := by
  have hpair := h.pairwise.and h.pairwise_lt
  obtain ⟨before, after, rfl⟩ := List.append_of_mem ha
  obtain ⟨_, hafter, hcross⟩ := List.pairwise_append.1 hpair
  rcases List.mem_append.1 hj with hj | hj
  · exact absurd (hcross j hj a List.mem_cons_self).2 (Nat.lt_asymm haj)
  · rcases List.mem_cons.1 hj with rfl | hj
    · exact absurd haj (Nat.lt_irrefl j)
    · exact ((List.pairwise_cons.1 hafter).1 j hj).1

/-- An entry that is visited declares nothing. -/
theorem not_declares (h : Visits toc i visited) (ha : a ∈ visited) (hj : j ∈ visited) :
    ¬ Declares toc a j := by
  rintro ⟨harray, haj, hin⟩
  have hjump := h.jump_le ha hj haj
  rw [jump, if_pos harray] at hjump
  omega

/-- An entry that is not visited declares elements of an array that is. -/
theorem mem_or_declares (h : Visits toc i visited) (hij : i ≤ j) (hj : j < toc.length) :
    j ∈ visited ∨ ∃ a ∈ visited, Declares toc a j := by
  induction h with
  | done hend => exact absurd (Nat.le_trans hend hij) (Nat.not_le.2 hj)
  | @visit i visited _ _ ih =>
      rcases Nat.lt_or_eq_of_le hij with hlt | rfl
      · by_cases hjump : jump toc i ≤ j
        · rcases ih hjump with hmem | ⟨a, ha, hdeclares⟩
          · exact Or.inl (List.mem_cons_of_mem i hmem)
          · exact Or.inr ⟨a, List.mem_cons_of_mem i ha, hdeclares⟩
        · refine Or.inr ⟨i, List.mem_cons_self, ?_⟩
          unfold jump at hjump
          split at hjump
          case isTrue harray => exact ⟨harray, hlt, by omega⟩
          case isFalse => omega
      · exact Or.inl List.mem_cons_self

end Visits

/-! ### The entries that have a slot -/

theorem declarationLength_array {e : TocEntry} (he : e.slotType = .array) :
    declarationLength (e :: es) = declarationLength es + 1 := by
  unfold declarationLength
  rw [List.takeWhile_cons_of_pos (by simpa using he)]
  dsimp only
  rw [List.length_cons, List.getElem?_cons_succ]
  cases es[(es.takeWhile (·.slotType = .array)).length]? with
  | none => rfl
  | some x =>
      dsimp only
      split <;> omega

theorem declarationLength_last {e : TocEntry} (he : e.slotType ≠ .array) :
    declarationLength (e :: es)
      = if e.slotType = .cluster then 1 + e.descriptor.toNat else 1 := by
  unfold declarationLength
  rw [List.takeWhile_cons_of_neg (by simpa using he)]
  dsimp only
  rw [List.length_nil, List.getElem?_cons_zero]

/-- Entries are skipped one by one, as far as there are any. -/
theorem ownersFrom_skipping (n i : Nat) (es : List TocEntry) :
    ownersFrom (.skipping n) i es = ownersFrom (.skipping 0) (i + n) (es.drop n) := by
  induction n generalizing i es with
  | zero => rfl
  | succ n ih =>
      cases es with
      | nil => rfl
      | cons e es =>
          rw [ownersFrom, ih, List.drop_succ_cons]
          congr 1
          omega

/-- An element declaration is left out as a whole. -/
theorem ownersFrom_element (i : Nat) (es : List TocEntry) :
    ownersFrom .element i es
      = ownersFrom (.skipping 0) (i + declarationLength es) (es.drop (declarationLength es)) := by
  induction es generalizing i with
  | nil => rw [List.drop_nil]; rfl
  | cons e es ih =>
      by_cases harray : e.slotType = .array
      · rw [declarationLength_array harray, List.drop_succ_cons, ownersFrom, harray]
        dsimp only
        rw [ih]
        congr 1
        omega
      · rw [declarationLength_last harray, ownersFrom]
        by_cases hcluster : e.slotType = .cluster
        · rw [if_pos hcluster, hcluster, Nat.add_comm 1, List.drop_succ_cons]
          dsimp only
          rw [ownersFrom_skipping]
          congr 1
          omega
        · rw [if_neg hcluster, List.drop_succ_cons, List.drop_zero]
          split
          case h_1 h => exact absurd h harray
          case h_2 h => exact absurd h hcluster
          case h_3 => rfl

def owner? (toc : List TocEntry) (i : Nat) : Option (Nat × TocEntry) :=
  (toc[i]?.filter (·.slotType.isScalar)).map (i, ·)

theorem owner?_eq_some_iff {x : Nat × TocEntry} :
    owner? toc i = some x ↔ toc[i]? = some x.2 ∧ x.2.slotType.isScalar = true ∧ x.1 = i := by
  obtain ⟨k, t⟩ := x
  simp only [owner?, Option.map_eq_some_iff, Option.filter_eq_some_iff, Prod.mk.injEq]
  constructor
  · rintro ⟨t, ⟨ht, hscalar⟩, rfl, rfl⟩
    exact ⟨ht, hscalar, rfl⟩
  · rintro ⟨ht, hscalar, rfl⟩
    exact ⟨t, ⟨ht, hscalar⟩, rfl, rfl⟩

theorem owner?_eq {t : TocEntry} (ht : toc[i]? = some t) :
    owner? toc i = if t.slotType.isScalar then some (i, t) else none := by
  rw [owner?, ht, Option.filter_some]
  split <;> rfl

/-- One entry outside of element declarations: it may have a slot, and the walk jumps on. -/
theorem ownersFrom_jump (hi : i < toc.length) :
    ownersFrom (.skipping 0) i (toc.drop i)
      = (owner? toc i).toList ++ ownersFrom (.skipping 0) (jump toc i) (toc.drop (jump toc i)) := by
  have ht : toc[i]? = some toc[i] := List.getElem?_eq_getElem hi
  have harray : isArrayAt toc i = decide (toc[i].slotType = .array) := by
    rw [isArrayAt, ht]
    rfl
  rw [List.drop_eq_getElem_cons hi, owner?_eq ht, ownersFrom, jump, harray]
  cases toc[i].slotType with
  | array =>
      rw [ownersFrom_element, List.drop_drop]
      rfl
  | _ => rfl

/-- The entries that have a slot are found at the places that the walk comes to. -/
theorem Visits.ownersFrom_eq (h : Visits toc i visited) :
    ownersFrom (.skipping 0) i (toc.drop i) = visited.filterMap (owner? toc) := by
  induction h with
  | done hend =>
      rw [List.drop_of_length_le hend]
      rfl
  | visit hi _ ih =>
      rw [ownersFrom_jump hi, ih, List.filterMap_cons]
      cases owner? toc _ <;> rfl

theorem Visits.owners_eq (h : Visits toc 0 visited) :
    owners toc = visited.filterMap (owner? toc) :=
  h.ownersFrom_eq

theorem mem_owners_iff (h : Visits toc 0 visited) {x : Nat × TocEntry} :
    x ∈ owners toc ↔ x.1 ∈ visited ∧ toc[x.1]? = some x.2 ∧ x.2.slotType.isScalar = true := by
  rw [h.owners_eq, List.mem_filterMap]
  simp only [owner?_eq_some_iff]
  constructor
  · rintro ⟨i, hi, ht, hscalar, hx⟩
    rw [hx]
    exact ⟨hi, ht, hscalar⟩
  · rintro ⟨hx, ht, hscalar⟩
    exact ⟨x.1, hx, ht, hscalar, rfl⟩

theorem mem_map_fst_owners_iff (h : Visits toc 0 visited) :
    i ∈ (owners toc).map Prod.fst ↔
      i ∈ visited ∧ ∃ t, toc[i]? = some t ∧ t.slotType.isScalar = true := by
  rw [List.mem_map]
  constructor
  · rintro ⟨x, hx, rfl⟩
    obtain ⟨hvisited, ht⟩ := (mem_owners_iff h).1 hx
    exact ⟨hvisited, x.2, ht⟩
  · rintro ⟨hvisited, t, ht⟩
    exact ⟨(i, t), (mem_owners_iff h).2 ⟨hvisited, ht⟩, rfl⟩

theorem pairwise_owners (toc : List TocEntry) :
    ((owners toc).map Prod.fst).Pairwise (· < ·) := by
  obtain ⟨visited, h⟩ := exists_visits toc 0
  rw [h.owners_eq, List.pairwise_map, List.pairwise_filterMap]
  refine h.pairwise_lt.imp ?_
  intro i j hij x hx y hy
  rw [(owner?_eq_some_iff.1 hx).2.2, (owner?_eq_some_iff.1 hy).2.2]
  exact hij

/-- An entry has no slot exactly if it is void or a cluster, or declares elements of an array that
has one. -/
theorem not_mem_owners_iff {t : TocEntry} (ht : toc[i]? = some t) :
    i ∉ (owners toc).map Prod.fst ↔ t.slotType = .void ∨ t.slotType = .cluster ∨
      ∃ a ∈ (owners toc).map Prod.fst, Declares toc a i := by
  obtain ⟨visited, h⟩ := exists_visits toc 0
  have htype : t.slotType.isScalar = false ↔ t.slotType = .void ∨ t.slotType = .cluster := by
    cases t.slotType <;> simp [SlotType.isScalar]
  constructor
  · intro hnone
    obtain ⟨hlt, _⟩ := List.getElem?_eq_some_iff.1 ht
    rcases h.mem_or_declares (Nat.zero_le i) hlt with hvisited | ⟨a, ha, hdeclares⟩
    · rw [← or_assoc, ← htype]
      refine Or.inl (Bool.eq_false_iff.2 fun hscalar => ?_)
      exact hnone ((mem_map_fst_owners_iff h).2 ⟨hvisited, t, ht, hscalar⟩)
    · refine Or.inr (Or.inr ⟨a, (mem_map_fst_owners_iff h).2 ⟨ha, ?_⟩, hdeclares⟩)
      obtain ⟨u, hu, harray⟩ := (Option.any_eq_true _ _).1 hdeclares.1
      refine ⟨u, hu, ?_⟩
      rw [of_decide_eq_true harray]
      rfl
  · rw [← or_assoc, ← htype]
    rintro (hnone | ⟨a, ha, hdeclares⟩) hi
    · obtain ⟨_, u, hu, hscalar⟩ := (mem_map_fst_owners_iff h).1 hi
      obtain rfl : u = t := Option.some.inj (hu.symm.trans ht)
      exact Bool.false_ne_true (hnone.symm.trans hscalar)
    · have hvisited := ((mem_map_fst_owners_iff h).1 hi).1
      exact h.not_declares ((mem_map_fst_owners_iff h).1 ha).1 hvisited hdeclares

end Memory

end BrickMachine
