import BrickMachine.Proofs.Machine.Shape
import BrickMachine.Proofs.Memory.Contents
import Mathlib.Data.List.Forall2

/-!
# Array instructions

The five instructions that write a whole array act on lists of values. `Memory.Makes` says, from the
words of an instruction and the memory before it, which list the instruction is to make the contents
of its destination. If the destination is declared properly, then the instruction does so, up to
the truncation of each value, or it fails and memory is as it was; and it reaches no other array.

All values are read before the destination is resized, so the source, the new values and the
destination may be the same entry, or entries that name the same block.
-/

namespace BrickMachine

namespace Memory

/-- The list that an array instruction is to give its destination. -/
inductive Makes (m : Memory) : Opcode → List UInt16 → UInt16 → List Int32 → Prop
  /-- All elements of the source. -/
  | move {dst src : UInt16} {rest : List UInt16} {vs : List Int32} :
      m.allElements src.toNat = .ok vs →
      Makes m .mov (dst :: src :: rest) dst vs
  /-- The values of as many slots as the size of the instruction says, or of all that there are. -/
  | build {size dst : UInt16} {sources : List UInt16} {vs : List Int32} :
      List.Forall₂ (fun src v => m.scalar (UInt16.toNat src) = .ok v)
        (sources.take (size.toNat / 2 - 3)) vs →
      Makes m .arrBuild (size :: dst :: sources) dst vs
  /-- Copies of one value; none if there is no count. -/
  | init {dst value count : UInt16} {rest : List UInt16} {v : Int32} {n : Option Nat} :
      m.scalar value.toNat = .ok v → m.index? count = .ok n →
      Makes m .arrInit (dst :: value :: count :: rest) dst (List.replicate (n.getD 0) v)
  /-- The elements of the source from a position on, as many as asked for. Without a position this
  is the first one, and without a length the part goes on to the end. -/
  | subset {dst src position length : UInt16} {rest : List UInt16}
      {all : List (Except MemoryError Int32)} {start count : Option Nat} {vs : List Int32} :
      m.readings src.toNat = .ok all → m.index? position = .ok start →
      m.index? length = .ok count →
      (all.drop (min (start.getD 0) all.length)).take (count.getD all.length) = vs.map .ok →
      Makes m .arrSubset (dst :: src :: position :: length :: rest) dst vs
  /-- The elements of the source, overwritten from a position on by the values of an array or of one
  slot. -/
  | replace {dst src position new : UInt16} {rest : List UInt16} {start : Option Nat}
      {old vs : List Int32} :
      m.allElements src.toNat = .ok old → m.index? position = .ok start →
      m.values new.toNat = .ok vs →
      Makes m .replace (dst :: src :: position :: new :: rest) dst
        (overwrite old (start.getD 0) vs)

theorem scalars_eq_ok_iff {m : Memory} {es : List Nat} {vs : List Int32} :
    m.scalars es = .ok vs ↔ List.Forall₂ (fun e v => m.scalar e = .ok v) es vs := by
  induction es generalizing vs with
  | nil =>
      rw [List.forall₂_nil_left_iff, scalars, Except.ok.injEq]
      exact eq_comm
  | cons e es ih =>
      rw [List.forall₂_cons_left_iff, scalars, bind_eq_ok_iff]
      constructor
      · rintro ⟨v, hv, hrest⟩
        obtain ⟨ws, hws, hcons⟩ := bind_eq_ok_iff.1 hrest
        exact ⟨v, ws, hv, ih.1 hws, (Except.ok.inj hcons).symm⟩
      · rintro ⟨v, ws, hv, hws, rfl⟩
        exact ⟨v, hv, bind_eq_ok_iff.2 ⟨ws, ih.2 hws, rfl⟩⟩

end Memory

/-- The operand word that names the array an instruction writes as a whole. A move has one too, but
it need not be an array. -/
def Opcode.arrayDestination? (op : Opcode) (words : List UInt16) : Option UInt16 :=
  match op with
  | .mov | .arrInit | .arrSubset | .replace => words[0]?
  | .arrBuild => words[1]?
  | _ => none

inductive Operation.Writes : Opcode → List UInt16 → UInt16 → Operation → Prop
  | move (dst src : UInt16) (rest : List UInt16) :
      Writes .mov (dst :: src :: rest) dst (.move dst src)
  | build (size dst : UInt16) (sources : List UInt16) :
      Writes .arrBuild (size :: dst :: sources) dst
        (.arrayBuild dst (sources.take (payloadLength size)))
  | init (dst value count : UInt16) (rest : List UInt16) :
      Writes .arrInit (dst :: value :: count :: rest) dst (.arrayInit dst value count)
  | subset (dst src position length : UInt16) (rest : List UInt16) :
      Writes .arrSubset (dst :: src :: position :: length :: rest) dst
        (.arraySubset dst src position length)
  | replace (dst src position new : UInt16) (rest : List UInt16) :
      Writes .replace (dst :: src :: position :: new :: rest) dst (.replace dst src position new)

theorem Operation.writes_of {op : Opcode} {flags : UInt8} {words : List UInt16} {dst : UInt16}
    {operation : Operation} (hdst : op.arrayDestination? words = some dst)
    (hop : Operation.of? op flags words = some operation) :
    Operation.Writes op words dst operation := by
  cases op
  case mov =>
    rcases words with _ | ⟨a, _ | ⟨b, rest⟩⟩ <;> cases hdst <;> cases hop
    exact .move dst b rest
  case arrBuild =>
    rcases words with _ | ⟨a, _ | ⟨b, rest⟩⟩ <;> cases hdst
    cases hop
    exact .build a dst rest
  case arrInit =>
    rcases words with _ | ⟨a, _ | ⟨b, _ | ⟨c, rest⟩⟩⟩ <;> cases hdst <;> cases hop
    exact .init dst b c rest
  case arrSubset =>
    rcases words with _ | ⟨a, _ | ⟨b, _ | ⟨c, _ | ⟨e, rest⟩⟩⟩⟩ <;> cases hdst <;> cases hop
    exact .subset dst b c e rest
  case replace =>
    rcases words with _ | ⟨a, _ | ⟨b, _ | ⟨c, _ | ⟨e, rest⟩⟩⟩⟩ <;> cases hdst <;> cases hop
    exact .replace dst b c e rest
  all_goals cases hdst

namespace Exec

variable {R α : Type} {m m' : Machine R} {dst : UInt16} {d : Nat} {t : SlotType}

/-! ### Answers -/

theorem of_run_ask {f : Memory → Except MemoryError α} {a : α}
    (h : (ask f : Exec R α).run m = (.ok a, m')) : f m.memory = .ok a :=
  (run_ask_ok_iff.1 h).1

theorem of_run_index? {e : UInt16} {n : Option Nat}
    (h : (index? e : Exec R _).run m = (.ok n, m')) : m.memory.index? e = .ok n := by
  unfold index? at h
  unfold Memory.index?
  split at h
  case isTrue hnone =>
    cases h
    rw [if_pos hnone]
  case isFalse hsome =>
    obtain ⟨v, m₁, hv, hn⟩ := Keeps.run_bind_ok_iff.1 h
    cases hn
    rw [if_neg hsome, of_run_ask hv]
    rfl

theorem of_run_index {e : UInt16} {n : Nat} (h : (index e : Exec R Nat).run m = (.ok n, m')) :
    ∃ k, m.memory.index? e = .ok k ∧ k.getD 0 = n := by
  obtain ⟨k, m₁, hk, hn⟩ := Keeps.run_bind_ok_iff.1 h
  cases hn
  exact ⟨k, of_run_index? hk, rfl⟩

/-! ### Changes -/

theorem run_change (c : Change α) (m : Machine R) :
    (change c).run m =
      ((c.run m.memory).1.mapError .memory, { m with memory := (c.run m.memory).2 }) := rfl

theorem succeeds_change {c : Change α} {Q : α → Memory → Prop} (h : Succeeds c m.memory Q) :
    Succeeds (change c) m fun a m' => Q a m'.memory := by
  obtain ⟨a, memory, hrun, ha⟩ := h
  refine ⟨a, { m with memory }, ?_, ha⟩
  rw [run_change, hrun]
  rfl

theorem atomic_change {c : Change α} {Q : α → Memory → Prop} (h : Atomic c m.memory Q) :
    Atomic (change c) m fun a m' => Q a m'.memory := by
  rcases h with ⟨e, hrun⟩ | h
  · refine Or.inl ⟨.memory e, ?_⟩
    rw [run_change, hrun]
    rfl
  · exact Or.inr (succeeds_change h)

/-- A store may fail, and then changes nothing. -/
theorem atomic_setScalar (dst : UInt16) (v : Int32) :
    Atomic (setScalar dst v) m fun _ m' =>
      m.memory.setScalar dst.toNat v = .ok m'.memory ∧ m' = { m with memory := m'.memory } := by
  rcases hrun : (setScalar dst v).run m with ⟨e | _, m'⟩
  · have hatomic : Atomic (setScalar dst v : Exec R Unit) m fun _ _ => True :=
      atomic_change (Q := fun _ _ => True) (Memory.atomic_update fun _ _ => trivial)
    obtain rfl : m' = m := hatomic.of_error hrun
    exact Or.inl ⟨e, hrun⟩
  · exact Or.inr ⟨(), m', hrun, of_run_setScalar hrun⟩

theorem succeeds_ask {f : Memory → Except MemoryError α} {a : α} {Q : α → Machine R → Prop}
    (hf : f m.memory = .ok a) (ha : Q a m) : Succeeds (ask f) m Q := by
  refine ⟨a, m, ?_, ha⟩
  change ((f m.memory).mapError Machine.Error.memory, m) = _
  rw [hf]
  rfl

/-- The end of a replacement, on the array that is a copy of the source already. -/
theorem succeeds_overwrite {ws : List Int32} (h : m.memory.HasElements dst.toNat d t ws)
    (start : Nat) (vs : List Int32) :
    Succeeds (do
      let n ← ask (·.arrayLength dst.toNat)
      change (Memory.storeElements dst.toNat start (vs.take (n - start)))) m
      fun _ m' => m'.memory.HasElements dst.toNat d t (overwrite ws start (vs.map t.truncate)) := by
  refine (succeeds_ask h.arrayLength ?_).bind
  refine (succeeds_change (h.storeElements (List.length_take_le _ vs))).mono ?_
  intro _ m' hm'
  rwa [List.map_take, overwrite_take] at hm'

/-! ### All or nothing -/

def Assigned (op : Opcode) (words : List UInt16) (dst : UInt16) (d : Nat) (t : SlotType)
    (m m' : Machine R) : Prop :=
  ∃ vs, m.memory.Makes op words dst vs ∧
    m'.memory.HasElements dst.toNat d t (vs.map t.truncate)

/-- A length that may be missing, cut to the `k` elements that there are. -/
theorem getD_map_min {k n : Nat} (h : k ≤ n) (length : Option Nat) :
    (length.map (min · k)).getD k = min (length.getD n) k := by
  cases length with
  | none => exact (Nat.min_eq_right h).symm
  | some c => rfl

section

variable (h : m.memory.ArrayOf dst.toNat d t) (hm : m.memory.Sized)
include h hm

theorem atomic_arrayBuild (size : UInt16) (sources : List UInt16) :
    Atomic (arrayBuild dst (sources.take (payloadLength size))) m fun _ m' =>
      Assigned .arrBuild (size :: dst :: sources) dst d t m m' := by
  refine Atomic.bind_of_keeps (keeps_ask _) fun vs hvs => ?_
  have hsources := List.forall₂_map_left_iff.1 (Memory.scalars_eq_ok_iff.1 (of_run_ask hvs))
  exact (atomic_change (h.assign hm vs)).mono fun _ m' hm' => ⟨vs, .build hsources, hm'⟩

theorem atomic_arrayInit (value count : UInt16) (rest : List UInt16) :
    Atomic (arrayInit dst value count) m fun _ m' =>
      Assigned .arrInit (dst :: value :: count :: rest) dst d t m m' := by
  refine Atomic.bind_of_keeps (keeps_scalar value) fun v hv => ?_
  refine Atomic.bind_of_keeps (keeps_index count) fun n hn => ?_
  obtain ⟨k, hk, rfl⟩ := of_run_index hn
  refine Atomic.bind ((atomic_change (h.setArrayLength hm (k.getD 0))).mono ?_)
  rintro _ m₁ ⟨ws, hws, hlength⟩
  have hvs : (List.replicate (k.getD 0) v).length = ws.length := by
    rw [List.length_replicate, hlength]
  refine (succeeds_change (hws.storeElements (Nat.le_of_eq hvs))).mono ?_
  intro _ m' hm'
  rw [overwrite_all (by rw [List.length_map, hvs])] at hm'
  exact ⟨_, .init (of_run_ask hv) hk, hm'⟩

theorem atomic_arraySubset (src position length : UInt16) (rest : List UInt16) :
    Atomic (arraySubset dst src position length) m fun _ m' =>
      Assigned .arrSubset (dst :: src :: position :: length :: rest) dst d t m m' := by
  refine Atomic.bind_of_keeps (keeps_ask _) fun available havailable => ?_
  refine Atomic.bind_of_keeps (keeps_index position) fun p hp => ?_
  obtain ⟨start, hstart, rfl⟩ := of_run_index hp
  refine Atomic.bind_of_keeps (keeps_index? length) fun count hcount => ?_
  refine Atomic.bind_of_keeps (keeps_ask _) fun vs hvs => ?_
  rw [getD_map_min (Nat.sub_le available (min (start.getD 0) available)) count] at hvs
  have hstop : min (start.getD 0) available
      + min (count.getD available) (available - min (start.getD 0) available) ≤ available := by
    omega
  obtain ⟨all, hall, hlength, hpart⟩ :=
    (Memory.elements_eq_ok_iff_take_drop (of_run_ask havailable) hstop).1 (of_run_ask hvs)
  refine (atomic_change (h.assign hm vs)).mono fun _ m' hm' => ⟨vs, ?_, hm'⟩
  refine .subset hall hstart (of_run_index? hcount) (Eq.trans ?_ hpart)
  rw [hlength, List.take_eq_take_iff, List.length_drop, hlength, Nat.min_assoc, Nat.min_self]

theorem atomic_replace (src position new : UInt16) (rest : List UInt16) :
    Atomic (replace dst src position new) m fun _ m' =>
      Assigned .replace (dst :: src :: position :: new :: rest) dst d t m m' := by
  refine Atomic.bind_of_keeps (keeps_index position) fun p hp => ?_
  obtain ⟨start, hstart, rfl⟩ := of_run_index hp
  refine Atomic.bind_of_keeps (keeps_ask _) fun vs hvs => ?_
  have hassigned {old : List Int32} {m' : Machine R}
      (hold : m.memory.allElements src.toNat = .ok old)
      (hm' : m'.memory.HasElements dst.toNat d t
        (overwrite (old.map t.truncate) (start.getD 0) (vs.map t.truncate))) :
      Assigned .replace (dst :: src :: position :: new :: rest) dst d t m m' := by
    rw [← map_overwrite] at hm'
    exact ⟨_, .replace hold hstart (of_run_ask hvs), hm'⟩
  split
  case isTrue =>
    refine Atomic.bind ((atomic_change (h.copyArray hm src.toNat)).mono ?_)
    rintro _ m₁ ⟨old, hold, hcopy⟩
    exact (succeeds_overwrite hcopy _ vs).mono fun _ _ hm' => hassigned hold hm'
  case isFalse hsame =>
    -- the array is its own copy, since its values are truncated already
    obtain rfl : dst = src := Decidable.not_not.1 hsame
    have hself := h.hasElements hm
    refine Or.inr ((succeeds_overwrite hself _ vs).mono fun _ _ hm' => ?_)
    refine hassigned hself.allElements ?_
    rw [hself.map_truncate]
    exact hm'

theorem atomic_move (pc : Nat) (src : UInt16) (rest : List UInt16) :
    Atomic (move pc dst src) m fun _ m' => m.memory.slotType src.toNat = .ok .array →
      Assigned .mov (dst :: src :: rest) dst d t m m' ∧
        m.memory.ChangesOnly dst.toNat m'.memory := by
  refine Atomic.bind_of_keeps (keeps_ask _) fun dstType hdst => ?_
  refine Atomic.bind_of_keeps (keeps_ask _) fun srcType hsrc => ?_
  obtain rfl : SlotType.array = dstType := Except.ok.inj (h.slotType.symm.trans (of_run_ask hdst))
  split
  case isTrue =>
    have hkeeps := keeps_change (R := R)
      ((Memory.arrayKeeps_changesOnly dst.toNat).copyArray src.toNat)
    refine ((atomic_change (h.copyArray hm src.toNat)).and_keeps hkeeps).mono ?_
    rintro _ m' ⟨⟨vs, hvs, hm'⟩, honly⟩ _
    exact ⟨⟨vs, .move hvs, hm'⟩, honly⟩
  case isFalse hother =>
    -- an array is not flat, so all that is left is to note the move
    rw [if_neg fun hflat => Bool.false_ne_true hflat.1]
    refine Or.inr ⟨(), _, rfl, fun harray => ?_⟩
    exact absurd ⟨rfl, Except.ok.inj ((of_run_ask hsrc).symm.trans harray)⟩ hother

end

/-! ### Failures on any destination -/

theorem failsWithin_move (pc : Nat) (dst src : UInt16) :
    FailsWithin (fun _ => OnMemory (Memory.ChangesOnly dst.toNat))
      (move pc dst src : Exec R Unit) := by
  have hrefl (_ : Machine.Error) (m : Machine R) :
      OnMemory (Memory.ChangesOnly dst.toNat) m m := refl_of (Memory.ChangesOnly dst.toNat) m.memory
  refine FailsWithin.bind_of_keeps (keeps_ask _) hrefl fun dstType => ?_
  refine FailsWithin.bind_of_keeps (keeps_ask _) hrefl fun srcType => ?_
  split
  · have hcopy := (Memory.arrayKeeps_changesOnly dst.toNat).copyArray src.toNat
    exact FailsWithin.of_keeps (keeps_change hcopy) fun _ _ _ h => h
  · split
    · refine FailsWithin.bind_of_keeps (keeps_scalar src) hrefl fun v => ?_
      exact FailsWithin.of_atomic (fun m => atomic_setScalar dst v) hrefl
    · exact FailsWithin.of_ok fun m => ⟨(), _, rfl⟩

variable [Robot R]

theorem failsWithin_execute {op : Opcode} {words : List UInt16} {operation : Operation}
    (hop : Operation.Writes op words dst operation) (pc : Nat) :
    FailsWithin (fun _ => OnMemory (Memory.ChangesOnly dst.toNat))
      (execute pc operation : Exec R Unit) := by
  have harray := Memory.arrayKeeps_changesOnly dst.toNat
  cases hop with
  | move _ src rest => exact failsWithin_move pc dst src
  | build size _ sources => exact FailsWithin.of_keeps (keeps_arrayBuild harray _) fun _ _ _ h => h
  | init _ value count rest =>
      exact FailsWithin.of_keeps (keeps_arrayInit harray value count) fun _ _ _ h => h
  | subset _ src position length rest =>
      exact FailsWithin.of_keeps (keeps_arraySubset harray src position length) fun _ _ _ h => h
  | replace _ src position new rest =>
      exact FailsWithin.of_keeps (keeps_replace harray src position new) fun _ _ _ h => h

theorem atomic_execute {op : Opcode} {words : List UInt16} {operation : Operation}
    (hop : Operation.Writes op words dst operation) (h : m.memory.ArrayOf dst.toNat d t)
    (hm : m.memory.Sized) (pc : Nat) :
    Atomic (execute pc operation) m fun _ m' =>
      (op = .mov → ∃ src, words[1]? = some src ∧ m.memory.slotType src.toNat = .ok .array) →
        Assigned op words dst d t m m' ∧ m.memory.ChangesOnly dst.toNat m'.memory := by
  have harray := Memory.arrayKeeps_changesOnly dst.toNat
  cases hop with
  | move _ src rest =>
      refine (atomic_move h hm pc src rest).mono fun _ m' hm' hmove => ?_
      obtain ⟨src', hsrc, harray⟩ := hmove rfl
      cases hsrc
      exact hm' harray
  | build size _ sources =>
      exact ((atomic_arrayBuild h hm size sources).and_keeps (keeps_arrayBuild harray _)).mono
        fun _ m' hm' _ => hm'
  | init _ value count rest =>
      exact ((atomic_arrayInit h hm value count rest).and_keeps
        (keeps_arrayInit harray value count)).mono fun _ m' hm' _ => hm'
  | subset _ src position length rest =>
      exact ((atomic_arraySubset h hm src position length rest).and_keeps
        (keeps_arraySubset harray src position length)).mono fun _ m' hm' _ => hm'
  | replace _ src position new rest =>
      exact ((atomic_replace h hm src position new rest).and_keeps
        (keeps_replace harray src position new)).mono fun _ m' hm' _ => hm'

end Exec

namespace Machine

variable {R : Type} [Robot R] {m m' : Machine R} {i : Instruction} {dst : UInt16} {d : Nat}
  {t : SlotType}

theorem atomic_executeInstruction (hdst : i.opcode.arrayDestination? i.operands = some dst)
    (h : m.memory.ArrayOf dst.toNat d t) (hm : m.memory.Sized) (pc : Nat) :
    Atomic (executeInstruction pc i) m fun _ m' =>
      (i.opcode = .mov →
        ∃ src, i.operands[1]? = some src ∧ m.memory.slotType src.toNat = .ok .array) →
      Exec.Assigned i.opcode i.operands dst d t m m' ∧
        m.memory.ChangesOnly dst.toNat m'.memory := by
  unfold executeInstruction
  split
  case h_1 op hop => exact Exec.atomic_execute (Operation.writes_of hdst hop) h hm pc
  case h_2 => exact Or.inl ⟨_, rfl⟩

theorem failsWithin_executeInstruction (hdst : i.opcode.arrayDestination? i.operands = some dst)
    (pc : Nat) :
    FailsWithin (fun _ => OnMemory (Memory.ChangesOnly dst.toNat))
      (executeInstruction pc i : Exec R Unit) := by
  unfold executeInstruction
  split
  case h_1 op hop => exact Exec.failsWithin_execute (Operation.writes_of hdst hop) pc
  case h_2 => exact FailsWithin.of_keeps (Keeps.throw _) fun _ _ _ h => h

/-- An array instruction that succeeds makes its list the contents of the destination, with each
value truncated to the type of the elements, and changes nothing else in memory. -/
theorem contents_of_executed (hm : m.memory.Sized)
    (hi : Instruction.decode m.image.code m.control.pc = .ok i)
    (hdst : i.opcode.arrayDestination? i.operands = some dst)
    (hmove : i.opcode = .mov →
      ∃ src, i.operands[1]? = some src ∧ m.memory.slotType src.toNat = .ok .array)
    (harray : m.memory.ArrayOf dst.toNat d t) (hstep : m.step = (.ok .executed, m')) :
    ∃ vs, m.memory.Makes i.opcode i.operands dst vs ∧
      m'.memory.allElements dst.toNat = .ok (vs.map t.truncate) ∧
      m.memory.ChangesOnly dst.toNat m'.memory := by
  obtain ⟨i', hi', hrun⟩ := of_step_executed hstep
  obtain rfl : i = i' := Except.ok.inj (hi.symm.trans hi')
  have hatomic := atomic_executeInstruction (m := m.behind i) hdst harray hm m.control.pc
  obtain ⟨⟨vs, hvs, helements⟩, honly⟩ := hatomic.of_ok hrun hmove
  exact ⟨vs, hvs, helements.allElements, honly⟩

/-- A machine with one array of four words, which a second entry takes for signed bytes. The bytes
are to become the words, with the words once more from position 3 on. -/
def sharedArray : Machine HeadlessRobot :=
  running [.replace 2 0 4 0]
    { toc := #[⟨.array, 0, 0⟩, ⟨.uword, 0, 0⟩, ⟨.array, 0, 2⟩, ⟨.sbyte, 0, 0⟩, ⟨.ulong, 0, 4⟩]
      statics := #[1, 0, 1, 0, 3, 0, 0, 0]
      blocks := #[⟨⟨0, 10, 2, 0, 0⟩, #[]⟩, ⟨⟨0, 2, 4, 0, 0⟩, #[1, 0, 2, 0, 44, 1, 4, 0]⟩]
      slots := [0, 2, 4] }
    {}

def builtArray : Machine HeadlessRobot :=
  running [.arrBuild 0 [2, 3]]
    { toc := #[⟨.array, 0, 0⟩, ⟨.sbyte, 0, 0⟩, ⟨.uword, 0, 2⟩, ⟨.slong, 0, 4⟩]
      statics := #[1, 0, 44, 1, 254, 255, 255, 255]
      blocks := #[⟨⟨0, 10, 2, 0, 0⟩, #[]⟩, ⟨⟨0, 1, 0, 0, 0⟩, #[]⟩]
      slots := [0, 2, 3] }
    {}

theorem contents_of_sharedArray :
    (∃ m', sharedArray.step = (.ok .executed, m') ∧
      sharedArray.memory.allElements 0 = .ok [1, 2, 300, 4] ∧
      m'.memory.allElements 2 = .ok [1, 2, 44, 1] ∧
      sharedArray.memory.ChangesOnly 2 m'.memory) ∧
    ∃ m', builtArray.step = (.ok .executed, m') ∧
      builtArray.memory.scalar 2 = .ok 300 ∧ builtArray.memory.scalar 3 = .ok (-2) ∧
      m'.memory.allElements 0 = .ok [44, -2] ∧ builtArray.memory.ChangesOnly 0 m'.memory := by
  constructor
  · have hsized : sharedArray.memory.Sized := by decide
    have hi : Instruction.decode sharedArray.image.code 0
        = .ok ⟨.replace, 0, 5, [2, 0, 4, 0], false⟩ := rfl
    have hdst : Opcode.replace.arrayDestination? [2, 0, 4, 0] = some 2 := rfl
    have harray : sharedArray.memory.ArrayOf 2 1 .sbyte := ⟨rfl, rfl, by decide⟩
    have hresult : sharedArray.step.1.toOption = some .executed := by decide +kernel
    rcases hstep : sharedArray.step with ⟨_ | outcome, m'⟩ <;> rw [hstep] at hresult <;>
      cases hresult
    obtain ⟨vs, hmakes, hcontents, honly⟩ :=
      contents_of_executed hsized hi hdst nofun harray hstep
    have hold : sharedArray.memory.allElements 0 = .ok [1, 2, 300, 4] := rfl
    refine ⟨m', rfl, hold, ?_, honly⟩
    cases hmakes with
    | replace hsource hstart hnew =>
        cases hsource
        cases hstart
        cases hnew
        exact hcontents
  · have hsized : builtArray.memory.Sized := by decide
    have hi : Instruction.decode builtArray.image.code 0
        = .ok ⟨.arrBuild, 0, 5, [10, 0, 2, 3], false⟩ := rfl
    have hdst : Opcode.arrBuild.arrayDestination? [10, 0, 2, 3] = some 0 := rfl
    have harray : builtArray.memory.ArrayOf 0 1 .sbyte := ⟨rfl, rfl, by decide⟩
    have hresult : builtArray.step.1.toOption = some .executed := by decide +kernel
    rcases hstep : builtArray.step with ⟨_ | outcome, m'⟩ <;> rw [hstep] at hresult <;>
      cases hresult
    obtain ⟨vs, hmakes, hcontents, honly⟩ :=
      contents_of_executed hsized hi hdst nofun harray hstep
    have hword : builtArray.memory.scalar 2 = .ok 300 := rfl
    have hlong : builtArray.memory.scalar 3 = .ok (-2) := rfl
    refine ⟨m', rfl, hword, hlong, ?_, honly⟩
    cases hmakes with
    | build hsources =>
        cases hsources with
        | cons hfirst hrest =>
            cases hrest with
            | cons hsecond hnone =>
                cases hnone
                cases hfirst
                cases hsecond
                exact hcontents

/-- An array instruction that fails with a memory error leaves memory as it was, unless its
destination is misdeclared. Then the array may have been resized and written in part, and nothing
else is changed. -/
theorem memory_of_arrayFault {e : MemoryError} (hm : m.memory.Sized)
    (hi : Instruction.decode m.image.code m.control.pc = .ok i)
    (hdst : i.opcode.arrayDestination? i.operands = some dst)
    (hstep : m.step = (.error (.memory e), m')) :
    m'.memory = m.memory ∨
      m.memory.Misdeclared dst.toNat ∧ m.memory.ChangesOnly dst.toNat m'.memory := by
  obtain ⟨_, i', hi', hrun⟩ := of_step_fault hstep
  obtain rfl : i = i' := Except.ok.inj (hi.symm.trans hi')
  have honly : m.memory.ChangesOnly dst.toNat m'.memory :=
    failsWithin_executeInstruction hdst m.control.pc (m.behind i) _ m' hrun
  cases hindex : m.memory.blockIndex dst.toNat with
  | error err =>
      refine Or.inl (honly.eq_of_no_block fun d hd => ?_)
      rw [hindex] at hd
      cases hd
  | ok d =>
      rcases Memory.arrayOf_or_misdeclared hindex with ⟨t, harray⟩ | hmisdeclared
      · have hatomic := atomic_executeInstruction (m := m.behind i) hdst harray hm m.control.pc
        refine Or.inl ?_
        rw [hatomic.of_error hrun]
        rfl
      · exact Or.inr ⟨hmisdeclared, honly⟩

/-- A machine that is about to fill an array with three copies of a number. No entry says what the
elements are. -/
def undeclaredArray : Machine HeadlessRobot :=
  running [.arrInit 2 0 1]
    { toc := #[⟨.uword, 0, 0⟩, ⟨.uword, 0, 2⟩, ⟨.array, 0, 4⟩]
      statics := #[7, 0, 3, 0, 1, 0]
      blocks := #[⟨⟨0, 10, 2, 0, 0⟩, #[]⟩, ⟨⟨0, 2, 0, 0, 0⟩, #[]⟩]
      slots := [0, 1, 2] }
    {}

theorem memory_of_undeclaredArray :
    ∃ m', undeclaredArray.step = (.error (.memory (.outOfRange .entry 3 3)), m') ∧
      undeclaredArray.memory.arrayLength 2 = .ok 0 ∧ m'.memory.arrayLength 2 = .ok 3 ∧
      undeclaredArray.memory.Misdeclared 2 ∧
      undeclaredArray.memory.ChangesOnly 2 m'.memory := by
  have hsized : undeclaredArray.memory.Sized := by decide
  obtain ⟨m', hstep⟩ : ∃ m',
      undeclaredArray.step = (.error (.memory (.outOfRange .entry 3 3)), m') := ⟨_, rfl⟩
  have hlength : undeclaredArray.step.2.memory.arrayLength 2 = .ok 3 := rfl
  rw [hstep] at hlength
  refine ⟨m', hstep, rfl, hlength, ?_⟩
  rcases memory_of_arrayFault hsized rfl rfl hstep with hsame | hchanged
  · rw [hsame] at hlength
    cases hlength
  · exact hchanged

end Machine

end BrickMachine
