import BrickMachine.Image.Program
import BrickMachine.Proofs.Code.Locality
import BrickMachine.Proofs.Machine.Halting
import BrickMachine.Proofs.Machine.Shape
import Mathlib.Data.List.Nodup
import Mathlib.Data.List.Perm.Subperm

/-!
# Diagnostics

What a machine notes of an instruction that it does not carry out is fixed by the image:
`Image.notice?` gives it for every place of the code. The types of the entries that a MOV names are
those that the image declares, because nothing that runs exchanges the table of contents.

Therefore the machine never has two diagnostics for one place, although it only looks whether it has
seen the very same diagnostic before. `Recorded` is the invariant: what has been taken, followed by
what is still held, is all that was ever seen, in the order in which it arose.
-/

namespace BrickMachine

variable {R α : Type}

/-! ### What the image says -/

def Opcode.unsupported : List Opcode :=
  [.flatten, .unflatten, .numToString, .stringToNum,
   .strCat, .strSubset, .strToByteArr, .byteArrToStr]

/-- The machine can move between entries of these types. -/
def SlotType.Movable (dst src : SlotType) : Prop :=
  dst = .array ∧ src = .array ∨ dst.isFlat ∧ src.isFlat

instance (dst src : SlotType) : Decidable (dst.Movable src) := inferInstanceAs (Decidable (_ ∨ _))

def Operation.notice? (toc : Array TocEntry) : Operation → Option Notice
  | unsupported op => some (.unsupportedOpcode op)
  | move dst src =>
    match toc[dst.toNat]?, toc[src.toNat]? with
    | some d, some s =>
      if d.slotType.Movable s.slotType then none
      else some (.compositeMove d.slotType s.slotType)
    | _, _ => none
  | _ => none

def Image.notice? (image : Image) (pc : Nat) : Option Notice :=
  match Instruction.decode image.code pc with
  | .ok i => i.operation?.bind (·.notice? image.toc)
  | .error _ => none

inductive Image.Notes (image : Image) (pc : Nat) : Notice → Prop
  | unsupported {i : Instruction} (hi : Instruction.decode image.code pc = .ok i)
      (hop : i.opcode ∈ Opcode.unsupported) : Notes image pc (.unsupportedOpcode i.opcode)
  | move {i : Instruction} {dst src : UInt16} {d s : TocEntry}
      (hi : Instruction.decode image.code pc = .ok i) (hop : i.opcode = .mov)
      (hdst : i.operands[0]? = some dst) (hsrc : i.operands[1]? = some src)
      (hd : image.toc[dst.toNat]? = some d) (hs : image.toc[src.toNat]? = some s)
      (harrays : ¬ (d.slotType = .array ∧ s.slotType = .array))
      (hflat : ¬ (d.slotType.isFlat ∧ s.slotType.isFlat)) :
      Notes image pc (.compositeMove d.slotType s.slotType)

theorem Operation.notice?_eq_some_iff {toc : Array TocEntry} {op : Operation} {n : Notice} :
    op.notice? toc = some n ↔
      (∃ o, op = .unsupported o ∧ n = .unsupportedOpcode o) ∨
      ∃ dst src d s, op = .move dst src ∧ toc[dst.toNat]? = some d ∧ toc[src.toNat]? = some s ∧
        ¬ d.slotType.Movable s.slotType ∧ n = .compositeMove d.slotType s.slotType := by
  constructor
  · intro h
    cases op with
    | unsupported o => exact Or.inl ⟨o, rfl, (Option.some.inj h).symm⟩
    | move dst src =>
        unfold notice? at h
        dsimp only at h
        split at h
        case h_1 d s hd hs =>
          split at h
          · cases h
          case isFalse hmovable =>
            exact Or.inr ⟨dst, src, d, s, rfl, hd, hs, hmovable, (Option.some.inj h).symm⟩
        case h_2 => cases h
    | _ => cases h
  · rintro (⟨o, rfl, rfl⟩ | ⟨dst, src, d, s, rfl, hd, hs, hmovable, rfl⟩)
    · rfl
    · simp only [notice?, hd, hs, if_neg hmovable]

/-- Which instructions are moves or not supported. -/
theorem Instruction.operation?_eq_unsupported_iff {i : Instruction} {o : Opcode} :
    i.operation? = some (.unsupported o) ↔ i.opcode ∈ Opcode.unsupported ∧ o = i.opcode := by
  obtain ⟨opcode, flags, length, operands, short⟩ := i
  change Operation.of? opcode flags operands = _ ↔ _
  rcases operands with _ | ⟨a, _ | ⟨b, _ | ⟨c, _ | ⟨d, rest⟩⟩⟩⟩ <;> cases opcode <;>
    simp [Operation.of?, Operation.one, Operation.two, Operation.three, Operation.four,
      Operation.sized, Opcode.unsupported, eq_comm]

theorem Instruction.operation?_eq_move_iff {i : Instruction} {dst src : UInt16} :
    i.operation? = some (.move dst src) ↔
      i.opcode = .mov ∧ i.operands[0]? = some dst ∧ i.operands[1]? = some src := by
  obtain ⟨opcode, flags, length, operands, short⟩ := i
  change Operation.of? opcode flags operands = _ ↔ _
  rcases operands with _ | ⟨a, _ | ⟨b, _ | ⟨c, _ | ⟨d, rest⟩⟩⟩⟩ <;> cases opcode <;>
    simp [Operation.of?, Operation.one, Operation.two, Operation.three, Operation.four,
      Operation.sized]

namespace Image

variable {image : Image} {pc : Nat} {n : Notice}

theorem notice?_eq_some_iff : image.notice? pc = some n ↔ image.Notes pc n := by
  unfold notice?
  constructor
  · intro h
    split at h
    case h_1 i hi =>
      obtain ⟨op, hop, hnotice⟩ := Option.bind_eq_some_iff.1 h
      rcases Operation.notice?_eq_some_iff.1 hnotice with
        ⟨o, rfl, rfl⟩ | ⟨dst, src, d, s, rfl, hd, hs, hmovable, rfl⟩
      · obtain ⟨hmem, rfl⟩ := Instruction.operation?_eq_unsupported_iff.1 hop
        exact .unsupported hi hmem
      · obtain ⟨hmov, hdst, hsrc⟩ := Instruction.operation?_eq_move_iff.1 hop
        obtain ⟨harrays, hflat⟩ := not_or.1 hmovable
        exact .move hi hmov hdst hsrc hd hs harrays hflat
    case h_2 => cases h
  · rintro (⟨hi, hop⟩ | ⟨hi, hop, hdst, hsrc, hd, hs, harrays, hflat⟩)
    · rw [hi]
      dsimp only
      rw [Instruction.operation?_eq_unsupported_iff.2 ⟨hop, rfl⟩]
      rfl
    · rw [hi]
      dsimp only
      rw [Instruction.operation?_eq_move_iff.2 ⟨hop, hdst, hsrc⟩]
      exact Operation.notice?_eq_some_iff.2
        (Or.inr ⟨_, _, _, _, rfl, hd, hs, not_or.2 ⟨harrays, hflat⟩, rfl⟩)

/-- A place is noted in one way only. -/
theorem Notes.unique {n' : Notice} (h : image.Notes pc n) (h' : image.Notes pc n') : n = n' :=
  Option.some.inj ((notice?_eq_some_iff.2 h).symm.trans (notice?_eq_some_iff.2 h'))

theorem Notes.diagnostic_eq {d d' : Diagnostic} (h : image.Notes d.pc d.notice)
    (h' : image.Notes d'.pc d'.notice) (hpc : d.pc = d'.pc) : d = d' := by
  obtain ⟨pc, n⟩ := d
  obtain ⟨pc', n'⟩ := d'
  obtain rfl : pc = pc' := hpc
  obtain rfl : n = n' := h.unique h'
  rfl

theorem Notes.decodes (h : image.Notes pc n) : ∃ i, Instruction.decode image.code pc = .ok i := by
  cases h with
  | unsupported hi => exact ⟨_, hi⟩
  | move hi => exact ⟨_, hi⟩

theorem Notes.lt_size (h : image.Notes pc n) : pc < image.code.size := by
  obtain ⟨i, hi⟩ := h.decodes
  have hpositive := Instruction.length_pos_of_decode hi
  have hextent := Instruction.extent_of_decode hi
  omega

end Image

/-! ### What an instruction notes -/

namespace Machine

def record (m : Machine R) : Array Diagnostic × List Diagnostic := (m.diagnostics, m.seen)

abbrev SameRecord : Machine R → Machine R → Prop := InvImage (· = ·) record

theorem record_conclude (result : Except Error Unit) (m : Machine R) :
    (conclude result m).2.record = m.record := by
  cases result with
  | ok => rfl
  | error e => cases e <;> rfl

end Machine

namespace Exec

open Machine

theorem Local.keeps_record {x : Exec R α} (hx : Local x) : Keeps SameRecord x := by
  obtain ⟨c, rfl⟩ := hx
  intro m
  rfl

theorem keeps_record_branch (pc : Nat) (offset : Int) :
    Keeps SameRecord (branch pc offset : Exec R Unit) := by
  unfold branch
  dsimp only
  split
  · exact Keeps.throw _
  · exact fun _ => rfl

theorem keeps_record_call (pc : Nat) (clump slot : UInt16) :
    Keeps SameRecord (call pc clump slot : Exec R Unit) := by
  refine Keeps.bind (keeps_look _) fun target => ?_
  cases target with
  | none => exact Keeps.throw _
  | some c =>
      refine Keeps.bind (keeps_look _) fun caller => ?_
      exact Keeps.bind (local_setScalar slot _).keeps_record fun _ _ => rfl

theorem keeps_record_ret (pc : Nat) (slot : UInt16) :
    Keeps SameRecord (ret pc slot : Exec R Unit) := by
  refine Keeps.bind (keeps_look _) fun stack => ?_
  cases stack with
  | nil => exact Keeps.throw _
  | cons address rest =>
      refine Keeps.bind (fun _ => rfl) fun _ => ?_
      exact Keeps.bind (keeps_scalar slot) fun _ _ => rfl

theorem run_ask_slotType {m : Machine R} {e : UInt16} :
    (ask (·.slotType e.toNat) : Exec R SlotType).run m =
      match m.memory.toc[e.toNat]? with
      | some t => (.ok t.slotType, m)
      | none => (.error (.memory (.outOfRange .entry e.toNat m.memory.toc.size)), m) := by
  change ((m.memory.slotType e.toNat).mapError Machine.Error.memory, m) = _
  unfold Memory.slotType Memory.entry
  cases m.memory.toc[e.toNat]? <;> rfl

/-- How a move goes on once the types of its entries are known. -/
theorem run_move {m : Machine R} {pc : Nat} {dst src : UInt16} :
    (move pc dst src).run m =
      match m.memory.toc[dst.toNat]?, m.memory.toc[src.toNat]? with
      | some d, some s =>
        if d.slotType = .array ∧ s.slotType = .array then
          (change (Memory.copyArray dst.toNat src.toNat)).run m
        else if d.slotType.isFlat ∧ s.slotType.isFlat then
          (do let v ← scalar src; setScalar dst v).run m
        else (.ok (), m.note ⟨pc, .compositeMove d.slotType s.slotType⟩)
      | none, _ => (.error (.memory (.outOfRange .entry dst.toNat m.memory.toc.size)), m)
      | some _, none => (.error (.memory (.outOfRange .entry src.toNat m.memory.toc.size)), m) := by
  unfold move
  rw [Keeps.run_bind, run_ask_slotType]
  cases m.memory.toc[dst.toNat]? with
  | none => rfl
  | some d =>
      dsimp only
      rw [Keeps.run_bind, run_ask_slotType]
      cases m.memory.toc[src.toNat]? with
      | none => rfl
      | some s =>
          dsimp only
          split
          · rfl
          · split <;> rfl

end Exec

namespace Operation

open Machine

variable [Robot R] {m : Machine R} {op : Operation} {n : Notice}

/-- An operation that is noted succeeds and does nothing else. -/
theorem run_of_notice (hn : op.notice? m.memory.toc = some n) (pc : Nat) :
    (execute pc op).run m = (.ok (), m.note ⟨pc, n⟩) := by
  rcases notice?_eq_some_iff.1 hn with
    ⟨o, rfl, rfl⟩ | ⟨dst, src, d, s, rfl, hd, hs, hmovable, rfl⟩
  · rfl
  · obtain ⟨harrays, hflat⟩ := not_or.1 hmovable
    change (Exec.move pc dst src).run m = _
    simp only [Exec.run_move, hd, hs, if_neg harrays, if_neg hflat]

open Exec in
/-- No other operation changes the record. -/
theorem record_of_no_notice (hn : op.notice? m.memory.toc = none) (pc : Nat) :
    m.record = ((execute pc op).run m).2.record := by
  have hkept (hkeeps : Keeps SameRecord (execute pc op : Exec R Unit)) :
      m.record = ((execute pc op).run m).2.record := hkeeps m
  have hscalar {β : Type} {f : Int32 → Exec R β} (e : UInt16) (hf : ∀ v, Keeps SameRecord (f v)) :
      Keeps SameRecord (scalar e >>= f) := Keeps.bind (keeps_scalar e) hf
  cases hlocal : op.isLocal with
  | true =>
      obtain ⟨c, hc⟩ := local_execute (R := R) hlocal
      exact hkept (Local.keeps_record ⟨c, hc pc⟩)
  | false =>
      cases op with
      | compare flags dst lhs rhs =>
          exact hkept <| Keeps.bind (keeps_comparison pc flags) fun c => hscalar lhs fun a =>
            hscalar rhs fun b => (local_setScalar dst _).keeps_record
      | test flags dst src =>
          exact hkept <| Keeps.bind (keeps_comparison pc flags) fun c => hscalar src fun a =>
            (local_setScalar dst _).keeps_record
      | move dst src =>
          change m.record = ((Exec.move pc dst src).run m).2.record
          rw [run_move]
          unfold notice? at hn
          dsimp only at hn
          split
          case h_1 d s hd hs =>
            rw [hd, hs] at hn
            dsimp only at hn
            split at hn
            case isTrue hmovable =>
              by_cases harrays : d.slotType = .array ∧ s.slotType = .array
              · rw [if_pos harrays]
                exact (local_change _).keeps_record m
              · rw [if_neg harrays, if_pos (hmovable.resolve_left harrays)]
                exact ((local_scalar src).bind fun v => local_setScalar dst v).keeps_record m
            case isFalse => cases hn
          case h_2 => rfl
          case h_3 => rfl
      | unsupported o => cases hn
      | jump offset => exact hkept (keeps_record_branch pc offset)
      | branchCompare flags offset lhs rhs =>
          refine hkept <| Keeps.bind (keeps_comparison pc flags) fun c => hscalar lhs fun a =>
            hscalar rhs fun b => ?_
          split
          · exact keeps_record_branch pc offset
          · exact Keeps.pure ()
      | branchTest flags offset src =>
          refine hkept <| Keeps.bind (keeps_comparison pc flags) fun c => hscalar src fun a => ?_
          split
          · exact keeps_record_branch pc offset
          · exact Keeps.pure ()
      | stop => exact hkept (Keeps.throw _)
      | call clump slot => exact hkept (keeps_record_call pc clump slot)
      | ret slot => exact hkept (keeps_record_ret pc slot)
      | wait duration => exact hkept <| hscalar duration fun _ _ => rfl
      | getTick dst =>
          exact hkept <| Keeps.bind (keeps_look _) fun _ => (local_setScalar dst _).keeps_record
      | _ => cases hlocal

end Operation

/-! ### Steps -/

/-- System calls leave the table of contents as it is. -/
def Robot.KeepsToc (R : Type) [Robot R] : Prop :=
  ∀ id base (robot : R) memory, (Robot.syscall id base robot memory).2.2.toc = memory.toc

theorem HeadlessRobot.keepsToc : Robot.KeepsToc HeadlessRobot :=
  fun id base robot memory => (keeps_call id base (robot, memory)).toc

namespace Machine

variable [Robot R] {m : Machine R} {d : Diagnostic}

theorem toc_step (hrobot : Robot.KeepsToc R) (m : Machine R) :
    m.step.2.memory.toc = m.memory.toc := by
  have hkept : KeptByPrograms R (InvImage (· = ·) Memory.toc) :=
    { setScalar := fun h => (Memory.evolves_setScalar h).toc.symm
      array := fun _ =>
        ⟨fun h => (Memory.evolves_setArrayLength h).toc.symm,
         fun h => (Memory.evolves_putElement h).toc.symm⟩
      syscall := fun id base robot memory => (hrobot id base robot memory).symm }
  exact (memory_step hkept m).symm

structure GivesRise (m : Machine R) (d : Diagnostic) : Prop where
  executed : m.step.1 = .ok .executed
  pc : m.control.pc = d.pc
  notes : m.image.Notes d.pc d.notice

/-- A step that gives rise to a diagnostic does nothing but note it and go on. -/
theorem step_of_notice {n : Notice} (htoc : m.memory.toc = m.image.toc) (hidle : m.idle? = none)
    (hn : m.image.notice? m.control.pc = some n) :
    ∃ i, m.step = (.ok .executed, (m.behind i).note ⟨m.control.pc, n⟩) := by
  rw [step_eq, hidle]
  dsimp only
  unfold attempt
  unfold Image.notice? at hn
  split at hn
  case h_1 i hi =>
    obtain ⟨op, hop, hnotice⟩ := Option.bind_eq_some_iff.1 hn
    rw [← htoc] at hnotice
    refine ⟨i, ?_⟩
    rw [hi]
    dsimp only
    unfold executeInstruction
    rw [hop]
    dsimp only
    rw [Operation.run_of_notice (m := m.behind i) hnotice]
    rfl
  case h_2 => cases hn

theorem record_of_no_notice (htoc : m.memory.toc = m.image.toc)
    (hn : m.image.notice? m.control.pc = none) : m.step.2.record = m.record := by
  rcases m.step_cases with ⟨o, _, hstep⟩ | ⟨_, ⟨cause, _, hstep⟩ | ⟨i, hi, hstep⟩⟩
  · rw [hstep]
  · rw [hstep]
    rfl
  · rw [hstep, record_conclude]
    unfold Image.notice? at hn
    rw [hi] at hn
    dsimp only at hn
    unfold executeInstruction
    cases hop : i.operation? with
    | none => rfl
    | some op =>
        rw [hop, ← htoc] at hn
        exact (Operation.record_of_no_notice (m := m.behind i) hn _).symm

theorem GivesRise.idle? (h : m.GivesRise d) : m.idle? = none := by
  cases hidle : m.idle? with
  | none => rfl
  | some o =>
      have hstep := step_eq m
      rw [hidle] at hstep
      have hexecuted := h.executed
      rw [hstep] at hexecuted
      exact absurd (Except.ok.inj hexecuted) (ne_executed_of_idle? hidle)

theorem GivesRise.unique {d' : Diagnostic} (h : m.GivesRise d) (h' : m.GivesRise d') : d' = d :=
  h'.notes.diagnostic_eq h.notes (h'.pc.symm.trans h.pc)

theorem record_of_givesRise (htoc : m.memory.toc = m.image.toc) (h : m.GivesRise d) :
    m.step.2.record = (m.note d).record := by
  have hnotice := Image.notice?_eq_some_iff.2 h.notes
  rw [← h.pc] at hnotice
  obtain ⟨i, hstep⟩ := step_of_notice htoc h.idle? hnotice
  rw [hstep, h.pc]
  unfold note
  by_cases hd : d ∈ m.seen
  · rw [if_pos hd, if_pos (show d ∈ (m.behind i).seen from hd)]
    rfl
  · rw [if_neg hd, if_neg (show d ∉ (m.behind i).seen from hd)]
    rfl

theorem record_of_not_givesRise (htoc : m.memory.toc = m.image.toc)
    (h : ∀ d, ¬ m.GivesRise d) : m.step.2.record = m.record := by
  cases hidle : m.idle? with
  | some o => rw [step_eq, hidle]
  | none =>
      cases hnotice : m.image.notice? m.control.pc with
      | none => exact record_of_no_notice htoc hnotice
      | some n =>
          obtain ⟨i, hstep⟩ := step_of_notice htoc hidle hnotice
          have hexecuted : m.step.1 = .ok .executed := by rw [hstep]
          exact absurd ⟨hexecuted, rfl, Image.notice?_eq_some_iff.1 hnotice⟩
            (h ⟨m.control.pc, n⟩)

end Machine

/-! ### Runs -/

def Interaction.KeepsToc : Interaction R → Prop
  | changeMemory f => ∀ memory, (f memory).toc = memory.toc
  | _ => True

def Interaction.taken (m : Machine R) : Interaction R → List Diagnostic
  | takeDiagnostics => m.diagnostics.toList
  | _ => []

namespace Machine

variable {m : Machine R} {d : Diagnostic} {old : List Diagnostic}

/-- What holds of a machine after diagnostics have been taken: with those held, they are all that it
has seen, each once, and each is what the image says of its place. -/
structure Recorded (m : Machine R) (old : List Diagnostic) : Prop where
  toc : m.memory.toc = m.image.toc
  seen : m.seen.reverse = old ++ m.diagnostics.toList
  nodup : m.seen.Nodup
  notes : ∀ d ∈ m.seen, m.image.Notes d.pc d.notice

/-- Only the table of contents, the image and the record count. -/
theorem Recorded.congr {m' : Machine R} (h : m.Recorded old) (htoc : m'.memory.toc = m.memory.toc)
    (himage : m'.image = m.image) (hrecord : m'.record = m.record) : m'.Recorded old := by
  obtain ⟨hdiagnostics, hseen⟩ := Prod.mk.inj hrecord
  constructor
  case toc => rw [htoc, himage, h.toc]
  case seen => rw [hseen, hdiagnostics, h.seen]
  case nodup => rw [hseen]; exact h.nodup
  case notes => rw [hseen, himage]; exact h.notes

theorem Recorded.note (h : m.Recorded old) (hd : m.image.Notes d.pc d.notice) :
    (m.note d).Recorded old := by
  unfold Machine.note
  split
  case isTrue => exact h
  case isFalse hnew =>
    constructor
    case toc => exact h.toc
    case seen => simp [h.seen]
    case nodup => exact List.nodup_cons.2 ⟨hnew, h.nodup⟩
    case notes => exact List.forall_mem_cons.2 ⟨hd, h.notes⟩

variable [Robot R]

def taken (m : Machine R) : List (Interaction R) → List Diagnostic
  | [] => []
  | a :: actions => a.taken m ++ (a.apply m).taken actions

def collected (m : Machine R) (actions : List (Interaction R)) : List Diagnostic :=
  m.taken actions ++ (m.after actions).diagnostics.toList

theorem Recorded.step (hrobot : Robot.KeepsToc R) (h : m.Recorded old) :
    m.step.2.Recorded old := by
  have htoc := toc_step hrobot m
  have himage := m.fixed_step.1
  by_cases hrise : ∃ d, m.GivesRise d
  · obtain ⟨d, hd⟩ := hrise
    have hsame : (m.note d).memory.toc = m.memory.toc ∧ (m.note d).image = m.image :=
      ⟨by rw [Exec.memory_note], congrArg Prod.fst (Exec.framed_note m d).symm⟩
    exact (h.note hd.notes).congr (htoc.trans hsame.1.symm) (himage.trans hsame.2.symm)
      (record_of_givesRise h.toc hd)
  · exact h.congr htoc himage (record_of_not_givesRise h.toc (not_exists.1 hrise))

theorem Recorded.apply (hrobot : Robot.KeepsToc R) (h : m.Recorded old) {a : Interaction R}
    (ha : a.KeepsToc) : (a.apply m).Recorded (old ++ a.taken m) := by
  have hnothing : old = old ++ [] := (List.append_nil old).symm
  cases a with
  | step => exact hnothing ▸ h.step hrobot
  | changeMemory f => exact hnothing ▸ h.congr (ha m.memory) rfl rfl
  | changeClock f | changeRobot f => exact hnothing ▸ h.congr rfl rfl rfl
  | takeDiagnostics =>
      constructor
      case toc => exact h.toc
      case seen => exact h.seen.trans (List.append_nil _).symm
      case nodup => exact h.nodup
      case notes => exact h.notes

theorem Recorded.after (hrobot : Robot.KeepsToc R) (h : m.Recorded old)
    {actions : List (Interaction R)} (hactions : ∀ a ∈ actions, a.KeepsToc) :
    (m.after actions).Recorded (old ++ m.taken actions) := by
  induction actions generalizing m old with
  | nil => exact (List.append_nil old).symm ▸ h
  | cons a actions ih =>
      obtain ⟨ha, hrest⟩ := List.forall_mem_cons.1 hactions
      rw [taken, ← List.append_assoc]
      exact ih (h.apply hrobot ha) hrest

/-! A diagnostic is seen if there was a step that gave rise to it. -/

theorem mem_seen_step (htoc : m.memory.toc = m.image.toc) :
    d ∈ m.step.2.seen ↔ m.GivesRise d ∨ d ∈ m.seen := by
  by_cases hrise : ∃ d', m.GivesRise d'
  · obtain ⟨d', hd'⟩ := hrise
    have hseen : m.step.2.seen = (m.note d').seen :=
      congrArg Prod.snd (record_of_givesRise htoc hd')
    have hunique : m.GivesRise d ↔ d = d' := ⟨hd'.unique, fun h => h ▸ hd'⟩
    rw [hseen, hunique]
    unfold note
    split
    case isTrue hold => exact (or_iff_right_of_imp fun h => h ▸ hold).symm
    case isFalse => exact List.mem_cons
  · have hseen : m.step.2.seen = m.seen :=
      congrArg Prod.snd (record_of_not_givesRise htoc (not_exists.1 hrise))
    rw [hseen, or_iff_right (not_exists.1 hrise d)]

theorem mem_seen_after (hrobot : Robot.KeepsToc R) (h : m.Recorded old)
    {actions : List (Interaction R)} (hactions : ∀ a ∈ actions, a.KeepsToc) :
    d ∈ (m.after actions).seen ↔ d ∈ m.seen ∨
      ∃ before rest, actions = before ++ .step :: rest ∧ (m.after before).GivesRise d := by
  induction actions generalizing m old with
  | nil => simp [after]
  | cons a actions ih =>
      obtain ⟨ha, hrest⟩ := List.forall_mem_cons.1 hactions
      have hfirst : d ∈ (a.apply m).seen ↔ d ∈ m.seen ∨ (a = .step ∧ m.GivesRise d) := by
        cases a with
        | step =>
            change d ∈ m.step.2.seen ↔ _
            rw [mem_seen_step h.toc, or_comm, eq_self, true_and]
        | changeClock | changeMemory | changeRobot | takeDiagnostics =>
            exact (or_iff_left fun hstep => nomatch hstep.1).symm
      rw [after, ih (h.apply hrobot ha) hrest, hfirst, or_assoc]
      apply or_congr_right
      -- the step in question is the first of the interactions, or it is among the others
      constructor
      · rintro (⟨rfl, hd⟩ | ⟨before, rest, rfl, hd⟩)
        · exact ⟨[], actions, rfl, hd⟩
        · exact ⟨a :: before, rest, rfl, hd⟩
      · rintro ⟨_ | ⟨b, before⟩, rest, hsplit, hd⟩
        · exact Or.inl ⟨(List.cons.inj hsplit).1, hd⟩
        · obtain ⟨rfl, hlater⟩ := List.cons.inj hsplit
          exact Or.inr ⟨before, rest, hlater, hd⟩

theorem recorded_start {R : Type} {m : Machine R} {image : Image} {robot : R} {clock : Clock}
    (h : start image robot clock = .ok m) : m.Recorded [] ∧ m.image = image ∧ m.seen = [] := by
  obtain ⟨memory, hload, rfl⟩ := start_eq_ok_iff.1 h
  obtain ⟨_, _, _, _, hmemory⟩ := Memory.load_eq_ok_iff.1 hload
  refine ⟨⟨?_, rfl, List.nodup_nil, List.forall_mem_nil _⟩, rfl, rfl⟩
  rw [fresh, hmemory]

/-- From a start on, and a reset is one, no two diagnostics that are collected have the same place,
whatever the machine and its host do and whenever diagnostics are taken. There are as many as there
are words of code at most. Each stands for an instruction in the code that the image says is noted,
in the only way in which that place can be noted. Those that are collected are exactly those that a
step has given rise to. -/
theorem one_diagnostic_per_place {image : Image} {robot : R} {clock : Clock}
    (hrobot : Robot.KeepsToc R) (hstart : start image robot clock = .ok m)
    {actions : List (Interaction R)} (hactions : ∀ a ∈ actions, a.KeepsToc) :
    ((m.collected actions).map Diagnostic.pc).Nodup ∧
    (m.collected actions).length ≤ image.code.size ∧
    (∀ d ∈ m.collected actions, d.pc < image.code.size ∧
      (∃ i, Instruction.decode image.code d.pc = .ok i) ∧
      image.Notes d.pc d.notice ∧ ∀ n, image.Notes d.pc n → n = d.notice) ∧
    ∀ d, d ∈ m.collected actions ↔
      ∃ before rest, actions = before ++ .step :: rest ∧ (m.after before).GivesRise d := by
  obtain ⟨hrecorded, himage, hseen⟩ := recorded_start hstart
  have hafter := hrecorded.after hrobot hactions
  have hcollected : m.collected actions = (m.after actions).seen.reverse := hafter.seen.symm
  have hmem (d : Diagnostic) : d ∈ m.collected actions ↔ d ∈ (m.after actions).seen := by
    rw [hcollected, List.mem_reverse]
  have hnotes : ∀ d ∈ m.collected actions, image.Notes d.pc d.notice := by
    intro d hd
    have hd := hafter.notes d ((hmem d).1 hd)
    rwa [image_after, himage] at hd
  have hplaces : ((m.collected actions).map Diagnostic.pc).Nodup := by
    have hnodup : (m.collected actions).Nodup := hcollected ▸ List.nodup_reverse.2 hafter.nodup
    exact (List.nodup_map_iff_inj_on hnodup).2 fun d hd d' hd' hpc =>
      (hnotes d hd).diagnostic_eq (hnotes d' hd') hpc
  refine ⟨hplaces, ?_, ?_, ?_⟩
  · have hinside : (m.collected actions).map Diagnostic.pc ⊆ List.range image.code.size := by
      intro pc hpc
      obtain ⟨d, hd, rfl⟩ := List.mem_map.1 hpc
      exact List.mem_range.2 (hnotes d hd).lt_size
    simpa using (hplaces.subperm hinside).length_le
  · intro d hd
    exact ⟨(hnotes d hd).lt_size, (hnotes d hd).decodes, hnotes d hd,
      fun n hn => hn.unique (hnotes d hd)⟩
  · intro d
    rw [hmem, mem_seen_after hrobot hrecorded hactions, hseen]
    exact or_iff_right List.not_mem_nil

/-- A program that goes round in circles through an opcode that is not supported and two moves
between an array and a number. -/
def idleLoop : Image :=
  (({ dataspace := (({} : Dataspace).array .ubyte [1]).scalar .slong 2 } : Program)
    |>.addClump (assemble [.long .strCat 0 [0, 2], .mov 2 0, .movShort 0 2, .jmp 65528]) []
      0).toImage

def startOfIdleLoop : Machine HeadlessRobot where
  image := idleLoop
  memory :=
    ⟨idleLoop.toc, #[1, 0, 2, 0, 0, 0],
      #[⟨⟨6, 10, 2, 0, 1⟩, #[]⟩, ⟨⟨26, 1, 1, 0, 0xFFFF⟩, #[1]⟩], [0, 2]⟩
  control := {}
  halted := false
  robot := .ofSensors []
  clock := .driven 0
  diagnostics := #[]
  seen := []

def roundsOfIdleLoop : List (Interaction HeadlessRobot) :=
  [.step, .step, .takeDiagnostics, .step, .step, .step, .takeDiagnostics, .step, .step, .step,
    .changeClock (·.put 9), .step]

theorem idleLoop_diagnostics :
    (startOfIdleLoop.after [.step, .takeDiagnostics, .step]).reset = .ok startOfIdleLoop ∧
    startOfIdleLoop.collected roundsOfIdleLoop
      = [⟨0, .unsupportedOpcode .strCat⟩, ⟨3, .compositeMove .slong .array⟩,
        ⟨6, .compositeMove .array .slong⟩] ∧
    (startOfIdleLoop.collected roundsOfIdleLoop).length ≤ idleLoop.code.size ∧
    ∀ n, idleLoop.Notes 6 n → n = .compositeMove .array .slong := by
  have hreset : (startOfIdleLoop.after [.step, .takeDiagnostics, .step]).reset
      = .ok startOfIdleLoop := rfl
  have hactions : ∀ a ∈ roundsOfIdleLoop, a.KeepsToc := by
    simp [roundsOfIdleLoop, Interaction.KeepsToc]
  have hcollected : startOfIdleLoop.collected roundsOfIdleLoop
      = [⟨0, .unsupportedOpcode .strCat⟩, ⟨3, .compositeMove .slong .array⟩,
        ⟨6, .compositeMove .array .slong⟩] := by decide +kernel
  obtain ⟨_, hlength, hnotes, _⟩ :=
    one_diagnostic_per_place HeadlessRobot.keepsToc hreset hactions
  have hmem : ⟨6, .compositeMove .array .slong⟩ ∈ startOfIdleLoop.collected roundsOfIdleLoop := by
    simp [hcollected]
  exact ⟨hreset, hcollected, hlength, (hnotes _ hmem).2.2.2⟩

end Machine

end BrickMachine
