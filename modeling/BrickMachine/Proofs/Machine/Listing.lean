import BrickMachine.Proofs.Code.Listing
import BrickMachine.Proofs.Code.Operands
import BrickMachine.Proofs.Machine.Control

/-!
# What a listing says about execution

A listing is made without executing anything, but a machine that stands at the place of a line does
what the line shows. Where no instruction can be decoded it halts for the reason shown. A branch
goes to the target shown, or on to the next line, unless one of its operands cannot be read or it
has no comparison. Any other instruction that is no call and no return goes on to the next line.
`Line.Foretells` collects this.
-/

namespace BrickMachine

def Opcode.transfers : Opcode → Bool
  | subCall | subRet => true
  | op => op.isBranch

def Operation.transfers : Operation → Bool
  | jump .. | branchCompare .. | branchTest .. | call .. | ret .. => true
  | _ => false

theorem Operation.map_transfers (op : Opcode) (flags : UInt8) (ws : List UInt16) :
    (Operation.of? op flags ws).map Operation.transfers
      = (Operation.of? op flags ws).map fun _ => op.transfers := by
  rcases ws with _ | ⟨a, _ | ⟨b, _ | ⟨c, _ | ⟨d, ws⟩⟩⟩⟩ <;> cases op <;> rfl

theorem Instruction.transfers_operation {i : Instruction} {op : Operation}
    (h : i.operation? = some op) : op.transfers = i.opcode.transfers := by
  have hmap := Operation.map_transfers i.opcode i.flags i.operands
  rw [show Operation.of? i.opcode i.flags i.operands = some op from h] at hmap
  exact Option.some.inj hmap

/-- All other operations stay behind their instruction. -/
theorem Operation.Steers.pc_eq {R : Type} {m m' : Machine R} {pc : Nat} {op : Operation}
    (h : op.Steers pc m m') (hop : op.transfers = false) : m'.control.pc = m.control.pc := by
  cases op with
  | jump | branchCompare | branchTest | call | ret => cases hop
  | wait duration =>
      obtain ⟨v, _, hcontrol⟩ := h
      rw [hcontrol]
  | _ => exact congrArg Control.pc h

namespace Comparison

theorem symbol_ne (c : Comparison) : c.symbol ≠ "?" := by
  cases c <;> decide

end Comparison

namespace Instruction

variable {i : Instruction} {pc : Nat} {t : Int}

/-- The parts of an instruction that is shown with a branch target. -/
theorem of_branchTarget? (h : i.branchTarget? pc = some t) :
    i.opcode.isBranch = true ∧ ∃ w ws, i.operands = w :: ws ∧ t = pc + signedWord w := by
  unfold branchTarget? at h
  split at h
  case isTrue hbranch =>
    obtain ⟨w, hw, rfl⟩ := Option.map_eq_some_iff.1 h
    obtain ⟨ws, hws⟩ := List.head?_eq_some_iff.1 hw
    exact ⟨hbranch, w, ws, hws, rfl⟩
  case isFalse => cases h

theorem isBranch_eq_false_of_branchTarget? (h : i.branchTarget? pc = none)
    (hmin : i.opcode.minOperands ≤ i.operands.length) : i.opcode.isBranch = false := by
  cases hbranch : i.opcode.isBranch with
  | false => rfl
  | true =>
      rw [branchTarget?, if_pos hbranch, Option.map_eq_none_iff, List.head?_eq_none_iff] at h
      rw [h] at hmin
      have hpos : 0 < i.opcode.minOperands := by
        cases hop : i.opcode <;> rw [hop] at hbranch <;> first | decide | cases hbranch
      exact absurd hmin (Nat.not_le.2 hpos)

/-- A question mark stands for flags that select no comparison. -/
theorem comparisonSymbol?_eq_unknown_iff :
    i.comparisonSymbol? = some "?" ↔
      i.opcode.usesComparison = true ∧ Comparison.ofFlags? i.flags = none := by
  unfold comparisonSymbol?
  split
  case isTrue huses =>
    cases Comparison.ofFlags? i.flags with
    | none => simp [huses]
    | some c => simp [huses, c.symbol_ne]
  case isFalse huses => simp [huses]

theorem comparisonSymbol?_ne_unknown {c : Comparison} (h : Comparison.ofFlags? i.flags = some c) :
    i.comparisonSymbol? ≠ some "?" := by
  intro hunknown
  have hnone := (comparisonSymbol?_eq_unknown_iff.1 hunknown).2
  rw [h] at hnone
  cases hnone

end Instruction

/-! ### Branches -/

inductive Instruction.Branches {R : Type} (i : Instruction) (pc : Nat) (t : Int) (m : Machine R) :
    Except Machine.Error Unit × Machine R → Prop where
  | unknown (h : i.comparisonSymbol? = some "?") :
      Branches i pc t m (.error (.unknownComparison pc i.flags), m)
  | unreadable (hc : i.comparisonSymbol? ≠ some "?") (w : UInt16) (hw : w ∈ i.operands)
      (e : MemoryError) (h : m.memory.scalar w.toNat = .error e) :
      Branches i pc t m (.error (.memory e), m)
  | passes (hc : i.comparisonSymbol? ≠ some "?") (h : i.opcode ≠ .jmp) :
      Branches i pc t m (.ok (), m)
  | goes (hc : i.comparisonSymbol? ≠ some "?") (h : 0 ≤ t) :
      Branches i pc t m (.ok (), { m with control := { m.control with pc := t.toNat } })
  | strays (hc : i.comparisonSymbol? ≠ some "?") (h : t < 0) :
      Branches i pc t m (.error (.branchTarget pc t), m)

namespace Exec

variable {R α : Type}

theorem run_comparison_bind (pc : Nat) (flags : UInt8) (f : Comparison → Exec R α)
    (m : Machine R) :
    (comparison pc flags >>= f).run m =
      match Comparison.ofFlags? flags with
      | some c => (f c).run m
      | none => (.error (.unknownComparison pc flags), m) := by
  unfold comparison
  rw [Keeps.run_bind]
  cases Comparison.ofFlags? flags <;> rfl

theorem run_ask_bind {β : Type} (q : Memory → Except MemoryError β) (f : β → Exec R α)
    (m : Machine R) :
    (ask q >>= f).run m =
      match q m.memory with
      | .ok a => (f a).run m
      | .error e => (.error (.memory e), m) := by
  have hask : (ask q).run m = ((q m.memory).mapError .memory, m) := rfl
  rw [Keeps.run_bind, hask]
  cases q m.memory <;> rfl

theorem run_scalar_bind (e : UInt16) (f : Int32 → Exec R α) (m : Machine R) :
    (scalar e >>= f).run m =
      match m.memory.scalar e.toNat with
      | .ok v => (f v).run m
      | .error err => (.error (.memory err), m) := by
  refine (run_ask_bind (·.scalar e.toNat) f m).trans ?_
  cases m.memory.scalar e.toNat <;> rfl

theorem branches_branch {i : Instruction} (hc : i.comparisonSymbol? ≠ some "?") (pc : Nat)
    (offset : Int) (m : Machine R) : i.Branches pc (pc + offset) m ((branch pc offset).run m) := by
  unfold branch
  dsimp only
  split
  case isTrue hneg => exact .strays hc hneg
  case isFalse hnonneg => exact .goes hc (Int.not_lt.1 hnonneg)

variable [Robot R]

theorem branches_branchCompare {i : Instruction} {lhs rhs : UInt16} (pc : Nat) (offset : Int)
    (hop : i.opcode = .brCmp) (hlhs : lhs ∈ i.operands) (hrhs : rhs ∈ i.operands)
    (m : Machine R) :
    i.Branches pc (pc + offset) m
      ((execute pc (.branchCompare i.flags offset lhs rhs)).run m) := by
  have huses : i.opcode.usesComparison = true := by
    rw [hop]
    rfl
  have hjump : i.opcode ≠ .jmp := by
    rw [hop]
    nofun
  unfold execute
  rw [run_comparison_bind]
  cases hflags : Comparison.ofFlags? i.flags with
  | none => exact .unknown (Instruction.comparisonSymbol?_eq_unknown_iff.2 ⟨huses, hflags⟩)
  | some c =>
      have hc : i.comparisonSymbol? ≠ some "?" := Instruction.comparisonSymbol?_ne_unknown hflags
      dsimp only
      rw [run_scalar_bind]
      cases ha : m.memory.scalar lhs.toNat with
      | error e => exact .unreadable hc lhs hlhs e ha
      | ok a =>
          dsimp only
          rw [run_scalar_bind]
          cases hb : m.memory.scalar rhs.toNat with
          | error e => exact .unreadable hc rhs hrhs e hb
          | ok b =>
              dsimp only
              split
              · exact branches_branch hc pc offset m
              · exact .passes hc hjump

theorem branches_branchTest {i : Instruction} {src : UInt16} (pc : Nat) (offset : Int)
    (hop : i.opcode = .brTst) (hsrc : src ∈ i.operands) (m : Machine R) :
    i.Branches pc (pc + offset) m ((execute pc (.branchTest i.flags offset src)).run m) := by
  have huses : i.opcode.usesComparison = true := by
    rw [hop]
    rfl
  have hjump : i.opcode ≠ .jmp := by
    rw [hop]
    nofun
  unfold execute
  rw [run_comparison_bind]
  cases hflags : Comparison.ofFlags? i.flags with
  | none => exact .unknown (Instruction.comparisonSymbol?_eq_unknown_iff.2 ⟨huses, hflags⟩)
  | some c =>
      have hc : i.comparisonSymbol? ≠ some "?" := Instruction.comparisonSymbol?_ne_unknown hflags
      dsimp only
      rw [run_scalar_bind]
      cases ha : m.memory.scalar src.toNat with
      | error e => exact .unreadable hc src hsrc e ha
      | ok a =>
          dsimp only
          split
          · exact branches_branch hc pc offset m
          · exact .passes hc hjump

/-- What the instructions with a branch target do. -/
theorem branches_executeInstruction {i : Instruction} {pc : Nat} {t : Int}
    (htarget : i.branchTarget? pc = some t) (hmin : i.opcode.minOperands ≤ i.operands.length)
    (m : Machine R) : i.Branches pc t m ((Machine.executeInstruction pc i).run m) := by
  obtain ⟨hbranch, w, ws, hws, rfl⟩ := Instruction.of_branchTarget? htarget
  obtain ⟨opcode, flags, length, operands, short⟩ := i
  dsimp only at hbranch hws hmin
  subst hws
  cases opcode with
  | jmp =>
      have hc : Instruction.comparisonSymbol? ⟨.jmp, flags, length, w :: ws, short⟩ ≠ some "?" := by
        intro hsymbol
        cases hsymbol
      exact branches_branch hc pc _ m
  | brCmp =>
      rcases ws with _ | ⟨lhs, _ | ⟨rhs, ws⟩⟩
      · exact absurd hmin (of_decide_eq_false rfl)
      · exact absurd hmin (of_decide_eq_false rfl)
      · exact branches_branchCompare pc _ rfl (by simp) (by simp) m
  | brTst =>
      rcases ws with _ | ⟨src, ws⟩
      · exact absurd hmin (of_decide_eq_false rfl)
      · exact branches_branchTest pc _ rfl (by simp) m
  | _ => cases hbranch

end Exec

/-! ### Steps -/

namespace Machine

variable {R : Type} [Robot R] {m : Machine R}

structure StandsAt (code : Array UInt16) (pc : Nat) (m : Machine R) : Prop where
  code : m.image.code = code
  pc : m.control.pc = pc
  running : m.halted = false
  ready : m.isWaiting = false

variable {code : Array UInt16} {pc : Nat}

theorem StandsAt.step_eq (h : m.StandsAt code pc) (hpc : pc < code.size) : m.step = m.attempt := by
  have hunfinished : m.isFinished = false := by
    rw [isFinished, h.code, h.pc]
    exact decide_eq_false (Nat.not_le.2 hpc)
  rw [Machine.step_eq, idle?_eq_none_iff.2 ⟨h.running, hunfinished, h.ready⟩]

end Machine

/-- What a line shows is what a machine at its place does in its next step. -/
structure Line.Foretells {R : Type} [Robot R] (l : Line) (m : Machine R) : Prop where
  /-- Where no instruction can be decoded, the reason is the text of a fatal error. -/
  error (text : String) : l.error? = some text →
    ∃ e, e.isFatal = true ∧ e.message = text ∧ m.step = (.error e, { m with halted := true })
  /-- A question mark is shown exactly for a branch that fails for want of a comparison. -/
  unknown (t : Int) : l.target? = some t →
    ((∃ flags, m.step.1 = .error (.unknownComparison l.pc flags)) ↔ l.comparison? = some "?")
  /-- If a branch has a comparison and can read its operands, it goes on to the next line, which
  a jump never does, or to its target, which must not lie before the code. -/
  branch (t : Int) (i : Instruction) : l.target? = some t → l.content = .ok i →
    (∃ flags, m.step.1 = .error (.unknownComparison l.pc flags)) ∨
    (∃ w ∈ i.operands, ∃ e, m.memory.scalar w.toNat = .error e ∧
      m.step.1 = .error (.memory e)) ∨
    (i.opcode ≠ .jmp ∧ m.step.1 = .ok .executed ∧
      m.step.2.control.pc = l.pc + l.words.length) ∨
    (0 ≤ t ∧ m.step.1 = .ok .executed ∧ (m.step.2.control.pc : Int) = t) ∨
    (t < 0 ∧ m.step.1 = .error (.branchTarget l.pc t))
  /-- No instruction without a target leaves for elsewhere, but for calls and returns. -/
  next (i : Instruction) : l.content = .ok i → l.target? = none → i.opcode ≠ .subCall →
    i.opcode ≠ .subRet → m.step.1 = .ok .executed →
    m.step.2.control.pc = l.pc + l.words.length

namespace Line

/-- Only an instruction is shown with a target. -/
theorem exists_content {l : Line} {t : Int} (h : l.target? = some t) :
    ∃ i, l.content = .ok i := by
  unfold target? at h
  cases hcontent : l.content with
  | ok i => exact ⟨i, rfl⟩
  | error cause =>
      rw [hcontent] at h
      cases h

namespace Shows

variable {R : Type} [Robot R] {code : Array UInt16} {l : Line} {m : Machine R}

theorem step_of_error {cause : DecodeError} (h : l.Shows code) (hm : m.StandsAt code l.pc)
    (hcontent : l.content = .error cause) :
    m.step = (.error (.undecodable l.pc cause), { m with halted := true }) := by
  have hdecode : Instruction.decode m.image.code m.control.pc = .error cause := by
    rw [hm.code, hm.pc, ← h.content, hcontent]
  rw [hm.step_eq h.inside, Machine.attempt, hdecode, hm.pc]
  rfl

theorem step_of_ok {i : Instruction} (h : l.Shows code) (hm : m.StandsAt code l.pc)
    (hcontent : l.content = .ok i) :
    m.step = Machine.conclude ((Machine.executeInstruction l.pc i).run (m.behind i)).1
      ((Machine.executeInstruction l.pc i).run (m.behind i)).2 := by
  have hdecode : Instruction.decode m.image.code m.control.pc = .ok i := by
    rw [hm.code, hm.pc, ← h.content, hcontent]
  rw [hm.step_eq h.inside, Machine.attempt, hdecode, hm.pc]

omit [Robot R] in
theorem pc_behind {i : Instruction} (h : l.Shows code) (hm : m.StandsAt code l.pc)
    (hcontent : l.content = .ok i) : (m.behind i).control.pc = l.pc + l.words.length := by
  rw [h.length_words, extent, hcontent, ← hm.pc]
  rfl

/-- A line with a target is a branch. -/
theorem branches {t : Int} {i : Instruction} (h : l.Shows code) (ht : l.target? = some t)
    (hcontent : l.content = .ok i) :
    i.Branches l.pc t (m.behind i) ((Machine.executeInstruction l.pc i).run (m.behind i)) := by
  have htarget : i.branchTarget? l.pc = some t := by
    rw [← ht, target?, hcontent]
    rfl
  have hmin : i.opcode.minOperands ≤ i.operands.length :=
    Instruction.minOperands_le_of_decode (h.content.symm.trans hcontent)
  exact Exec.branches_executeInstruction htarget hmin (m.behind i)

/-- Going on behind an instruction is going on to the next line. -/
theorem pc_of_executed {i : Instruction} {m' : Machine R} (h : l.Shows code)
    (hm : m.StandsAt code l.pc) (hcontent : l.content = .ok i)
    (htransfers : i.opcode.transfers = false) (hstep : m.step = (.ok .executed, m')) :
    m'.control.pc = l.pc + l.words.length := by
  obtain ⟨i', op, hi', hop, hsteers⟩ := Machine.steers_of_executed hstep
  have hi : i' = i := by
    rw [hm.code, hm.pc, ← h.content, hcontent] at hi'
    exact (Except.ok.inj hi').symm
  rw [hi] at hop hsteers
  rw [hsteers.pc_eq ((Instruction.transfers_operation hop).trans htransfers),
    h.pc_behind hm hcontent]

theorem foretells (h : l.Shows code) (hm : m.StandsAt code l.pc) : l.Foretells m where
  error text htext := by
    unfold Line.error? at htext
    split at htext
    · cases htext
    case h_2 cause hcontent =>
      cases htext
      exact ⟨.undecodable l.pc cause, rfl, rfl, h.step_of_error hm hcontent⟩
  unknown t ht := by
    obtain ⟨i, hcontent⟩ := exists_content ht
    have hcomparison : l.comparison? = i.comparisonSymbol? := by
      rw [comparison?, hcontent]
      rfl
    have hstep := h.step_of_ok hm hcontent
    have hruns := h.branches (m := m) ht hcontent
    generalize (Machine.executeInstruction l.pc i).run (m.behind i) = run at hstep hruns
    rw [hstep, hcomparison]
    cases hruns with
    | unknown hc => exact iff_of_true ⟨i.flags, rfl⟩ hc
    | unreadable hc | passes hc | goes hc | strays hc =>
        refine iff_of_false ?_ hc
        rintro ⟨flags, hflags⟩
        cases hflags
  branch t i ht hcontent := by
    have hstep := h.step_of_ok hm hcontent
    have hruns := h.branches (m := m) ht hcontent
    have hbehind := h.pc_behind hm hcontent
    generalize (Machine.executeInstruction l.pc i).run (m.behind i) = run at hstep hruns
    rw [hstep]
    cases hruns with
    | unknown => exact Or.inl ⟨i.flags, rfl⟩
    | unreadable _ w hw e he => exact Or.inr (Or.inl ⟨w, hw, e, he, rfl⟩)
    | passes _ hjump => exact Or.inr (Or.inr (Or.inl ⟨hjump, rfl, hbehind⟩))
    | goes _ hnonneg =>
        exact Or.inr (Or.inr (Or.inr (Or.inl ⟨hnonneg, rfl, Int.toNat_of_nonneg hnonneg⟩)))
    | strays _ hneg => exact Or.inr (Or.inr (Or.inr (Or.inr ⟨hneg, rfl⟩)))
  next i hcontent ht hcall hret hstep := by
    have hmin : i.opcode.minOperands ≤ i.operands.length :=
      Instruction.minOperands_le_of_decode (h.content.symm.trans hcontent)
    have htarget : i.branchTarget? l.pc = none := by
      rw [← ht, target?, hcontent]
      rfl
    have htransfers : i.opcode.transfers = false := by
      unfold Opcode.transfers
      split
      case h_1 hop => exact absurd hop hcall
      case h_2 hop => exact absurd hop hret
      · exact Instruction.isBranch_eq_false_of_branchTarget? htarget hmin
    exact h.pc_of_executed hm hcontent htransfers (Prod.ext hstep rfl)

end Shows

end Line

/-- A listing of any code goes through it word for word and shows what a machine would do at each
place where a line begins. -/
theorem listing_foretells (R : Type) [Robot R] (code : Array UInt16) :
    (listing code).flatMap Line.words = code.toList ∧
    (∀ before l after, listing code = before ++ l :: after →
      l.pc = (before.map (·.words.length)).sum) ∧
    ∀ l ∈ listing code, 0 < l.words.length ∧
      ∀ m : Machine R, m.StandsAt code l.pc → l.Foretells m := by
  refine ⟨(sweeps_listing code).flatMap_words, ?_, ?_⟩
  · intro before l after hlines
    rw [(sweeps_listing code).pc_eq hlines, Nat.zero_add]
  · intro l hl
    have hshows : l.Shows code := (sweeps_listing code).shows_of_mem hl
    have hpos : 0 < l.words.length := by
      rw [hshows.length_words]
      exact hshows.extent_pos
    exact ⟨hpos, fun m hm => hshows.foretells hm⟩

/-- A word that is no instruction, a branch whose flags select no comparison, and a jump to before
the code. -/
def strayCode : Array UInt16 := #[0x00FF, 0x6727, 5, 0, 0x4025, 0xFFF8]

def atStrayCode (pc : Nat) : Machine HeadlessRobot where
  image := ({} : Dataspace).toImage #[] strayCode
  memory := ⟨#[], #[], #[], []⟩
  control := { pc := pc }
  halted := false
  robot := .ofSensors []
  clock := .driven 0
  diagnostics := #[]
  seen := []

theorem strayCode_foretold :
    listing strayCode =
      [⟨0, [0x00FF], .error (.malformed .emptyInstruction)⟩,
        ⟨1, [0x6727, 5, 0], .ok ⟨.brTst, 7, 3, [5, 0], false⟩⟩,
        ⟨4, [0x4025, 0xFFF8], .ok ⟨.jmp, 0, 2, [0xFFF8], false⟩⟩] ∧
    (∃ e, e.isFatal = true ∧
      e.message = "malformed instruction at pc 0: zero instruction length" ∧
      (atStrayCode 0).step = (.error e, { atStrayCode 0 with halted := true })) ∧
    (∃ flags, (atStrayCode 1).step.1 = .error (.unknownComparison 1 flags)) ∧
    (atStrayCode 4).step.1 = .error (.branchTarget 4 (-4)) := by
  have hlisting : listing strayCode =
      [⟨0, [0x00FF], .error (.malformed .emptyInstruction)⟩,
        ⟨1, [0x6727, 5, 0], .ok ⟨.brTst, 7, 3, [5, 0], false⟩⟩,
        ⟨4, [0x4025, 0xFFF8], .ok ⟨.jmp, 0, 2, [0xFFF8], false⟩⟩] := by
    cbv
  obtain ⟨_, _, hlines⟩ := listing_foretells HeadlessRobot strayCode
  simp only [hlisting, List.forall_mem_cons] at hlines
  obtain ⟨⟨_, hfirst⟩, ⟨_, hsecond⟩, _⟩ := hlines
  refine ⟨hlisting, ?_, ?_, rfl⟩
  · exact (hfirst (atStrayCode 0) ⟨rfl, rfl, rfl, rfl⟩).error _ rfl
  · exact ((hsecond (atStrayCode 1) ⟨rfl, rfl, rfl, rfl⟩).unknown 6 rfl).2 rfl

end BrickMachine
