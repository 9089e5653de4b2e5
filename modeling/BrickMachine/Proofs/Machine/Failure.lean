import BrickMachine.Code.Assembly
import BrickMachine.Image.Dataspace
import BrickMachine.Proofs.Machine.Local
import BrickMachine.Proofs.Failure
import BrickMachine.Robot.Headless

/-!
# What a failed instruction leaves

A fatal error leaves the machine as the instruction found it. After a memory error the memory and
the robot may be others, since a part of the instruction may have been carried out; all the rest is
as it was, except that a return has taken its address off the call stack already.

Most operations never touch anything but memory and robot and never fail fatally: these are
`Mild`. The others are put together from mild parts, from questions, which change nothing, and from
a last change that cannot fail: they are `Orderly`. `AfterFault` says how the control after a memory
error is related to the control before.
-/

namespace BrickMachine

variable {R α β : Type}

/-- The control `c'` has gone back behind the latest call of `c`, but has the same clump. -/
def Control.Returns (c c' : Control) : Prop :=
  c.callStack = c'.pc :: c'.callStack ∧ c' = { c with pc := c'.pc, callStack := c'.callStack }

def Confined (m m' : Machine R) : Prop :=
  m' = { m with memory := m'.memory, robot := m'.robot }

instance : IsPreorder (Machine R) Confined where
  refl _ := rfl
  trans a b c h₁ h₂ := by
    unfold Confined at *
    rw [h₁] at h₂
    exact h₂

abbrev Framed : Machine R → Machine R → Prop :=
  InvImage (· = ·) fun m => (m.image, m.clock, m.halted)

theorem Confined.framed {m m' : Machine R} (h : Confined m m') : Framed m m' := by
  unfold Confined at h
  rw [h]
  exact rfl

/-- What an error leaves: the same machine if it is fatal, and otherwise a machine with a control
related by `q` and any memory and robot. -/
def Leaves (q : Control → Control → Prop) (e : Machine.Error) (m m' : Machine R) : Prop :=
  if e.isFatal then m' = m
  else q m.control m'.control ∧
    m' = { m with control := m'.control, memory := m'.memory, robot := m'.robot }

theorem Leaves.refl (e : Machine.Error) (m : Machine R) : Leaves (· = ·) e m m := by
  unfold Leaves
  split
  · rfl
  · exact ⟨rfl, rfl⟩

/-- A part of an instruction that changes memory and robot only and does not fail fatally. -/
structure Mild (x : Exec R α) : Prop where
  keeps : Keeps Confined x
  fails : FailsWithin (fun e _ _ => e.isFatal = false) x

/-- A part of an instruction whose memory errors leave a control related by `q`. -/
structure Orderly (q : Control → Control → Prop) (x : Exec R α) : Prop where
  keeps : Keeps Framed x
  fails : FailsWithin (Leaves q) x

variable {x : Exec R α} {f : α → Exec R β}

namespace Mild

theorem orderly (hx : Mild x) : Orderly (· = ·) x where
  keeps m := (hx.keeps m).framed
  fails := by
    intro m e m' h
    have hconfined := hx.keeps m
    rw [h] at hconfined
    unfold Leaves
    rw [hx.fails m e m' h, if_neg Bool.false_ne_true]
    have hcontrol : m.control = m'.control := (congrArg Machine.control hconfined).symm
    refine ⟨hcontrol, ?_⟩
    rw [← hcontrol]
    exact hconfined

end Mild

namespace Orderly

theorem throw {q : Control → Control → Prop} {e : Machine.Error} (he : e.isFatal = true) :
    Orderly q (MonadExcept.throw e : Exec R α) where
  keeps := Keeps.throw e
  fails := by
    intro m e' m' h
    cases h
    unfold Leaves
    rw [if_pos he]

/-- A question that may fail. -/
theorem of_reads (hx : Keeps (· = ·) x) : Orderly (· = ·) x where
  keeps m := congrArg (fun m : Machine R => (m.image, m.clock, m.halted)) (hx m)
  fails := FailsWithin.of_keeps hx fun e m _ h => h ▸ Leaves.refl e m

/-- What follows a question. -/
theorem bind (hx : Keeps (· = ·) x) (hf : ∀ a, Orderly (· = ·) (f a)) :
    Orderly (· = ·) (x >>= f) where
  keeps := Keeps.bind (of_reads hx).keeps fun a => (hf a).keeps
  fails := FailsWithin.bind_of_keeps hx Leaves.refl fun a => (hf a).fails

/-- A last change, which cannot fail. -/
theorem act {f : Machine R → Machine R} (hf : ∀ m, Framed m (f m)) :
    Orderly (· = ·) (Exec.act f) where
  keeps m := hf m
  fails := FailsWithin.of_ok fun m => ⟨(), f m, rfl⟩

/-- A last change after mild parts. -/
theorem bind_act {g : α → Machine R → Machine R} (hx : Mild x) (hg : ∀ a m, Framed m (g a m)) :
    Orderly (· = ·) (x >>= fun a => Exec.act (g a)) where
  keeps := Keeps.bind hx.orderly.keeps fun a => (act (hg a)).keeps
  fails := by
    -- the change itself adds no failure
    have hact : ∀ a, FailsWithin (fun _ _ _ => False) (Exec.act (g a)) :=
      fun a => FailsWithin.of_ok fun m => ⟨(), g a m, rfl⟩
    exact FailsWithin.bind hx.orderly.fails hx.keeps hact fun _ _ _ _ _ h => h.elim

end Orderly

/-! ### The parts of an instruction -/

namespace Exec

section Questions

/-! Questions keep every preorder, equality included. -/

variable {r : Machine R → Machine R → Prop} [IsPreorder (Machine R) r]

theorem keeps_ask (q : Memory → Except MemoryError α) : Keeps r (ask q : Exec R α) :=
  fun m => refl_of r m

theorem keeps_look (q : Machine R → α) : Keeps r (look q) :=
  fun m => refl_of r m

theorem keeps_scalar (e : UInt16) : Keeps r (scalar e : Exec R Int32) :=
  keeps_ask _

theorem keeps_index? (e : UInt16) : Keeps r (index? e : Exec R (Option Nat)) := by
  unfold index?
  split
  · exact Keeps.pure none
  · exact Keeps.bind (keeps_scalar e) fun _ => Keeps.pure _

theorem keeps_index (e : UInt16) : Keeps r (index e : Exec R Nat) :=
  Keeps.bind (keeps_index? e) fun _ => Keeps.pure _

theorem keeps_comparison (pc : Nat) (flags : UInt8) :
    Keeps r (comparison pc flags : Exec R Comparison) := by
  unfold comparison
  split
  · exact Keeps.pure _
  · exact Keeps.throw _

end Questions

/-- A result of memory is no fatal error. -/
theorem isFatal_of_mapError {r : Except MemoryError α} {e : Machine.Error}
    (h : r.mapError .memory = .error e) : e.isFatal = false := by
  cases r with
  | ok a => cases h
  | error e' =>
      cases h
      rfl

/-- A local part touches nothing else, and memory gives no fatal errors. -/
theorem Local.mild (hx : Local x) : Mild x := by
  obtain ⟨c, rfl⟩ := hx
  constructor
  · intro m
    rfl
  · intro m e m' h
    exact isFatal_of_mapError (congrArg Prod.fst h)

/-! ### Moves -/

theorem framed_note (m : Machine R) (d : Diagnostic) : Framed m (m.note d) := by
  unfold Machine.note
  split <;> rfl

theorem orderly_move (pc : Nat) (dst src : UInt16) :
    Orderly (· = ·) (move pc dst src : Exec R Unit) := by
  refine Orderly.bind (keeps_ask _) fun dstType => Orderly.bind (keeps_ask _) fun srcType => ?_
  split
  · exact (local_change _).mild.orderly
  · split
    · exact ((local_scalar src).bind fun v => local_setScalar dst v).mild.orderly
    · exact Orderly.act fun m => framed_note m _

/-! ### Control -/

theorem orderly_branch (pc : Nat) (offset : Int) :
    Orderly (· = ·) (branch pc offset : Exec R Unit) := by
  unfold branch
  dsimp only
  split
  · exact Orderly.throw rfl
  · exact Orderly.act fun _ => rfl

theorem orderly_call (pc : Nat) (clump slot : UInt16) :
    Orderly (· = ·) (call pc clump slot : Exec R Unit) := by
  refine Orderly.bind (keeps_look _) fun target => ?_
  cases target with
  | none => exact Orderly.throw rfl
  | some c =>
      refine Orderly.bind (keeps_look _) fun caller => ?_
      exact Orderly.bind_act (local_setScalar slot _).mild fun _ _ => rfl

theorem orderly_wait (duration : UInt16) : Orderly (· = ·) (wait duration : Exec R Unit) :=
  Orderly.bind_act (local_scalar duration).mild fun _ _ => rfl

/-- A return that cannot read the caller's slot has returned nevertheless. -/
theorem orderly_ret (pc : Nat) (slot : UInt16) :
    Orderly Control.Returns (ret pc slot : Exec R Unit) where
  keeps := by
    refine Keeps.bind (keeps_look _) fun stack => ?_
    cases stack with
    | nil => exact Keeps.throw _
    | cons address rest =>
        refine Keeps.bind (fun _ => rfl) fun _ => ?_
        exact Keeps.bind (keeps_scalar slot) fun _ _ => rfl
  fails := by
    intro m e m' h
    obtain ⟨stack, m₀, hlook, h⟩ := (Keeps.run_bind_error_iff.1 h).resolve_left nofun
    obtain ⟨hstack, rfl⟩ : m.control.callStack = stack ∧ m = m₀ := by
      cases hlook
      exact ⟨rfl, rfl⟩
    cases stack with
    | nil =>
        cases h
        rfl
    | cons address rest =>
        -- the address is off the stack before the slot is read
        obtain ⟨_, m₁, hpop, h⟩ := (Keeps.run_bind_error_iff.1 h).resolve_left nofun
        cases hpop
        rcases Keeps.run_bind_error_iff.1 h with hread | ⟨_, _, _, hact⟩
        · have hsame := keeps_scalar (r := (· = ·)) slot
            { m with control := { m.control with pc := address, callStack := rest } }
          rw [hread] at hsame
          obtain rfl : _ = m' := hsame
          unfold Leaves
          rw [(local_scalar slot).mild.fails _ e _ hread, if_neg Bool.false_ne_true]
          exact ⟨⟨hstack, rfl⟩, rfl⟩
        · cases hact

end Exec

/-! ### Operations -/

def Operation.AfterFault : Operation → Control → Control → Prop
  | ret _ => Control.Returns
  | _ => (· = ·)

theorem mild_execute [Robot R] {op : Operation} (h : op.isLocal = true) (pc : Nat) :
    Mild (execute pc op : Exec R Unit) := by
  obtain ⟨c, hc⟩ := local_execute (R := R) h
  exact Exec.Local.mild ⟨c, hc pc⟩

open Exec in
theorem orderly_execute [Robot R] (pc : Nat) (op : Operation) :
    Orderly op.AfterFault (execute pc op : Exec R Unit) := by
  cases op with
  | compare flags dst lhs rhs =>
      apply Orderly.bind (keeps_comparison pc flags)
      intro c
      exact ((local_scalar lhs).bind fun _ => (local_scalar rhs).bind fun _ =>
        local_setScalar dst _).mild.orderly
  | test flags dst src =>
      apply Orderly.bind (keeps_comparison pc flags)
      intro c
      exact ((local_scalar src).bind fun _ => local_setScalar dst _).mild.orderly
  | move dst src => exact orderly_move pc dst src
  | unsupported op => exact Orderly.act fun m => framed_note m _
  | jump offset => exact orderly_branch pc offset
  | branchCompare flags offset lhs rhs =>
      refine Orderly.bind (keeps_comparison pc flags) fun c => ?_
      refine Orderly.bind (keeps_scalar lhs) fun a => Orderly.bind (keeps_scalar rhs) fun b => ?_
      split
      · exact orderly_branch pc offset
      · exact (Local.pure ()).mild.orderly
  | branchTest flags offset src =>
      refine Orderly.bind (keeps_comparison pc flags) fun c => ?_
      refine Orderly.bind (keeps_scalar src) fun a => ?_
      split
      · exact orderly_branch pc offset
      · exact (Local.pure ()).mild.orderly
  | stop => exact Orderly.throw rfl
  | call clump slot => exact orderly_call pc clump slot
  | ret slot => exact orderly_ret pc slot
  | wait duration => exact orderly_wait duration
  | getTick dst => exact Orderly.bind (keeps_look _) fun _ => (local_setScalar dst _).mild.orderly
  | _ => exact Mild.orderly (mild_execute rfl pc)

def Opcode.AfterFault : Opcode → Control → Control → Prop
  | subRet => Control.Returns
  | _ => (· = ·)

theorem Operation.map_afterFault (op : Opcode) (flags : UInt8) (ws : List UInt16) :
    (Operation.of? op flags ws).map Operation.AfterFault
      = (Operation.of? op flags ws).map fun _ => op.AfterFault := by
  rcases ws with _ | ⟨a, _ | ⟨b, _ | ⟨c, _ | ⟨d, ws⟩⟩⟩⟩ <;> cases op <;> rfl

theorem Instruction.afterFault_operation {i : Instruction} {op : Operation}
    (h : i.operation? = some op) : op.AfterFault = i.opcode.AfterFault := by
  have hmap := Operation.map_afterFault i.opcode i.flags i.operands
  rw [show Operation.of? i.opcode i.flags i.operands = some op from h] at hmap
  exact Option.some.inj hmap

theorem Opcode.afterFault_of_ne {op : Opcode} (h : op ≠ .subRet) : op.AfterFault = (· = ·) := by
  cases op <;> first | rfl | exact absurd rfl h

/-- No memory error ends or begins a wait. -/
theorem Opcode.AfterFault.resumeAt {op : Opcode} {c c' : Control} (h : op.AfterFault c c') :
    c'.resumeAt = c.resumeAt := by
  by_cases hop : op = .subRet
  · subst hop
    rw [h.2]
  · rw [Opcode.afterFault_of_ne hop] at h
    rw [h]

namespace Machine

variable [Robot R] {m m' : Machine R}

theorem orderly_executeInstruction (pc : Nat) (i : Instruction) :
    Orderly i.opcode.AfterFault (executeInstruction pc i : Exec R Unit) := by
  unfold executeInstruction
  split
  case h_1 op hop =>
    rw [← Instruction.afterFault_operation hop]
    exact orderly_execute pc op
  case h_2 =>
    exact Orderly.throw rfl

/-! ### Steps -/

def behind (m : Machine R) (i : Instruction) : Machine R :=
  { m with control := { m.control with pc := m.control.pc + i.length } }

/-- What a step does that does not try to execute anything. -/
def idle? (m : Machine R) : Option StepOutcome :=
  if m.halted then some .halted
  else if m.isFinished then some .finished
  else if m.isWaiting then some (.waiting m.control.resumeAt)
  else none

def attempt (m : Machine R) : Except Error StepOutcome × Machine R :=
  match Instruction.decode m.image.code m.control.pc with
  | .error cause => conclude (.error (.undecodable m.control.pc cause)) m
  | .ok i =>
    conclude ((executeInstruction m.control.pc i).run (m.behind i)).1
      ((executeInstruction m.control.pc i).run (m.behind i)).2

theorem idle?_eq_none_iff {R : Type} {m : Machine R} :
    m.idle? = none ↔ m.halted = false ∧ m.isFinished = false ∧ m.isWaiting = false := by
  unfold idle?
  cases m.halted <;> cases m.isFinished <;> cases m.isWaiting <;> simp

theorem halted_of_idle? {R : Type} {m : Machine R} (h : m.idle? = some .halted) :
    m.halted = true := by
  unfold idle? at h
  split at h
  case isTrue hhalted => exact hhalted
  case isFalse =>
    split at h
    · cases h
    · split at h <;> cases h

theorem waiting_of_idle? {R : Type} {m : Machine R} {tick : UInt32}
    (h : m.idle? = some (.waiting tick)) : m.isWaiting = true ∧ tick = m.control.resumeAt := by
  unfold idle? at h
  split at h
  · cases h
  split at h
  · cases h
  split at h
  case isTrue hwaiting =>
    cases h
    exact ⟨hwaiting, rfl⟩
  case isFalse => cases h

theorem ne_executed_of_idle? {R : Type} {m : Machine R} {o : StepOutcome} (h : m.idle? = some o) :
    o ≠ .executed := by
  unfold idle? at h
  split at h
  · cases h
    nofun
  split at h
  · cases h
    nofun
  split at h <;> cases h
  nofun

theorem step_eq (m : Machine R) :
    m.step = match m.idle? with
      | some o => (.ok o, m)
      | none => m.attempt := by
  unfold step idle?
  split
  · rfl
  split
  · rfl
  split
  · rfl
  · rfl

/-- What a step can do: nothing; fail to decode an instruction; or carry one out. -/
theorem step_cases (m : Machine R) :
    (∃ o, o ≠ .executed ∧ m.step = (.ok o, m)) ∨
    m.halted = false ∧
      ((∃ cause, Instruction.decode m.image.code m.control.pc = .error cause ∧
          m.step = (.error (.undecodable m.control.pc cause), { m with halted := true })) ∨
        ∃ i, Instruction.decode m.image.code m.control.pc = .ok i ∧
          m.step = conclude ((executeInstruction m.control.pc i).run (m.behind i)).1
            ((executeInstruction m.control.pc i).run (m.behind i)).2) := by
  rw [step_eq]
  cases hidle : m.idle? with
  | some o => exact Or.inl ⟨o, ne_executed_of_idle? hidle, rfl⟩
  | none =>
      refine Or.inr ⟨(idle?_eq_none_iff.1 hidle).1, ?_⟩
      dsimp only
      unfold attempt
      split
      case h_1 cause hcause => exact Or.inl ⟨cause, hcause, rfl⟩
      case h_2 i hi => exact Or.inr ⟨i, hi, rfl⟩

theorem conclude_eq_ok {R : Type} {result : Except Error Unit} {m m' : Machine R} {o : StepOutcome}
    (h : conclude result m = (.ok o, m')) : result = .ok () ∧ o = .executed ∧ m' = m := by
  cases result with
  | ok =>
      cases h
      exact ⟨rfl, rfl, rfl⟩
  | error e => cases h

/-- A step that neither executes an instruction nor fails does nothing. -/
theorem idle?_of_step {o : StepOutcome} (h : m.step = (.ok o, m')) (ho : o ≠ .executed) :
    m.idle? = some o ∧ m' = m := by
  rw [step_eq] at h
  cases hidle : m.idle? with
  | some o' =>
      rw [hidle] at h
      cases h
      exact ⟨rfl, rfl⟩
  | none =>
      rw [hidle] at h
      change m.attempt = _ at h
      unfold attempt at h
      split at h
      · cases h
      · exact absurd (conclude_eq_ok h).2.1 ho

/-- A step that succeeds with an instruction has carried it out. -/
theorem of_step_executed (h : m.step = (.ok .executed, m')) :
    ∃ i, Instruction.decode m.image.code m.control.pc = .ok i ∧
      (executeInstruction m.control.pc i).run (m.behind i) = (.ok (), m') := by
  rcases m.step_cases with ⟨o, ho, hstep⟩ | ⟨_, ⟨cause, _, hstep⟩ | ⟨i, hi, hstep⟩⟩ <;>
    rw [hstep] at h
  · cases h
    exact absurd rfl ho
  · cases h
  · obtain ⟨hresult, _, hm⟩ := conclude_eq_ok h
    exact ⟨i, hi, Prod.ext hresult hm.symm⟩

/-- A machine that is able to run carries out the instruction at its place. -/
theorem step_of_decode {i : Instruction} (hidle : m.idle? = none)
    (hi : Instruction.decode m.image.code m.control.pc = .ok i) :
    m.step = conclude ((executeInstruction m.control.pc i).run (m.behind i)).1
      ((executeInstruction m.control.pc i).run (m.behind i)).2 := by
  rw [step_eq, hidle]
  dsimp only
  rw [attempt, hi]

/-- A step that fails has found no instruction, or one that failed. -/
theorem of_step_error {e : Error} (h : m.step = (.error e, m')) :
    m.halted = false ∧
      ((∃ cause, Instruction.decode m.image.code m.control.pc = .error cause ∧
          e = .undecodable m.control.pc cause) ∨
        ∃ i m₁, Instruction.decode m.image.code m.control.pc = .ok i ∧
          (executeInstruction m.control.pc i).run (m.behind i) = (.error e, m₁) ∧
          m' = if e.isFatal then { m₁ with halted := true } else m₁) := by
  rcases m.step_cases with ⟨o, _, hstep⟩ | ⟨hrunning, ⟨cause, hcause, hstep⟩ | ⟨i, hi, hstep⟩⟩ <;>
    rw [hstep] at h
  · cases h
  · cases h
    exact ⟨hrunning, Or.inl ⟨cause, hcause, rfl⟩⟩
  · rcases hrun : (executeInstruction m.control.pc i).run (m.behind i) with ⟨e' | _, m₁⟩ <;>
      rw [hrun] at h <;> cases h
    exact ⟨hrunning, Or.inr ⟨i, m₁, hi, hrun, rfl⟩⟩

/-- A step that fails with a memory error has executed an instruction, which left what it may. -/
theorem of_step_fault {e : MemoryError} (h : m.step = (.error (.memory e), m')) :
    m.halted = false ∧ ∃ i, Instruction.decode m.image.code m.control.pc = .ok i ∧
      (executeInstruction m.control.pc i).run (m.behind i) = (.error (.memory e), m') := by
  obtain ⟨hrunning, ⟨_, _, hcause⟩ | ⟨i, m₁, hi, hrun, hm⟩⟩ := of_step_error h
  · cases hcause
  · obtain rfl : m' = m₁ := hm
    exact ⟨hrunning, i, hi, hrun⟩

/-- After a memory error the machine runs on. The program counter stands behind the instruction,
unless that is a return, which has taken the latest address off the call stack and gone there; the
clump, the rest of the stack, a wait in effect and the diagnostics are as they were. -/
theorem control_of_fault {e : MemoryError} (h : m.step = (.error (.memory e), m')) :
    ∃ i, Instruction.decode m.image.code m.control.pc = .ok i ∧
      m'.halted = false ∧ m'.control.resumeAt = m.control.resumeAt ∧
      m'.diagnostics = m.diagnostics ∧ m'.seen = m.seen ∧
      (i.opcode ≠ .subRet → m'.control.pc = m.control.pc + i.length ∧
        m'.control.callStack = m.control.callStack ∧ m'.control.clump = m.control.clump) ∧
      (i.opcode = .subRet → m.control.callStack = m'.control.pc :: m'.control.callStack ∧
        m'.control.clump = m.control.clump) := by
  obtain ⟨hrunning, i, hi, hrun⟩ := of_step_fault h
  have hleaves : Leaves i.opcode.AfterFault (.memory e) (m.behind i) m' :=
    (orderly_executeInstruction m.control.pc i).fails _ _ _ hrun
  obtain ⟨hcontrol, hrest⟩ := hleaves
  have hkept : m'.halted = m.halted ∧ m'.diagnostics = m.diagnostics ∧ m'.seen = m.seen := by
    rw [hrest]
    exact ⟨rfl, rfl, rfl⟩
  refine ⟨i, hi, hkept.1.trans hrunning, hcontrol.resumeAt, hkept.2.1, hkept.2.2, ?_, ?_⟩
  · intro hop
    rw [Opcode.afterFault_of_ne hop] at hcontrol
    rw [← hcontrol]
    exact ⟨rfl, rfl, rfl⟩
  · intro hop
    rw [hop] at hcontrol
    obtain ⟨hstack, hsame⟩ := hcontrol
    refine ⟨hstack, ?_⟩
    rw [hsame]
    rfl

def running (program : List Statement) (memory : Memory) (control : Control) :
    Machine HeadlessRobot where
  image := ({} : Dataspace).toImage #[] (assemble program).toArray
  memory := memory
  control := control
  halted := false
  robot := .ofSensors []
  clock := .driven 0
  diagnostics := #[]
  seen := []

/-- A machine that is about to return from two calls, with a slot that does not exist. -/
def badReturn : Machine HeadlessRobot :=
  running [.subRet 7] ⟨#[], #[], #[], []⟩ { clump := 1, callStack := [9, 4] }

theorem control_of_badReturn :
    ∃ m', badReturn.step = (.error (.memory (.outOfRange .entry 7 0)), m') ∧
      m'.halted = false ∧ m'.control.pc = 9 ∧ m'.control.callStack = [4] ∧
      m'.control.clump = 1 := by
  refine ⟨_, rfl, ?_⟩
  obtain ⟨i, hi, hhalted, _, _, _, _, hreturn⟩ := control_of_fault (m := badReturn) rfl
  have hop : i.opcode = .subRet := by
    cases hi
    rfl
  obtain ⟨hstack, hclump⟩ := hreturn hop
  obtain ⟨hpc, hrest⟩ := List.cons.inj hstack
  exact ⟨hhalted, hpc.symm, hrest.symm, hclump⟩

end Machine

end BrickMachine
