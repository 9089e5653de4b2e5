import BrickMachine.Proofs.Code.Locality
import BrickMachine.Proofs.Machine.Halting
import Mathlib.Algebra.Ring.Nat

/-!
# Where control goes

Most operations leave the control as they find it, with the program counter behind their
instruction. The others branch, call, return or wait, and `Operation.Steers` says for every
operation what it does to the control when it succeeds.

For the call stack this leaves three kinds of steps: a step keeps the stack, it pushes the place
behind a SUBCALL, or it pops the place where a SUBRET goes on, and the last of these happens even if
the SUBRET ends in a memory error. What a host does between the steps keeps the whole control.

A machine is `Reachable` if it was started on an image and has since come through steps and
whatever a host may do, short of a reset.
-/

namespace BrickMachine

variable {R : Type} {m m' : Machine R}

def Control.Branches (pc : Nat) (offset : Int) (c c' : Control) : Prop :=
  0 ≤ pc + offset ∧ c' = { c with pc := (pc + offset).toNat }

def Operation.Steers (pc : Nat) (m m' : Machine R) : Operation → Prop
  | jump offset => m.control.Branches pc offset m'.control
  | branchCompare _ offset _ _ | branchTest _ offset _ =>
    m'.control = m.control ∨ m.control.Branches pc offset m'.control
  | call clump slot =>
    ∃ c, m.image.clumps[clump.toNat]? = some c ∧
      m.memory.setScalar slot.toNat (Int32.ofNat m.control.clump) = .ok m'.memory ∧
      m'.control =
        { m.control with
          pc := c.codeStart.toNat
          clump := clump.toNat
          callStack := m.control.pc :: m.control.callStack }
  | ret slot =>
    ∃ v, m.memory.scalar slot.toNat = .ok v ∧
      m.control.callStack = m'.control.pc :: m'.control.callStack ∧
      m'.control =
        { m.control with
          pc := m'.control.pc
          callStack := m'.control.callStack
          clump := v.toUInt32.toNat }
  | wait duration =>
    ∃ v, m.memory.scalar duration.toNat = .ok v ∧
      m'.control = { m.control with resumeAt := m.clock.deadline v.toInt.toNat }
  | _ => m'.control = m.control

def Control.SameCalls (c c' : Control) : Prop :=
  c'.callStack = c.callStack ∧ c'.clump = c.clump

/-- Only a call and a return touch the active calls and the clump. -/
theorem Operation.Steers.calls {pc : Nat} {op : Operation} (h : op.Steers pc m m') :
    m.control.SameCalls m'.control ∨ (∃ clump slot, op = .call clump slot) ∨
      ∃ slot, op = .ret slot := by
  have hkept (hcontrol : m'.control = m.control) : m.control.SameCalls m'.control := by
    rw [hcontrol]
    exact ⟨rfl, rfl⟩
  have hbranch {offset : Int} (hcontrol : m.control.Branches pc offset m'.control) :
      m.control.SameCalls m'.control := by
    rw [hcontrol.2]
    exact ⟨rfl, rfl⟩
  cases op with
  | call clump slot => exact Or.inr (Or.inl ⟨clump, slot, rfl⟩)
  | ret slot => exact Or.inr (Or.inr ⟨slot, rfl⟩)
  | jump offset => exact Or.inl (hbranch h)
  | branchCompare flags offset lhs rhs => exact Or.inl (h.elim hkept hbranch)
  | branchTest flags offset src => exact Or.inl (h.elim hkept hbranch)
  | wait duration =>
      obtain ⟨v, _, hcontrol⟩ := h
      rw [hcontrol]
      exact Or.inl ⟨rfl, rfl⟩
  | _ => exact Or.inl (hkept h)

abbrev SameControl : Machine R → Machine R → Prop :=
  InvImage (· = ·) Machine.control

theorem control_note (m : Machine R) (d : Diagnostic) : (m.note d).control = m.control := by
  unfold Machine.note
  split <;> rfl

/-! ### Operations -/

namespace Exec

variable {α : Type}

theorem Local.keeps_control {x : Exec R α} (hx : Local x) : Keeps SameControl x := by
  obtain ⟨c, rfl⟩ := hx
  intro m
  rfl

theorem keeps_control_move (pc : Nat) (dst src : UInt16) :
    Keeps SameControl (move pc dst src : Exec R Unit) := by
  refine Keeps.bind (keeps_ask _) fun dstType => Keeps.bind (keeps_ask _) fun srcType => ?_
  split
  · exact (local_change _).keeps_control
  · split
    · exact ((local_scalar src).bind fun v => local_setScalar dst v).keeps_control
    · intro m
      exact (control_note m _).symm

theorem branches_of_run {pc : Nat} {offset : Int} (h : (branch pc offset).run m = (.ok (), m')) :
    m.control.Branches pc offset m'.control := by
  unfold branch at h
  simp only at h
  split at h
  · cases h
  case isFalse hnonneg =>
    cases h
    exact ⟨Int.not_lt.1 hnonneg, rfl⟩

theorem steers_call {pc : Nat} {clump slot : UInt16}
    (h : (call pc clump slot).run m = (.ok (), m')) :
    (Operation.call clump slot).Steers pc m m' := by
  obtain ⟨target, m₁, hlook, h⟩ := Keeps.run_bind_ok_iff.1 h
  obtain ⟨htarget, rfl⟩ := run_look_ok_iff.1 hlook
  cases target with
  | none => cases h
  | some c =>
      obtain ⟨caller, m₂, hlook, h⟩ := Keeps.run_bind_ok_iff.1 h
      obtain ⟨rfl, rfl⟩ := run_look_ok_iff.1 hlook
      obtain ⟨_, m₃, hstore, h⟩ := Keeps.run_bind_ok_iff.1 h
      obtain ⟨hmemory, hm₃⟩ := of_run_setScalar hstore
      obtain rfl := run_act_ok_iff.1 h
      rw [hm₃]
      exact ⟨c, htarget, hmemory, rfl⟩

theorem steers_ret {pc : Nat} {slot : UInt16} (h : (ret pc slot).run m = (.ok (), m')) :
    (Operation.ret slot).Steers pc m m' := by
  obtain ⟨stack, m₁, hlook, h⟩ := Keeps.run_bind_ok_iff.1 h
  obtain ⟨hstack, rfl⟩ := run_look_ok_iff.1 hlook
  cases stack with
  | nil => cases h
  | cons address rest =>
      obtain ⟨_, m₂, hpop, h⟩ := Keeps.run_bind_ok_iff.1 h
      obtain rfl := run_act_ok_iff.1 hpop
      obtain ⟨v, m₃, hread, h⟩ := Keeps.run_bind_ok_iff.1 h
      obtain ⟨hv, rfl⟩ := run_ask_ok_iff.1 hread
      obtain rfl := run_act_ok_iff.1 h
      exact ⟨v, hv, hstack, rfl⟩

theorem steers_wait {pc : Nat} {duration : UInt16}
    (h : (wait duration).run m = (.ok (), m')) :
    (Operation.wait duration).Steers pc m m' := by
  obtain ⟨v, m₁, hread, hset⟩ := Keeps.run_bind_ok_iff.1 h
  obtain ⟨hv, rfl⟩ := run_ask_ok_iff.1 hread
  obtain rfl := run_act_ok_iff.1 hset
  exact ⟨v, hv, rfl⟩

/-- A question before the rest, and what the rest finds. -/
theorem of_run_bind_keeps {β : Type} {x : Exec R α} {f : α → Exec R β} {b : β}
    (hx : Keeps (· = ·) x) (h : (x >>= f).run m = (.ok b, m')) :
    ∃ a, x.run m = (.ok a, m) ∧ (f a).run m = (.ok b, m') := by
  obtain ⟨a, m₁, hrun, hrest⟩ := Keeps.run_bind_ok_iff.1 h
  have hsame := hx m
  rw [hrun] at hsame
  obtain rfl : m = m₁ := hsame
  exact ⟨a, hrun, hrest⟩

end Exec

theorem keeps_control_execute [Robot R] {op : Operation} (h : op.isLocal = true) (pc : Nat) :
    Keeps SameControl (execute pc op : Exec R Unit) := by
  obtain ⟨c, hc⟩ := local_execute (R := R) h
  exact Exec.Local.keeps_control ⟨c, hc pc⟩

open Exec in
theorem steers_execute [Robot R] {pc : Nat} {op : Operation}
    (h : (execute pc op).run m = (.ok (), m')) : op.Steers pc m m' := by
  have hkept (hkeeps : Keeps SameControl (execute pc op : Exec R Unit)) :
      m'.control = m.control := by
    have hsame := hkeeps m
    rw [h] at hsame
    exact Eq.symm hsame
  cases op with
  | compare flags dst lhs rhs =>
      refine hkept (Keeps.bind (keeps_comparison pc flags) fun c => ?_)
      exact ((local_scalar lhs).bind fun _ => (local_scalar rhs).bind fun _ =>
        local_setScalar dst _).keeps_control
  | test flags dst src =>
      refine hkept (Keeps.bind (keeps_comparison pc flags) fun c => ?_)
      exact ((local_scalar src).bind fun _ => local_setScalar dst _).keeps_control
  | move dst src => exact hkept (keeps_control_move pc dst src)
  | unsupported op => exact hkept fun m => (control_note m _).symm
  | jump offset => exact branches_of_run h
  | branchCompare flags offset lhs rhs =>
      obtain ⟨c, _, h⟩ := of_run_bind_keeps (keeps_comparison pc flags) h
      obtain ⟨a, _, h⟩ := of_run_bind_keeps (keeps_scalar lhs) h
      obtain ⟨b, _, h⟩ := of_run_bind_keeps (keeps_scalar rhs) h
      split at h
      · exact Or.inr (branches_of_run h)
      · cases h
        exact Or.inl rfl
  | branchTest flags offset src =>
      obtain ⟨c, _, h⟩ := of_run_bind_keeps (keeps_comparison pc flags) h
      obtain ⟨a, _, h⟩ := of_run_bind_keeps (keeps_scalar src) h
      split at h
      · exact Or.inr (branches_of_run h)
      · cases h
        exact Or.inl rfl
  | stop => cases h
  | call clump slot => exact steers_call h
  | ret slot => exact steers_ret h
  | wait duration => exact steers_wait h
  | getTick dst =>
      exact hkept (Keeps.bind (keeps_look _) fun _ => (local_setScalar dst _).keeps_control)
  | _ => exact hkept (keeps_control_execute rfl pc)

/-! ### Opcodes -/

namespace Instruction

variable {i : Instruction} {op : Operation}

theorem operation?_of_subCall (hi : i.opcode = .subCall) (h : i.operation? = some op) :
    ∃ clump slot, i.operands[1]? = some slot ∧ op = .call clump slot := by
  unfold operation? at h
  rw [hi] at h
  rcases hws : i.operands with _ | ⟨clump, _ | ⟨slot, rest⟩⟩ <;> rw [hws] at h <;> cases h
  exact ⟨clump, slot, rfl, rfl⟩

theorem operation?_of_subRet (hi : i.opcode = .subRet) (h : i.operation? = some op) :
    ∃ slot, i.operands[0]? = some slot ∧ op = .ret slot := by
  unfold operation? at h
  rw [hi] at h
  rcases hws : i.operands with _ | ⟨slot, rest⟩ <;> rw [hws] at h <;> cases h
  exact ⟨slot, rfl, rfl⟩

/-- No other opcode returns. -/
theorem subRet_of_operation? {slot : UInt16} (h : i.operation? = some (.ret slot)) :
    i.opcode = .subRet := by
  obtain ⟨opcode, flags, length, operands, short⟩ := i
  change Operation.of? opcode flags operands = some (.ret slot) at h
  rcases operands with _ | ⟨a, _ | ⟨b, _ | ⟨c, _ | ⟨d, rest⟩⟩⟩⟩ <;> cases opcode <;>
    first | rfl | cases h

end Instruction

namespace Machine

variable [Robot R]

/-! ### Steps -/

theorem steers_of_executed (h : m.step = (.ok .executed, m')) :
    ∃ i op, Instruction.decode m.image.code m.control.pc = .ok i ∧ i.operation? = some op ∧
      op.Steers m.control.pc (m.behind i) m' := by
  obtain ⟨i, hi, hrun⟩ := of_step_executed h
  unfold executeInstruction at hrun
  split at hrun
  case h_1 op hop => exact ⟨i, op, hi, hop, steers_execute hrun⟩
  case h_2 => cases hrun

/-- What a step can do to the calls: nothing, or what the operation of an instruction does, or it
returns although the instruction ends in a memory error. -/
theorem control_step (m : Machine R) :
    m.control.SameCalls m.step.2.control ∨
    ∃ i, Instruction.decode m.image.code m.control.pc = .ok i ∧
      ((∃ op, i.operation? = some op ∧ op.Steers m.control.pc (m.behind i) m.step.2) ∨
        i.opcode = .subRet ∧ (m.behind i).control.Returns m.step.2.control) := by
  have hfatal (h : isFatalResult m.step.1 = true) : m.control.SameCalls m.step.2.control := by
    rw [step_of_fatal h]
    exact ⟨rfl, rfl⟩
  rcases hstep : m.step with ⟨_ | o, m'⟩
  case error e =>
    rw [hstep] at hfatal
    cases e with
    | memory e =>
        obtain ⟨_, i, hi, hrun⟩ := of_step_fault hstep
        obtain ⟨hafter, _⟩ : Leaves i.opcode.AfterFault (.memory e) (m.behind i) m' :=
          (orderly_executeInstruction m.control.pc i).fails _ _ _ hrun
        by_cases hop : i.opcode = .subRet
        · rw [hop] at hafter
          exact Or.inr ⟨i, hi, Or.inr ⟨hop, hafter⟩⟩
        · rw [Opcode.afterFault_of_ne hop] at hafter
          rw [← hafter]
          exact Or.inl ⟨rfl, rfl⟩
    | _ => exact Or.inl (hfatal rfl)
  case ok =>
    by_cases ho : o = .executed
    · subst ho
      obtain ⟨i, op, hi, hop, hsteers⟩ := steers_of_executed hstep
      exact Or.inr ⟨i, hi, Or.inl ⟨op, hop, hsteers⟩⟩
    · rw [(idle?_of_step hstep ho).2]
      exact Or.inl ⟨rfl, rfl⟩

inductive CallStep (m m' : Machine R) : Prop where
  | keeps (h : m.control.SameCalls m'.control)
  | pushes (i : Instruction) (hi : Instruction.decode m.image.code m.control.pc = .ok i)
      (h : m'.control.callStack = (m.control.pc + i.length) :: m.control.callStack)
      (hclump : m'.control.clump < 2 ^ 32)
  | pops (i : Instruction) (hi : Instruction.decode m.image.code m.control.pc = .ok i)
      (hop : i.opcode = .subRet)
      (h : m.control.callStack = m'.control.pc :: m'.control.callStack)
      (hclump : m'.control.clump = m.control.clump ∨ m'.control.clump < 2 ^ 32)

theorem callStep (m : Machine R) : m.CallStep m.step.2 := by
  rcases m.control_step with hkept | ⟨i, hi, ⟨op, hop, hsteers⟩ | ⟨hop, hstack, hcontrol⟩⟩
  · exact .keeps hkept
  · rcases hsteers.calls with hkept | ⟨clump, slot, rfl⟩ | ⟨slot, rfl⟩
    · exact .keeps hkept
    · obtain ⟨c, _, _, hcontrol⟩ := hsteers
      apply CallStep.pushes i hi
      · rw [hcontrol]
        rfl
      · rw [hcontrol]
        exact Nat.lt_trans clump.toNat_lt (by decide)
    · obtain ⟨v, _, hstack, hcontrol⟩ := hsteers
      apply CallStep.pops i hi (Instruction.subRet_of_operation? hop) hstack
      rw [hcontrol]
      exact Or.inr v.toUInt32.toNat_lt
  · apply CallStep.pops i hi hop hstack
    rw [hcontrol]
    exact Or.inl rfl

/-! ### Reachable machines -/

/-- Started on some image, and come through steps and whatever else a host may do, but a reset. -/
def Reachable (m : Machine R) : Prop :=
  ∃ image robot clock first history, start image robot clock = .ok first ∧ m = first.after history

/-- Return addresses do not lie beyond the code, and the number of the clump has 32 bits. -/
structure Placed (m : Machine R) : Prop where
  addresses : ∀ address ∈ m.control.callStack, address ≤ m.image.code.size
  clump : m.control.clump < 2 ^ 32

theorem placed_start {R : Type} {m : Machine R} {image : Image} {robot : R} {clock : Clock}
    (h : start image robot clock = .ok m) : m.Placed := by
  obtain ⟨memory, _, rfl⟩ := start_eq_ok_iff.1 h
  constructor
  · exact List.forall_mem_nil _
  · exact Nat.two_pow_pos 32

theorem Placed.step (h : m.Placed) : m.step.2.Placed := by
  have himage : m.step.2.image = m.image := image_apply .step m
  cases m.callStep with
  | keeps hkept =>
      constructor
      · rw [hkept.1, himage]
        exact h.addresses
      · rw [hkept.2]
        exact h.clump
  | pushes i hi hstack hclump =>
      refine ⟨?_, hclump⟩
      rw [hstack, himage]
      exact List.forall_mem_cons.2 ⟨Instruction.extent_of_decode hi, h.addresses⟩
  | pops i hi hop hstack hclump =>
      constructor
      · intro address haddress
        rw [himage]
        apply h.addresses
        rw [hstack]
        exact List.mem_cons_of_mem _ haddress
      · rcases hclump with hclump | hclump
        · rw [hclump]
          exact h.clump
        · exact hclump

theorem Placed.apply (h : m.Placed) (a : Interaction R) : (a.apply m).Placed := by
  cases a with
  | step => exact h.step
  | changeClock | changeMemory | changeRobot | takeDiagnostics => exact ⟨h.addresses, h.clump⟩

theorem Placed.after (h : m.Placed) (actions : List (Interaction R)) :
    (m.after actions).Placed := by
  induction actions generalizing m with
  | nil => exact h
  | cons a actions ih => exact ih (h.apply a)

theorem Reachable.placed (h : m.Reachable) : m.Placed := by
  obtain ⟨image, robot, clock, first, history, hstart, rfl⟩ := h
  exact (placed_start hstart).after history

end Machine

end BrickMachine
