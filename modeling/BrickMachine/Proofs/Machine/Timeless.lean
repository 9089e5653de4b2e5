import BrickMachine.Proofs.Machine.Halting

/-!
# Steps without the clock

Two machines are at the same point of a program, whatever their clocks show and however long they
have to wait, if they are equal once the time is taken off both of them: `timeless` puts the clock
and the end of the wait to zero.

Time does not enter an instruction but in two places. WAIT reads the clock for the end of the wait,
which is taken off again, and GETTICK stores the tick in a slot. So machines at the same point that
do not wait make the same step and are at the same point again, unless they execute a GETTICK. One
that fails does not count: whether a slot can be stored to does not depend on the number.
-/

namespace BrickMachine

variable {R α β : Type}

namespace Machine

def timeless (m : Machine R) : Machine R :=
  { m with clock := m.clock.put 0, control := { m.control with resumeAt := 0 } }

/-- The machines are the same but for their clocks and the ends of their waits. -/
structure SameButTime (m m' : Machine R) : Prop where
  image : m.image = m'.image
  memory : m.memory = m'.memory
  pc : m.control.pc = m'.control.pc
  clump : m.control.clump = m'.control.clump
  callStack : m.control.callStack = m'.control.callStack
  halted : m.halted = m'.halted
  robot : m.robot = m'.robot
  diagnostics : m.diagnostics = m'.diagnostics
  seen : m.seen = m'.seen

variable {m m' : Machine R}

theorem sameButTime_of_timeless (h : m.timeless = m'.timeless) : m.SameButTime m' := by
  obtain ⟨_, _, ⟨_, _, _, _⟩, _, _, _, _, _⟩ := m
  obtain ⟨rfl, rfl, hcontrol, rfl, rfl, _, rfl, rfl⟩ := Machine.mk.inj h
  obtain ⟨rfl, rfl, rfl, _⟩ := Control.mk.inj hcontrol
  exact ⟨rfl, rfl, rfl, rfl, rfl, rfl, rfl, rfl, rfl⟩

/-- Machines on driven clocks start at the same point. -/
theorem timeless_start {image : Image} {robot : R} {t t' : UInt32}
    (h : start image robot (.driven t) = .ok m) (h' : start image robot (.driven t') = .ok m') :
    m.timeless = m'.timeless ∧ m.clock.motion = .driven := by
  obtain ⟨memory, hload, rfl⟩ := start_eq_ok_iff.1 h
  obtain ⟨memory', hload', rfl⟩ := start_eq_ok_iff.1 h'
  cases hload.symm.trans hload'
  exact ⟨rfl, rfl⟩

theorem timeless_note (m : Machine R) (d : Diagnostic) :
    (m.note d).timeless = m.timeless.note d := by
  unfold note
  by_cases hd : d ∈ m.seen
  · rw [if_pos hd, if_pos (show d ∈ m.timeless.seen from hd)]
  · rw [if_neg hd, if_neg (show d ∉ m.timeless.seen from hd)]
    rfl

end Machine

namespace Exec

open Machine

/-- A part of an instruction that does the same on machines at the same point. -/
def Timeless (x : Exec R α) : Prop :=
  ∀ m m' : Machine R, m.timeless = m'.timeless →
    (x.run m).1 = (x.run m').1 ∧ (x.run m).2.timeless = (x.run m').2.timeless

namespace Timeless

theorem pure (a : α) : Timeless (Pure.pure a : Exec R α) := fun _ _ h => ⟨rfl, h⟩

theorem throw (e : Machine.Error) : Timeless (MonadExcept.throw e : Exec R α) :=
  fun _ _ h => ⟨rfl, h⟩

theorem of_local {x : Exec R α} (hx : Local x) : Timeless x := by
  obtain ⟨c, rfl⟩ := hx
  intro m m' h
  have hsame := sameButTime_of_timeless h
  rw [run_lift, run_lift, hsame.robot, hsame.memory]
  generalize c.run (m'.robot, m'.memory) = run
  exact ⟨rfl, congrArg (fun t : Machine R => { t with robot := run.2.1, memory := run.2.2 }) h⟩

theorem act {f : Machine R → Machine R} (hf : ∀ m, (f m).timeless = (f m.timeless).timeless) :
    Timeless (Exec.act f) := by
  intro m m' h
  refine ⟨rfl, ?_⟩
  calc (f m).timeless = (f m.timeless).timeless := hf m
    _ = (f m'.timeless).timeless := by rw [h]
    _ = (f m').timeless := (hf m').symm

theorem look {f : Machine R → α} (hf : ∀ m, f m = f m.timeless) : Timeless (Exec.look f) := by
  intro m m' h
  refine ⟨congrArg Except.ok ?_, h⟩
  rw [hf m, hf m', h]

theorem bind {x : Exec R α} {f : α → Exec R β} (hx : Timeless x) (hf : ∀ a, Timeless (f a)) :
    Timeless (x >>= f) := by
  intro m m' h
  have hfirst := hx m m' h
  rw [Keeps.run_bind, Keeps.run_bind]
  rcases hrun : x.run m with ⟨e | a, s⟩ <;> rcases hrun' : x.run m' with ⟨e' | a', s'⟩ <;>
    rw [hrun, hrun'] at hfirst <;> obtain ⟨hresult, hstate⟩ := hfirst
  · cases hresult
    exact ⟨rfl, hstate⟩
  · cases hresult
  · cases hresult
  · cases hresult
    exact hf a s s' hstate

end Timeless

theorem timeless_comparison (pc : Nat) (flags : UInt8) :
    Timeless (comparison pc flags : Exec R Comparison) := by
  unfold comparison
  split
  · exact Timeless.pure _
  · exact Timeless.throw _

theorem timeless_note (pc : Nat) (notice : Notice) :
    Timeless (Exec.act (·.note ⟨pc, notice⟩) : Exec R Unit) := by
  apply Timeless.act
  intro m
  rw [Machine.timeless_note, Machine.timeless_note]
  rfl

theorem timeless_branch (pc : Nat) (offset : Int) : Timeless (branch pc offset : Exec R Unit) := by
  unfold branch
  dsimp only
  split
  · exact Timeless.throw _
  · exact Timeless.act fun _ => rfl

theorem timeless_move (pc : Nat) (dst src : UInt16) : Timeless (move pc dst src : Exec R Unit) := by
  refine (Timeless.of_local (local_ask _)).bind fun dstType => ?_
  refine (Timeless.of_local (local_ask _)).bind fun srcType => ?_
  split
  · exact Timeless.of_local (local_change _)
  · split
    · exact Timeless.of_local ((local_scalar src).bind fun v => local_setScalar dst v)
    · exact timeless_note pc _

theorem timeless_call (pc : Nat) (clump slot : UInt16) :
    Timeless (call pc clump slot : Exec R Unit) := by
  refine (Timeless.look fun _ => rfl).bind fun target => ?_
  cases target with
  | none => exact Timeless.throw _
  | some c =>
      refine (Timeless.look fun _ => rfl).bind fun caller => ?_
      refine (Timeless.of_local (local_setScalar slot _)).bind fun _ => ?_
      exact Timeless.act fun _ => rfl

theorem timeless_ret (pc : Nat) (slot : UInt16) : Timeless (ret pc slot : Exec R Unit) := by
  refine (Timeless.look fun _ => rfl).bind fun stack => ?_
  cases stack with
  | nil => exact Timeless.throw _
  | cons address rest =>
      refine (Timeless.act fun _ => rfl).bind fun _ => ?_
      refine (Timeless.of_local (local_scalar slot)).bind fun v => ?_
      exact Timeless.act fun _ => rfl

/-- The end of a wait depends on the clock, but nothing else does. -/
theorem timeless_wait (duration : UInt16) : Timeless (wait duration : Exec R Unit) :=
  (Timeless.of_local (local_scalar duration)).bind fun _ => Timeless.act fun _ => rfl

variable [Robot R]

/-- Only GETTICK tells the time. -/
theorem timeless_execute (pc : Nat) {op : Operation} (hop : ∀ dst, op ≠ .getTick dst) :
    Timeless (execute pc op : Exec R Unit) := by
  cases hlocal : op.isLocal with
  | true =>
      obtain ⟨c, hc⟩ := local_execute (R := R) hlocal
      exact Timeless.of_local ⟨c, hc pc⟩
  | false =>
      have hscalar {β : Type} {f : Int32 → Exec R β} (e : UInt16) (hf : ∀ v, Timeless (f v)) :
          Timeless (scalar e >>= f) := (Timeless.of_local (local_scalar e)).bind hf
      cases op with
      | compare flags dst lhs rhs =>
          exact (timeless_comparison pc flags).bind fun c => hscalar lhs fun a =>
            hscalar rhs fun b => Timeless.of_local (local_setScalar dst _)
      | test flags dst src =>
          exact (timeless_comparison pc flags).bind fun c => hscalar src fun a =>
            Timeless.of_local (local_setScalar dst _)
      | move dst src => exact timeless_move pc dst src
      | unsupported op => exact timeless_note pc _
      | jump offset => exact timeless_branch pc offset
      | branchCompare flags offset lhs rhs =>
          refine (timeless_comparison pc flags).bind fun c => hscalar lhs fun a =>
            hscalar rhs fun b => ?_
          split
          · exact timeless_branch pc offset
          · exact Timeless.pure ()
      | branchTest flags offset src =>
          refine (timeless_comparison pc flags).bind fun c => hscalar src fun a => ?_
          split
          · exact timeless_branch pc offset
          · exact Timeless.pure ()
      | stop => exact Timeless.throw _
      | call clump slot => exact timeless_call pc clump slot
      | ret slot => exact timeless_ret pc slot
      | wait duration => exact timeless_wait duration
      | getTick dst => exact absurd rfl (hop dst)
      | _ => cases hlocal

/-- A GETTICK fails whatever the tick is, or not at all. -/
theorem run_getTick (pc : Nat) (dst : UInt16) (m : Machine R) :
    (execute pc (.getTick dst)).run m =
      match m.memory.slotTarget dst.toNat with
      | .ok target =>
        (.ok (), { m with memory := m.memory.putSlot target m.clock.tick.toInt32 })
      | .error e => (.error (.memory e), m) := by
  unfold execute
  rw [Keeps.run_bind]
  change (setScalar dst m.clock.tick.toInt32).run m = _
  unfold setScalar change Change.update Memory.setScalar
  simp only [ExceptT.run]
  cases m.memory.slotTarget dst.toNat <;> rfl

end Exec

/-! ### Steps -/

/-- No other opcode reads the clock. -/
theorem Instruction.getTick_of_operation? {i : Instruction} {dst : UInt16}
    (h : i.operation? = some (.getTick dst)) : i.opcode = .getTick := by
  obtain ⟨opcode, flags, length, operands, short⟩ := i
  change Operation.of? opcode flags operands = some (.getTick dst) at h
  rcases operands with _ | ⟨a, _ | ⟨b, _ | ⟨c, _ | ⟨d, rest⟩⟩⟩⟩ <;> cases opcode <;>
    first | rfl | cases h

namespace Machine

variable {m m' : Machine R}

/-- A machine that does not wait is halted, finished or able to run, whatever the time is. -/
theorem idle?_of_not_waiting (h : ∀ tick, m.idle? ≠ some (.waiting tick)) :
    m.idle? = if m.halted then some .halted else if m.isFinished then some .finished else none := by
  unfold idle? at h ⊢
  split
  case isTrue => rfl
  case isFalse hrunning =>
    rw [if_neg hrunning] at h
    split
    case isTrue => rfl
    case isFalse hinside =>
      rw [if_neg hinside] at h
      split
      case isTrue hwaiting => exact absurd (if_pos hwaiting) (h m.control.resumeAt)
      case isFalse => rfl

theorem idle?_eq_of_timeless (h : m.timeless = m'.timeless)
    (hm : ∀ tick, m.idle? ≠ some (.waiting tick)) (hm' : ∀ tick, m'.idle? ≠ some (.waiting tick)) :
    m.idle? = m'.idle? := by
  have hsame := sameButTime_of_timeless h
  rw [idle?_of_not_waiting hm, idle?_of_not_waiting hm', isFinished, isFinished, hsame.halted,
    hsame.image, hsame.pc]

theorem conclude_timeless (result : Except Error Unit) (h : m.timeless = m'.timeless) :
    (conclude result m).1 = (conclude result m').1 ∧
      (conclude result m).2.timeless = (conclude result m').2.timeless := by
  cases result with
  | ok => exact ⟨rfl, h⟩
  | error e =>
      refine ⟨rfl, ?_⟩
      unfold conclude
      dsimp only
      split
      · exact congrArg (fun t : Machine R => { t with halted := true }) h
      · exact h

variable [Robot R]

def ReadsClock (m : Machine R) : Prop :=
  m.step.1 = .ok .executed ∧
    ∃ i, Instruction.decode m.image.code m.control.pc = .ok i ∧ i.opcode = .getTick

instance decidableReadsClock (m : Machine R) : Decidable m.ReadsClock :=
  match hstep : m.step.1, hdecode : Instruction.decode m.image.code m.control.pc with
  | .ok .executed, .ok i =>
    if hop : i.opcode = .getTick then isTrue ⟨hstep, i, hdecode, hop⟩
    else isFalse fun ⟨_, _, hj, hget⟩ => hop (Except.ok.inj (hdecode.symm.trans hj) ▸ hget)
  | .ok .executed, .error _ => isFalse fun ⟨_, _, hj, _⟩ => nomatch hdecode.symm.trans hj
  | .ok .finished, _ | .ok .halted, _ | .ok (.waiting _), _ | .error _, _ =>
    isFalse fun ⟨hexecuted, _⟩ => nomatch hstep.symm.trans hexecuted

/-- A GETTICK that fails for one tick fails for every other. -/
theorem executeInstruction_timeless {i : Instruction} (pc : Nat) (h : m.timeless = m'.timeless)
    (hquiet : i.opcode = .getTick → ((executeInstruction pc i).run m).1 ≠ .ok ()) :
    ((executeInstruction pc i).run m).1 = ((executeInstruction pc i).run m').1 ∧
      ((executeInstruction pc i).run m).2.timeless
        = ((executeInstruction pc i).run m').2.timeless := by
  unfold executeInstruction at hquiet ⊢
  cases hoperation : i.operation? with
  | none => exact ⟨rfl, h⟩
  | some op =>
      by_cases hget : ∃ dst, op = .getTick dst
      · obtain ⟨dst, rfl⟩ := hget
        have hfails := hquiet (Instruction.getTick_of_operation? hoperation)
        rw [hoperation] at hfails
        simp only [Exec.run_getTick, ← (sameButTime_of_timeless h).memory] at hfails ⊢
        cases htarget : m.memory.slotTarget dst.toNat with
        | ok target =>
            rw [htarget] at hfails
            exact absurd rfl hfails
        | error e => exact ⟨rfl, h⟩
      · exact Exec.timeless_execute pc (fun dst hdst => hget ⟨dst, hdst⟩) m m' h

/-- Machines at the same point that do not wait make the same step and are at the same point again,
unless one reads the clock. -/
theorem step_timeless (h : m.timeless = m'.timeless)
    (hm : ∀ tick, m.idle? ≠ some (.waiting tick)) (hm' : ∀ tick, m'.idle? ≠ some (.waiting tick))
    (hquiet : ¬ m.ReadsClock) :
    m.step.1 = m'.step.1 ∧ m.step.2.timeless = m'.step.2.timeless := by
  have hidle := idle?_eq_of_timeless h hm hm'
  have hsame := sameButTime_of_timeless h
  unfold ReadsClock at hquiet
  rw [step_eq] at hquiet ⊢
  rw [step_eq, ← hidle]
  cases hreason : m.idle? with
  | some o => exact ⟨rfl, h⟩
  | none =>
      rw [hreason] at hquiet
      dsimp only at hquiet ⊢
      unfold attempt at hquiet ⊢
      rw [← hsame.image, ← hsame.pc]
      cases hdecode : Instruction.decode m.image.code m.control.pc with
      | error cause => exact conclude_timeless _ h
      | ok i =>
          rw [hdecode] at hquiet
          dsimp only at hquiet ⊢
          have hbehind : (m.behind i).timeless = (m'.behind i).timeless :=
            congrArg (fun t : Machine R => t.behind i) h
          have hfails (hop : i.opcode = .getTick) :
              ((executeInstruction m.control.pc i).run (m.behind i)).1 ≠ .ok () := by
            intro hok
            rw [hok] at hquiet
            exact hquiet ⟨rfl, i, rfl, hop⟩
          obtain ⟨hresult, hmachine⟩ := executeInstruction_timeless m.control.pc hbehind hfails
          rw [hresult]
          exact conclude_timeless _ hmachine

end Machine

end BrickMachine
