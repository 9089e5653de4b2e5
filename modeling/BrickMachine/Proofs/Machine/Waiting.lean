import BrickMachine.Image.Program
import BrickMachine.Proofs.Machine.Control

/-!
# Waits

A WAIT sets the tick before which nothing runs, and nothing else does: other instructions, memory
errors, calls and returns leave it alone, and so does whatever a host does between the steps. So
the tick that a machine waits for is always the end of the latest WAIT that was carried out, or
zero if there was none, however the host puts the clock.

A machine that does not run says why: that it is halted, else that it is finished, else that it
waits. Such a step changes nothing.
-/

namespace BrickMachine

/-- A WAIT that was carried out: the tick at that time, and for how long it was to be. -/
structure Wait where
  tick : UInt32
  duration : Int32
  deriving DecidableEq, Repr

/-- The tick at which a wait is over. It does not begin earlier than now, and there is a last
tick. -/
def Wait.finish (w : Wait) : Nat :=
  min (w.tick.toNat + (max w.duration.toInt 0).toNat) (2 ^ 32 - 1)

theorem Clock.toNat_deadline (c : Clock) (v : Int32) :
    (c.deadline v.toInt.toNat).toNat = Wait.finish ⟨c.tick, v⟩ := by
  have hduration : (max v.toInt 0).toNat = v.toInt.toNat := by omega
  have hfits : min (c.tick.toNat + v.toInt.toNat) 0xFFFFFFFF < 2 ^ 32 := by omega
  unfold Wait.finish
  rw [hduration]
  exact UInt32.toNat_ofNat_of_lt' hfits

namespace Instruction

variable {i : Instruction} {op : Operation}

theorem operation?_of_wait (hi : i.opcode = .wait) (h : i.operation? = some op) :
    ∃ duration, i.operands[1]? = some duration ∧ op = .wait duration := by
  unfold operation? at h
  rw [hi] at h
  rcases hws : i.operands with _ | ⟨size, _ | ⟨duration, rest⟩⟩ <;> rw [hws] at h <;> cases h
  exact ⟨duration, rfl, rfl⟩

/-- No other opcode waits. -/
theorem wait_of_operation? {duration : UInt16} (h : i.operation? = some (.wait duration)) :
    i.opcode = .wait := by
  obtain ⟨opcode, flags, length, operands, short⟩ := i
  change Operation.of? opcode flags operands = some (.wait duration) at h
  rcases operands with _ | ⟨a, _ | ⟨b, _ | ⟨c, _ | ⟨d, rest⟩⟩⟩⟩ <;> cases opcode <;>
    first | rfl | cases h

end Instruction

/-- Only a WAIT touches the end of the wait. -/
theorem Operation.Steers.resumeAt {R : Type} {m m' : Machine R} {pc : Nat} {op : Operation}
    (h : op.Steers pc m m') :
    m'.control.resumeAt = m.control.resumeAt ∨ ∃ duration, op = .wait duration := by
  cases op with
  | wait duration => exact Or.inr ⟨duration, rfl⟩
  | jump offset =>
      rw [h.2]
      exact Or.inl rfl
  | branchCompare | branchTest =>
      rcases h with hcontrol | ⟨_, hcontrol⟩ <;> rw [hcontrol] <;> exact Or.inl rfl
  | call clump slot =>
      obtain ⟨c, _, _, hcontrol⟩ := h
      rw [hcontrol]
      exact Or.inl rfl
  | ret slot =>
      obtain ⟨v, _, _, hcontrol⟩ := h
      rw [hcontrol]
      exact Or.inl rfl
  | _ => exact Or.inl (congrArg Control.resumeAt h)

namespace Machine

variable {R : Type} [Robot R] {m m' : Machine R}

def nextWait? (m : Machine R) : Option Wait :=
  match m.step.1, Instruction.decode m.image.code m.control.pc with
  | .ok .executed, .ok i =>
    if i.opcode = .wait then
      i.operands[1]?.bind fun slot =>
        (m.memory.scalar slot.toNat).toOption.map fun duration => ⟨m.clock.tick, duration⟩
    else
      none
  | _, _ => none

def waits (m : Machine R) : List (Interaction R) → List Wait
  | [] => []
  | .step :: actions => m.nextWait?.toList ++ m.step.2.waits actions
  | a :: actions => (a.apply m).waits actions

theorem waits_append (m : Machine R) (first second : List (Interaction R)) :
    m.waits (first ++ second) = m.waits first ++ (m.after first).waits second := by
  induction first generalizing m with
  | nil => rfl
  | cons a first ih =>
      cases a with
      | step =>
          change _ ++ m.step.2.waits (first ++ second) = _
          rw [ih, ← List.append_assoc]
          rfl
      | changeClock | changeMemory | changeRobot | takeDiagnostics => exact ih _

/-! ### One step -/

/-- A WAIT that is carried out has a duration, and sets the end of the wait by it. -/
theorem of_wait {i : Instruction} (h : m.step = (.ok .executed, m'))
    (hi : Instruction.decode m.image.code m.control.pc = .ok i) (hop : i.opcode = .wait) :
    ∃ slot v, i.operands[1]? = some slot ∧ m.memory.scalar slot.toNat = .ok v ∧
      m.nextWait? = some ⟨m.clock.tick, v⟩ ∧
      m'.control.resumeAt = m.clock.deadline v.toInt.toNat := by
  obtain ⟨i', op, hi', hoperation, hsteers⟩ := steers_of_executed h
  obtain rfl : i' = i := Except.ok.inj (hi'.symm.trans hi)
  obtain ⟨slot, hslot, rfl⟩ := Instruction.operation?_of_wait hop hoperation
  obtain ⟨v, hv, hcontrol⟩ := hsteers
  have hread : m.memory.scalar slot.toNat = .ok v := hv
  refine ⟨slot, v, hslot, hread, ?_, congrArg Control.resumeAt hcontrol⟩
  unfold nextWait?
  rw [h, hi]
  simp [hop, hslot, hread, Except.toOption]

theorem nextWait?_of_ne {i : Instruction}
    (hi : Instruction.decode m.image.code m.control.pc = .ok i) (hop : i.opcode ≠ .wait) :
    m.nextWait? = none := by
  unfold nextWait?
  rw [hi]
  split
  case h_1 i' _ hdecoded =>
    cases hdecoded
    exact if_neg hop
  case h_2 => rfl

theorem nextWait?_of_not_executed (h : m.step.1 ≠ .ok .executed) : m.nextWait? = none := by
  unfold nextWait?
  split
  case h_1 hexecuted _ => exact absurd hexecuted h
  case h_2 => rfl

/-- A step that executes nothing leaves the end of the wait, also if it fails. -/
theorem resumeAt_of_not_executed (h : m.step.1 ≠ .ok .executed) :
    m.step.2.control.resumeAt = m.control.resumeAt := by
  rcases hstep : m.step with ⟨e | o, m'⟩
  case error =>
    cases hfatal : e.isFatal with
    | true =>
        have hresult : isFatalResult m.step.1 = true := by
          rw [hstep]
          exact hfatal
        rw [← congrArg Prod.snd hstep, step_of_fatal hresult]
    | false =>
        cases e with
        | memory e =>
            obtain ⟨_, _, _, hresume, _⟩ := control_of_fault hstep
            exact hresume
        | _ => cases hfatal
  case ok =>
    rw [hstep] at h
    have ho : o ≠ .executed := fun ho => h (congrArg Except.ok ho)
    rw [(idle?_of_step hstep ho).2]

/-- A step sets the end of the wait if it carries out a WAIT, and leaves it otherwise. -/
theorem resumeAt_step (m : Machine R) :
    m.step.2.control.resumeAt.toNat
      = (m.nextWait?.map Wait.finish).getD m.control.resumeAt.toNat := by
  by_cases hexecuted : m.step.1 = .ok .executed
  · have hstep : m.step = (.ok .executed, m.step.2) := Prod.ext hexecuted rfl
    obtain ⟨i, op, hi, hop, hsteers⟩ := steers_of_executed hstep
    by_cases hwait : i.opcode = .wait
    · obtain ⟨_, v, _, _, hnext, hresume⟩ := of_wait hstep hi hwait
      rw [hnext, hresume]
      exact m.clock.toNat_deadline v
    · rw [nextWait?_of_ne hi hwait]
      rcases hsteers.resumeAt with hkept | ⟨duration, rfl⟩
      · exact congrArg UInt32.toNat hkept
      · exact absurd (Instruction.wait_of_operation? hop) hwait
  · rw [nextWait?_of_not_executed hexecuted, resumeAt_of_not_executed hexecuted]
    rfl

/-! ### Why a machine does not run -/

/-- A machine that does not run gives the first reason that there is: it is halted, or it is
finished, or it waits. -/
theorem idle?_eq_some_iff {R : Type} {m : Machine R} {o : StepOutcome} :
    m.idle? = some o ↔
      m.halted = true ∧ o = .halted ∨
      m.halted = false ∧ m.image.code.size ≤ m.control.pc ∧ o = .finished ∨
      m.halted = false ∧ m.control.pc < m.image.code.size ∧
        m.clock.tick < m.control.resumeAt ∧ o = .waiting m.control.resumeAt := by
  unfold idle?
  split
  case isTrue hhalted => simp [hhalted, eq_comm]
  case isFalse hrunning =>
    rw [Bool.not_eq_true] at hrunning
    split
    case isTrue hfinished =>
      have hend : m.image.code.size ≤ m.control.pc := of_decide_eq_true hfinished
      simp [hrunning, hend, Nat.not_lt.2 hend, eq_comm]
    case isFalse hunfinished =>
      have hinside : m.control.pc < m.image.code.size :=
        Nat.lt_of_not_le fun hend => hunfinished (decide_eq_true hend)
      split
      case isTrue hwaiting =>
        have hearly : m.clock.tick < m.control.resumeAt := of_decide_eq_true hwaiting
        simp [hrunning, hinside, Nat.not_le.2 hinside, hearly, eq_comm]
      case isFalse hready =>
        have hdue : ¬ m.clock.tick < m.control.resumeAt :=
          fun hearly => hready (decide_eq_true hearly)
        simp [hrunning, Nat.not_le.2 hinside, hdue]

theorem step_eq_ok_iff {o : StepOutcome} (ho : o ≠ .executed) :
    m.step.1 = .ok o ↔ m.idle? = some o := by
  constructor
  · intro h
    exact (idle?_of_step (Prod.ext h rfl) ho).1
  · intro h
    rw [step_eq, h]

/-- What runs does not come before the end of a wait. -/
theorem resumeAt_le_tick (h : m.step.1 = .ok .executed ∨ ∃ e, m.step.1 = .error e) :
    m.control.resumeAt ≤ m.clock.tick := by
  have hidle : m.idle? = none := by
    cases hidle : m.idle? with
    | none => rfl
    | some o =>
        have hstep : m.step.1 = .ok o := by rw [step_eq, hidle]
        rcases h with hexecuted | ⟨e, herror⟩
        · rw [hstep] at hexecuted
          exact absurd (Except.ok.inj hexecuted) (ne_executed_of_idle? hidle)
        · rw [hstep] at herror
          cases herror
  obtain ⟨_, _, hready⟩ := idle?_eq_none_iff.1 hidle
  exact UInt32.not_lt.1 (of_decide_eq_false hready)

/-! ### Runs -/

/-- What a host does between the steps leaves the end of the wait alone. -/
theorem resumeAt_after (m : Machine R) (actions : List (Interaction R)) :
    (m.after actions).control.resumeAt.toNat
      = ((m.waits actions).getLast?.map Wait.finish).getD m.control.resumeAt.toNat := by
  induction actions generalizing m with
  | nil => rfl
  | cons a actions ih =>
      cases a with
      | step =>
          change (m.step.2.after actions).control.resumeAt.toNat
            = ((m.nextWait?.toList ++ m.step.2.waits actions).getLast?.map Wait.finish).getD _
          rw [ih, resumeAt_step, List.getLast?_append]
          cases (m.step.2.waits actions).getLast? with
          | some w => rfl
          | none => cases m.nextWait? <;> rfl
      | changeClock | changeMemory | changeRobot | takeDiagnostics => exact ih _

/-- A machine that was started, and then made steps while its host put the clock to any ticks. It
waits for the end of the latest WAIT that was carried out, whose duration was in its second
operand, and nothing runs or fails before that tick. A step that runs nothing changes nothing: if
the machine is halted, that is what it says; if not, and the program is finished, it says so; and
it says that it waits exactly if it is neither and the tick has not come. -/
theorem gated_by_waits {image : Image} {robot : R} {clock : Clock}
    (hstart : start image robot clock = .ok m) (actions : List (Interaction R)) :
    let now := m.after actions
    now.control.resumeAt.toNat = ((m.waits actions).getLast?.map Wait.finish).getD 0 ∧
    (∀ i, Instruction.decode now.image.code now.control.pc = .ok i → i.opcode = .wait →
      now.step.1 = .ok .executed →
      ∃ slot v, i.operands[1]? = some slot ∧ now.memory.scalar slot.toNat = .ok v ∧
        m.waits (actions ++ [.step]) = m.waits actions ++ [⟨now.clock.tick, v⟩]) ∧
    ((now.step.1 = .ok .executed ∨ ∃ e, now.step.1 = .error e) →
      now.control.resumeAt ≤ now.clock.tick) ∧
    (∀ o, o ≠ .executed → now.step.1 = .ok o → now.step.2 = now) ∧
    (now.step.1 = .ok .halted ↔ now.halted = true) ∧
    (now.step.1 = .ok .finished ↔
      now.halted = false ∧ now.image.code.size ≤ now.control.pc) ∧
    ∀ tick, now.step.1 = .ok (.waiting tick) ↔
      now.halted = false ∧ now.control.pc < now.image.code.size ∧
        now.clock.tick < now.control.resumeAt ∧ tick = now.control.resumeAt := by
  dsimp only
  have hzero : m.control.resumeAt.toNat = 0 := by
    obtain ⟨memory, _, hm⟩ := bind_eq_ok_iff.1 hstart
    cases hm
    rfl
  refine ⟨?_, ?_, resumeAt_le_tick, ?_, ?_, ?_, ?_⟩
  · rw [resumeAt_after, hzero]
  · intro i hi hop hexecuted
    obtain ⟨slot, v, hslot, hread, hnext, _⟩ := of_wait (Prod.ext hexecuted rfl) hi hop
    refine ⟨slot, v, hslot, hread, ?_⟩
    rw [waits_append]
    change _ ++ ((m.after actions).nextWait?.toList ++ []) = _
    rw [hnext]
    rfl
  · intro o ho hstep
    exact (idle?_of_step (Prod.ext hstep rfl) ho).2
  · simp [step_eq_ok_iff, idle?_eq_some_iff]
  · simp [step_eq_ok_iff, idle?_eq_some_iff]
  · simp [step_eq_ok_iff, idle?_eq_some_iff]

/-- A program that waits for 70 milliseconds, waits with an entry that does not exist, and waits for
a time below zero. -/
def threeWaits : Image :=
  (({ dataspace := (({} : Dataspace).scalar .slong 70).scalar .sbyte (-5) } : Program)
    |>.addClump (assemble [.wait 0, .wait 9, .wait 1]) [] 0).toImage

def startOfThreeWaits : Machine HeadlessRobot where
  image := threeWaits
  memory := ⟨threeWaits.toc, #[70, 0, 0, 0, 251], #[⟨⟨5, 10, 1, 0, 0xFFFF⟩, #[]⟩], [0, 1]⟩
  control := {}
  halted := false
  robot := .ofSensors []
  clock := .driven 100
  diagnostics := #[]
  seen := []

/-- The clock is put back during the first wait. The second WAIT fails when that is over, and the
third one is over at once, so that the program is finished although the clock is put back again. -/
theorem threeWaits_gated :
    start threeWaits (HeadlessRobot.ofSensors []) (.driven 100) = .ok startOfThreeWaits ∧
    let early := startOfThreeWaits.after [.step, .changeClock (·.put 50)]
    early.control.resumeAt.toNat = 170 ∧ early.step.1 = .ok (.waiting 170) ∧
      early.step.2 = early ∧
    let ended := startOfThreeWaits.after [.step, .changeClock (·.put 170), .step,
      .changeClock (·.put 4294967290), .step, .changeClock (·.put 3)]
    ended.control.resumeAt.toNat = 4294967290 ∧ ended.step.1 = .ok .finished := by
  have hstart : start threeWaits (HeadlessRobot.ofSensors []) (.driven 100)
      = .ok startOfThreeWaits := rfl
  obtain ⟨hresume, _, _, hsame, _, _, hwaiting⟩ :=
    gated_by_waits hstart [.step, .changeClock (·.put 50)]
  obtain ⟨hlater, _, _, _, _, hfinished, _⟩ :=
    gated_by_waits hstart [.step, .changeClock (·.put 170), .step,
      .changeClock (·.put 4294967290), .step, .changeClock (·.put 3)]
  have hearly := (hwaiting 170).2 (by decide)
  exact ⟨hstart, hresume, hearly, hsame (.waiting 170) nofun hearly, hlater,
    hfinished.2 (by decide)⟩

end Machine

end BrickMachine
