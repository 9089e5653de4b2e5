import BrickMachine.Proofs.Machine.Failure

/-!
# Halting

A host lets a machine make steps and changes what it may change in between: the clock, the memory,
the robot and the diagnostics that wait to be taken. Whatever it does, short of a reset, a fatal
error is the only thing that halts the machine, and it does so once: no step after it does anything.
The step with the error itself leaves all as it was, but for the program counter.

A start and a reset are where such a history begins: both make a `fresh` machine, and the image that
they make it from is the one that the machine has from then on.
-/

namespace BrickMachine

variable {R : Type}

inductive Interaction (R : Type) where
  | step
  | changeClock (f : Clock → Clock)
  | changeMemory (f : Memory → Memory)
  | changeRobot (f : R → R)
  | takeDiagnostics

def Machine.isFatalResult : Except Machine.Error Machine.StepOutcome → Bool
  | .ok _ => false
  | .error e => e.isFatal

variable [Robot R] {m : Machine R}

def Interaction.apply : Interaction R → Machine R → Machine R
  | step, m => m.step.2
  | changeClock f, m => { m with clock := f m.clock }
  | changeMemory f, m => { m with memory := f m.memory }
  | changeRobot f, m => { m with robot := f m.robot }
  | takeDiagnostics, m => m.withoutDiagnostics

namespace Machine

def after (m : Machine R) : List (Interaction R) → Machine R
  | [] => m
  | a :: actions => (a.apply m).after actions

def results (m : Machine R) : List (Interaction R) → List (Except Error StepOutcome)
  | [] => []
  | .step :: actions => m.step.1 :: m.step.2.results actions
  | a :: actions => (a.apply m).results actions

theorem after_append (m : Machine R) (first second : List (Interaction R)) :
    m.after (first ++ second) = (m.after first).after second := by
  induction first generalizing m with
  | nil => rfl
  | cons a first ih => exact ih (a.apply m)

/-! ### Starts -/

section

variable {R : Type} {m m₀ : Machine R} {image : Image} {robot : R} {clock : Clock}

def fresh (image : Image) (memory : Memory) (robot : R) (clock : Clock) : Machine R where
  image := image
  memory := memory
  control := startControl image
  halted := false
  robot := robot
  clock := clock
  diagnostics := #[]
  seen := []

theorem start_eq_ok_iff :
    start image robot clock = .ok m ↔
      ∃ memory, Memory.load image = .ok memory ∧ m = fresh image memory robot clock := by
  simp [start, fresh, bind_eq_ok_iff, eq_comm (a := m)]

theorem reset_eq_ok_iff :
    m.reset = .ok m₀ ↔
      ∃ memory, Memory.load m.image = .ok memory ∧
        m₀ = fresh m.image memory m.robot m.clock := by
  simp [reset, fresh, bind_eq_ok_iff, eq_comm (a := m₀)]

theorem image_of_start (h : start image robot clock = .ok m) : m.image = image := by
  obtain ⟨memory, _, rfl⟩ := start_eq_ok_iff.1 h
  rfl

end

/-! ### One step -/

theorem step_of_halted (hm : m.halted = true) : m.step = (.ok .halted, m) :=
  if_pos hm

theorem halted_conclude {R : Type} {m : Machine R} (hm : m.halted = false)
    (result : Except Error Unit) :
    (conclude result m).2.halted = isFatalResult (conclude result m).1 := by
  cases result with
  | ok => exact hm
  | error e =>
      change (if e.isFatal then { m with halted := true } else m).halted = e.isFatal
      cases e.isFatal with
      | false => exact hm
      | true => rfl

/-- A running machine is halted by a step exactly if its result is a fatal error. -/
theorem halted_step (hm : m.halted = false) : m.step.2.halted = isFatalResult m.step.1 := by
  rcases m.step_cases with ⟨o, _, hstep⟩ | ⟨_, ⟨cause, _, hstep⟩ | ⟨i, _, hstep⟩⟩
  · rw [hstep]
    exact hm
  · rw [hstep]
    rfl
  · rw [hstep]
    have hframed : Framed (m.behind i) _ :=
      (orderly_executeInstruction m.control.pc i).keeps (m.behind i)
    have hrunning := congrArg (fun s => s.2.2) hframed
    exact halted_conclude (hrunning.symm.trans hm) _

theorem fixed_conclude {R : Type} (result : Except Error Unit) (m : Machine R) :
    (conclude result m).2.image = m.image ∧ (conclude result m).2.clock = m.clock := by
  cases result with
  | ok => exact ⟨rfl, rfl⟩
  | error e => cases e <;> exact ⟨rfl, rfl⟩

/-- A step changes neither the image nor the clock. -/
theorem fixed_step (m : Machine R) : m.step.2.image = m.image ∧ m.step.2.clock = m.clock := by
  rcases m.step_cases with ⟨o, _, hstep⟩ | ⟨_, ⟨cause, _, hstep⟩ | ⟨i, _, hstep⟩⟩ <;>
    rw [hstep]
  · exact ⟨rfl, rfl⟩
  · exact ⟨rfl, rfl⟩
  · have hframed : Framed (m.behind i) _ :=
      (orderly_executeInstruction m.control.pc i).keeps (m.behind i)
    obtain ⟨himage, hclock⟩ := fixed_conclude
      ((executeInstruction m.control.pc i).run (m.behind i)).1
      ((executeInstruction m.control.pc i).run (m.behind i)).2
    rw [himage, hclock]
    exact ⟨(congrArg Prod.fst hframed).symm, (congrArg (·.2.1) hframed).symm⟩

/-- The place behind the instruction at the program counter; the same place if there is none. -/
def placeBehind (m : Machine R) : Nat :=
  match Instruction.decode m.image.code m.control.pc with
  | .ok i => m.control.pc + i.length
  | .error _ => m.control.pc

/-- A step with a fatal error halts the machine and moves the program counter. Nothing else
changes. -/
theorem step_of_fatal (h : isFatalResult m.step.1 = true) :
    m.step.2 =
      { m with halted := true, control := { m.control with pc := m.placeBehind } } := by
  unfold placeBehind
  rcases m.step_cases with ⟨o, _, hstep⟩ | ⟨_, ⟨cause, hcause, hstep⟩ | ⟨i, hi, hstep⟩⟩
  · rw [hstep] at h
    cases h
  · rw [hstep, hcause]
  · rw [hi]
    rw [hstep] at h ⊢
    rcases hrun : (executeInstruction m.control.pc i).run (m.behind i) with ⟨e | _, m₁⟩
    · rw [hrun] at h
      have hfatal : e.isFatal = true := h
      have hleaves := (orderly_executeInstruction m.control.pc i).fails _ e m₁ hrun
      unfold Leaves at hleaves
      rw [if_pos hfatal] at hleaves
      change (if e.isFatal then { m₁ with halted := true } else m₁) = _
      rw [if_pos hfatal, hleaves]
      rfl
    · rw [hrun] at h
      cases h

/-! ### Runs -/

/-- Nothing exchanges the image. -/
theorem image_apply (a : Interaction R) (m : Machine R) : (a.apply m).image = m.image := by
  cases a with
  | step => exact m.fixed_step.1
  | changeClock | changeMemory | changeRobot | takeDiagnostics => rfl

theorem image_after (m : Machine R) (actions : List (Interaction R)) :
    (m.after actions).image = m.image := by
  induction actions generalizing m with
  | nil => rfl
  | cons a actions ih => exact (ih (a.apply m)).trans (image_apply a m)

/-- An interaction that is no step leaves a machine halted or running as it is. -/
theorem halted_apply (hm : m.halted = true) (a : Interaction R) : (a.apply m).halted = true := by
  cases a with
  | step =>
      change m.step.2.halted = true
      rw [step_of_halted hm]
      exact hm
  | changeClock | changeMemory | changeRobot | takeDiagnostics => exact hm

theorem halted_after (hm : m.halted = true) (actions : List (Interaction R)) :
    (m.after actions).halted = true := by
  induction actions generalizing m with
  | nil => exact hm
  | cons a actions ih => exact ih (halted_apply hm a)

/-- No step of a halted machine fails. -/
theorem results_of_halted (hm : m.halted = true) (actions : List (Interaction R)) :
    ∀ r ∈ m.results actions, r = .ok .halted := by
  induction actions generalizing m with
  | nil => exact List.forall_mem_nil _
  | cons a actions ih =>
      have hrest := ih (halted_apply hm a)
      cases a with
      | step =>
          have hfirst : m.step.1 = .ok .halted := by rw [step_of_halted hm]
          exact List.forall_mem_cons.2 ⟨hfirst, hrest⟩
      | changeClock | changeMemory | changeRobot | takeDiagnostics => exact hrest

theorem countP_results_of_halted (hm : m.halted = true) (actions : List (Interaction R)) :
    (m.results actions).countP isFatalResult = 0 := by
  rw [List.countP_eq_zero]
  intro r hr
  rw [results_of_halted hm actions r hr]
  exact Bool.false_ne_true

/-- A running machine has had as many fatal errors as it is halted afterwards: none or one. -/
theorem countP_results (hm : m.halted = false) (actions : List (Interaction R)) :
    (m.results actions).countP isFatalResult = (m.after actions).halted.toNat := by
  induction actions generalizing m with
  | nil =>
      change 0 = m.halted.toNat
      rw [hm]
      rfl
  | cons a actions ih =>
      cases a with
      | step =>
          change (m.step.1 :: m.step.2.results actions).countP isFatalResult
            = (m.step.2.after actions).halted.toNat
          have hstep := halted_step hm
          rw [List.countP_cons]
          cases hfatal : isFatalResult m.step.1 with
          | false =>
              rw [hfatal] at hstep
              rw [ih hstep]
              rfl
          | true =>
              rw [hfatal] at hstep
              rw [countP_results_of_halted hstep, halted_after hstep]
              rfl
      | changeClock | changeMemory | changeRobot | takeDiagnostics => exact ih hm

/-- A machine is halted by the first fatal error of its steps, and there is no second one. The step
with the error halts it and moves the program counter behind the instruction, or nowhere if there
is no instruction, and changes nothing else; every later step changes nothing at all. -/
theorem halts_once (hm : m.halted = false) (actions : List (Interaction R)) :
    ((m.after actions).halted = true ↔ ∃ r ∈ m.results actions, isFatalResult r = true) ∧
    (m.results actions).countP isFatalResult ≤ 1 ∧
    ∀ before rest, actions = before ++ .step :: rest →
      isFatalResult (m.after before).step.1 = true →
      (m.after before).step.2 =
        { m.after before with
          halted := true
          control := { (m.after before).control with pc := (m.after before).placeBehind } } ∧
      ∀ between later, rest = between ++ .step :: later →
        (m.after (before ++ .step :: between)).step
          = (.ok .halted, m.after (before ++ .step :: between)) := by
  have hcount := countP_results hm actions
  refine ⟨?_, ?_, ?_⟩
  · rw [← List.countP_pos_iff, hcount]
    cases (m.after actions).halted <;> simp
  · rw [hcount]
    exact Bool.toNat_le _
  · intro before rest _ hfatal
    have hstep := step_of_fatal hfatal
    refine ⟨hstep, ?_⟩
    intro between later _
    rw [after_append]
    have hhalted : (m.after before).step.2.halted = true := by rw [hstep]
    exact step_of_halted (halted_after hhalted between)

def badCall : Machine HeadlessRobot :=
  running [.set 0 5, .subCall 3 0] ⟨#[⟨.uword, 0, 0⟩], #[0, 0], #[], [0]⟩ {}

theorem badCall_halts_once :
    badCall.halted = false ∧
    (badCall.after [.step, .changeClock (·.put 7), .step, .takeDiagnostics]).halted = true ∧
    (badCall.results [.step, .changeClock (·.put 7), .step, .takeDiagnostics, .step]).countP
      isFatalResult ≤ 1 ∧
    (badCall.after [.step, .changeClock (·.put 7), .step]).control.pc = 6 ∧
    (badCall.after [.step, .changeClock (·.put 7), .step, .takeDiagnostics]).step
      = (.ok .halted, badCall.after [.step, .changeClock (·.put 7), .step, .takeDiagnostics]) := by
  have hrunning : badCall.halted = false := rfl
  obtain ⟨_, hcount, hfatal⟩ :=
    halts_once hrunning [.step, .changeClock (·.put 7), .step, .takeDiagnostics, .step]
  obtain ⟨hstep, hlater⟩ := hfatal [.step, .changeClock (·.put 7)] [.takeDiagnostics, .step] rfl rfl
  refine ⟨hrunning, ?_, hcount, ?_, hlater [.takeDiagnostics] [] rfl⟩
  · refine (halts_once hrunning _).1.2 ⟨.error (.unknownClump 3 3), ?_, rfl⟩
    exact List.mem_cons_of_mem _ List.mem_cons_self
  · exact congrArg (fun m : Machine HeadlessRobot => m.control.pc) hstep

end Machine

end BrickMachine
