import BrickMachine.Image.Program
import BrickMachine.Proofs.Machine.Timeless
import BrickMachine.Proofs.Run.Chunks

/-!
# Runs that start at another time

On driven clocks two runs of one program do the same whenever they start, as long as the program
does not read the clock. The machines may wait at different moments, and a machine whose deadlines
have reached the last tick does not wait any more. But a wait executes nothing, and when it is over
both machines are at the same point again.

`executions` are the machines that a run finds about to execute an instruction, so they tell whether
a GETTICK is among the instructions executed.
-/

namespace BrickMachine

namespace Runner

open Run

variable {R : Type}

def timeless (r : Runner R) : Runner R := { r with machine := r.machine.timeless }

theorem timeless_awake (r : Runner R) : r.awake.timeless = r.timeless := by
  unfold awake
  split <;> rfl

theorem timeless_refreshed (r : Runner R) : r.refreshed.timeless = r.timeless.refreshed := by
  unfold refreshed
  cases hhalted : r.machine.halted with
  | true =>
      have hsame : r.timeless.machine.halted = true := hhalted
      rw [if_pos rfl, if_pos hsame]
  | false =>
      have hsame : r.timeless.machine.halted = false := hhalted
      rw [if_neg nofun, if_neg (Bool.eq_false_iff.1 hsame)]
      rfl

/-- Runners at the same point differ in their machines only. -/
theorem eq_of_timeless {r s : Runner R} (h : r.timeless = s.timeless) :
    s = { r with machine := s.machine } ∧ r.machine.timeless = s.machine.timeless := by
  obtain ⟨machine, paused, haltOnFault, maxSteps, timeBudget, totalSteps, error⟩ := r
  obtain ⟨hmachine, rfl, rfl, rfl, rfl, rfl, rfl⟩ := Runner.mk.inj h
  exact ⟨rfl, hmachine⟩

theorem Ready.of_timeless {r s : Runner R} (hr : r.Ready) (h : r.timeless = s.timeless) :
    s.Ready where
  running := (congrArg Runner.paused h).symm.trans hr.running
  driven := (congrArg (fun t : Runner R => t.machine.clock.motion) h).symm.trans hr.driven

theorem steps_await (l : Limits) (p : Progress) (r : Runner R) (tick : UInt32) :
    (r.await l p tick).2.1.steps = p.steps := by
  unfold await
  split
  · rfl
  split
  · rfl
  split
  · rfl
  split <;> rfl

theorem timeless_closed {r s : Runner R} (o : Option Outcome) (p : Progress)
    (h : r.timeless = s.timeless) :
    (closed .stepLimit (o, p, r)).1 = (closed .stepLimit (o, p, s)).1 ∧
      (closed .stepLimit (o, p, r)).2.timeless = (closed .stepLimit (o, p, s)).2.timeless := by
  have hdiagnostics := congrArg (fun t : Runner R => t.machine.diagnostics) h
  change r.machine.diagnostics = s.machine.diagnostics at hdiagnostics
  constructor
  · exact congrArg (fun diagnostics : Array Diagnostic =>
      ({ steps := p.steps, outcome := o.getD .stepLimit, diagnostics } : Summary)) hdiagnostics
  · exact congrArg (fun t : Runner R => { t with totalSteps := t.totalSteps + p.steps }) h

variable [Robot R] {r r' s : Runner R} {o : Option Outcome} {k n : Nat} {l : Limits}
variable {p : Progress} {m : Machine R}

/-! ### The instructions of a run -/

/-- The machines that execute an instruction, or fail in one, within a number of turns. -/
def executions (l : Limits) : Nat → Progress → Runner R → List (Machine R)
  | 0, _, _ => []
  | n + 1, p, r =>
    let (outcome, p', r') := r.turn l p
    let rest := match outcome with
      | some _ => []
      | none => executions l n p' r'
    if p.steps < p'.steps then r.machine :: rest else rest

def runStepsExecutions (n : Nat) (r : Runner R) : List (Machine R) :=
  executions (stepLimits n) (turnLimit (stepLimits n)) {} r.refreshed

theorem steps_turn (l : Limits) (p : Progress) (r : Runner R) :
    (r.turn l p).2.1.steps = p.steps ∨ (r.turn l p).2.1.steps = p.steps + 1 := by
  unfold turn
  split
  · exact Or.inl rfl
  split
  · exact Or.inl rfl
  split
  · exact Or.inl rfl
  by_cases hidle : ∃ tick, r.machine.idle? = some (.waiting tick)
  · obtain ⟨tick, hidle⟩ := hidle
    have hadvance : r.advance l p = r.await l p tick := by
      unfold advance
      rw [step_of_idle? hidle]
    rw [hadvance]
    exact Or.inl (steps_await l p r tick)
  · obtain ⟨o, k, r', h⟩ := exists_advances fun tick htick => hidle ⟨tick, htick⟩
    rw [h.advance]
    cases h with
    | executes | passes | faults | halts => exact Or.inr rfl
    | stays | finishes => exact Or.inl rfl

/-- More turns leave out no instruction. -/
theorem mem_executions_succ (h : m ∈ executions l n p r) : m ∈ executions l (n + 1) p r := by
  induction n generalizing p r with
  | zero => cases h
  | succ n ih =>
      rw [executions] at h ⊢
      rcases hturn : r.turn l p with ⟨_ | outcome, p', r'⟩ <;> rw [hturn] at h
      · dsimp only at h ⊢
        split at h
        case isTrue hcounted =>
          rw [if_pos hcounted]
          rcases List.mem_cons.1 h with rfl | h
          · exact List.mem_cons_self
          · exact List.mem_cons_of_mem _ (ih h)
        case isFalse hcounted =>
          rw [if_neg hcounted]
          exact ih h
      · exact h

/-- Nothing is executed while the machine waits. -/
theorem mem_executions_of_awake (hwithin : r.Within l p)
    (hdriven : r.machine.clock.motion = .driven) (h : m ∈ executions l n p r.awake) :
    m ∈ executions l (n + 1) p r := by
  by_cases hidle : ∃ tick, r.machine.idle? = some (.waiting tick)
  · obtain ⟨tick, hidle⟩ := hidle
    rw [executions, turn_of_waiting hwithin hdriven hidle]
    dsimp only
    rw [if_neg (Nat.lt_irrefl _)]
    exact h
  · rw [awake_eq_self fun tick htick => hidle ⟨tick, htick⟩] at h
    exact mem_executions_succ h

/-- The first instruction of a run, and those after it. -/
theorem executions_of_advances (hwithin : r.Within l p) (h : r.Advances none 1 r') :
    executions l (n + 1) p r
      = r.machine :: executions l n { p with steps := p.steps + 1 } r' := by
  rw [executions, turn_of_advances hwithin h]
  dsimp only
  rw [if_pos (Nat.lt_succ_self _)]

/-! ### The same steps -/

/-- Runners at the same point that do not wait go on in the same way, unless the clock is read. -/
theorem Advances.timeless (h : r.Advances o k r') (hsame : r.timeless = s.timeless)
    (hs : ∀ tick, s.machine.idle? ≠ some (.waiting tick)) (hquiet : ¬ r.machine.ReadsClock) :
    ∃ s', s.Advances o k s' ∧ r'.timeless = s'.timeless := by
  obtain ⟨hrest, hmachine⟩ := eq_of_timeless hsame
  obtain ⟨hresult, hafter⟩ := Machine.step_timeless hmachine h.not_waiting hs hquiet
  have hidle := Machine.idle?_eq_of_timeless hmachine h.not_waiting hs
  generalize s.machine = machine at hrest hmachine hresult hafter hidle
  subst hrest
  cases h with
  | executes m h =>
      rw [h] at hresult hafter
      exact ⟨_, .executes machine.step.2 (Prod.ext hresult.symm rfl),
        congrArg (fun t : Machine R => { r with machine := t }) hafter⟩
  | passes e m h hpolicy =>
      rw [h] at hresult hafter
      exact ⟨_, .passes e machine.step.2 (Prod.ext hresult.symm rfl) hpolicy,
        congrArg (fun t : Machine R => { r with machine := t }) hafter⟩
  | faults e m h hpolicy =>
      rw [h] at hresult hafter
      exact ⟨_, .faults e machine.step.2 (Prod.ext hresult.symm rfl) hpolicy,
        congrArg (fun t : Machine R => { r with machine := t, error := some (.memory e) }) hafter⟩
  | halts e m h hfatal =>
      rw [h] at hresult hafter
      exact ⟨_, .halts e machine.step.2 (Prod.ext hresult.symm rfl) hfatal,
        congrArg (fun t : Machine R => { r with machine := t, error := some e }) hafter⟩
  | stays h => exact ⟨_, .stays (hidle.symm.trans h), hsame⟩
  | finishes h => exact ⟨_, .finishes (hidle.symm.trans h), hsame⟩

/-- What ends a run is no GETTICK. -/
theorem Advances.not_readsClock {outcome : Outcome} (h : r.Advances (some outcome) k r') :
    ¬ r.machine.ReadsClock := by
  rintro ⟨hexecuted, _⟩
  cases h with
  | faults e m h | halts e m h =>
      rw [h] at hexecuted
      cases hexecuted
  | stays h | finishes h =>
      rw [step_of_idle? h] at hexecuted
      cases hexecuted

/-- The waits of the one run need not be those of the other. -/
theorem Stretch.timeless (h : Stretch n r o k r') (hr : r.Ready) (hsame : r.timeless = s.timeless)
    {total : Nat} (htotal : p.steps + n = total)
    (hquiet : ∀ m ∈ executions (stepLimits total) (2 * n + 1) p r, ¬ m.ReadsClock) :
    ∃ s', Stretch n s o k s' ∧ r'.timeless = s'.timeless := by
  induction h generalizing p s with
  | limit r => exact ⟨s, .limit s, hsame⟩
  | @ends n r r' outcome k h =>
      have hawake : r.awake.timeless = s.awake.timeless := by
        rw [timeless_awake, timeless_awake, hsame]
      obtain ⟨s', hadvances, hafter⟩ := h.timeless hawake (idle?_awake s) h.not_readsClock
      exact ⟨s', .ends hadvances, hafter⟩
  | @goesOn n r r' r'' o k h rest ih =>
      have hawake : r.awake.timeless = s.awake.timeless := by
        rw [timeless_awake, timeless_awake, hsame]
      have hexecutes : executions (stepLimits total) (2 * n + 2) p r.awake
          = r.awake.machine ::
            executions (stepLimits total) (2 * n + 1) { p with steps := p.steps + 1 } r' :=
        executions_of_advances (hr.awake.within (by omega)) h
      have hall : ∀ m ∈ executions (stepLimits total) (2 * n + 2) p r.awake, ¬ m.ReadsClock :=
        fun m hm => hquiet m (mem_executions_of_awake (hr.within (by omega)) hr.driven hm)
      rw [hexecutes, List.forall_mem_cons] at hall
      obtain ⟨hfirst, hlater⟩ := hall
      obtain ⟨s', hadvances, hafter⟩ := h.timeless hawake (idle?_awake s) hfirst
      obtain ⟨s'', hstretch, hend⟩ := ih (h.ready hr.awake) hafter
        (show p.steps + 1 + n = total by omega) hlater
      exact ⟨s'', .goesOn hadvances hstretch, hend⟩

/-- A run of a paused runner is over at once. -/
theorem runSteps_of_paused (hpaused : r.paused = true) (n : Nat) :
    r.runSteps n = closed .stepLimit (some .paused, {}, r.refreshed) := by
  have hrefreshed : r.refreshed.paused = true := by
    unfold refreshed
    split <;> exact hpaused
  have hturns : turns (stepLimits n) (2 * n + 1) {} r.refreshed
      = (some .paused, {}, r.refreshed) := by
    rw [turns, turn, if_pos hrefreshed]
  exact congrArg (closed .stepLimit) hturns

theorem runSteps_timeless (hdriven : r.machine.clock.motion = .driven)
    (hsame : r.timeless = s.timeless) (hquiet : ∀ m ∈ r.runStepsExecutions n, ¬ m.ReadsClock) :
    (r.runSteps n).1 = (s.runSteps n).1 ∧
      (r.runSteps n).2.timeless = (s.runSteps n).2.timeless := by
  have hrefreshed : r.refreshed.timeless = s.refreshed.timeless := by
    rw [timeless_refreshed, timeless_refreshed, hsame]
  cases hpaused : r.paused with
  | true =>
      have hpaused' : s.paused = true := (congrArg Runner.paused hsame).symm.trans hpaused
      rw [runSteps_of_paused hpaused, runSteps_of_paused hpaused']
      exact timeless_closed _ _ hrefreshed
  | false =>
      have hr : r.Ready := ⟨hpaused, hdriven⟩
      obtain ⟨o, k, r', h⟩ := exists_stretch n r.refreshed
      obtain ⟨s', h', hend⟩ := h.timeless hr.refreshed hrefreshed (p := {}) (Nat.zero_add n) hquiet
      rw [runSteps_of_stretch hr h, runSteps_of_stretch (hr.of_timeless hsame) h']
      exact timeless_closed _ _ hend

/-- Two runs of one program by runners with the same setup end alike, whatever ticks their driven
clocks start at, if the first one executes no GETTICK. -/
theorem runSteps_any_start {image : Image} {robot : R} {t₁ t₂ : UInt32} {m₁ m₂ : Machine R}
    (h₁ : Machine.start image robot (.driven t₁) = .ok m₁)
    (h₂ : Machine.start image robot (.driven t₂) = .ok m₂) (setup : Runner R) (n : Nat)
    (hquiet : ∀ m ∈ { setup with machine := m₁ }.runStepsExecutions n, ¬ m.ReadsClock) :
    let run₁ := { setup with machine := m₁ }.runSteps n
    let run₂ := { setup with machine := m₂ }.runSteps n
    run₁.1 = run₂.1 ∧ run₁.2.machine.SameButTime run₂.2.machine ∧
      run₂.2 = { run₁.2 with machine := run₂.2.machine } := by
  obtain ⟨hstart, hdriven⟩ := Machine.timeless_start h₁ h₂
  have hsame : ({ setup with machine := m₁ } : Runner R).timeless
      = ({ setup with machine := m₂ } : Runner R).timeless :=
    congrArg (fun t : Machine R => { setup with machine := t }) hstart
  obtain ⟨hsummary, hrunner⟩ := runSteps_timeless hdriven hsame hquiet
  obtain ⟨hsetup, hmachine⟩ := eq_of_timeless hrunner
  exact ⟨hsummary, Machine.sameButTime_of_timeless hmachine, hsetup⟩

/-- A program that waits for 70 milliseconds, doubles a number, waits for as long again, then for so
many milliseconds as the number says, and fails to wait before it ends with an addition. -/
def waitAndAdd : Image :=
  (({ dataspace := (({} : Dataspace).scalar .slong 70).scalar .ubyte 254 } : Program)
    |>.addClump (assemble [.wait 0, .add 1 1 1, .wait 0, .wait 1, .wait 9, .add 1 1 0]) [] 0).toImage

def startOfWaitAndAdd (tick : UInt32) : Machine HeadlessRobot where
  image := waitAndAdd
  memory := ⟨waitAndAdd.toc, #[70, 0, 0, 0, 254], #[⟨⟨5, 10, 1, 0, 0xFFFF⟩, #[]⟩], [0, 1]⟩
  control := {}
  halted := false
  robot := .ofSensors []
  clock := .driven tick
  diagnostics := #[]
  seen := []

/-- One run has to wait three times, and the clock of the other one reaches the last tick in the
second wait. -/
theorem waitAndAdd_any_start :
    let early : Runner HeadlessRobot := { machine := startOfWaitAndAdd 0 }
    let late : Runner HeadlessRobot := { machine := startOfWaitAndAdd 4294967200 }
    Machine.start waitAndAdd (HeadlessRobot.ofSensors []) (.driven 0)
      = .ok (startOfWaitAndAdd 0) ∧
    Machine.start waitAndAdd (HeadlessRobot.ofSensors []) (.driven 4294967200)
      = .ok (startOfWaitAndAdd 4294967200) ∧
    (∀ m ∈ early.runStepsExecutions 9, ¬ m.ReadsClock) ∧
    (early.runSteps 9).1 = (late.runSteps 9).1 ∧ (early.runSteps 9).1.steps = 6 ∧
    (early.runSteps 9).2.machine.memory = (late.runSteps 9).2.machine.memory ∧
    (early.runSteps 9).2.machine.clock.tick = 392 ∧
    (late.runSteps 9).2.machine.clock.tick = 4294967295 := by
  intro early late
  have hearly : Machine.start waitAndAdd (HeadlessRobot.ofSensors []) (.driven 0)
      = .ok (startOfWaitAndAdd 0) := rfl
  have hlate : Machine.start waitAndAdd (HeadlessRobot.ofSensors []) (.driven 4294967200)
      = .ok (startOfWaitAndAdd 4294967200) := rfl
  have hquiet : ∀ m ∈ early.runStepsExecutions 9, ¬ m.ReadsClock := by decide +kernel
  obtain ⟨hsummary, hmachine, _⟩ := runSteps_any_start hearly hlate early 9 hquiet
  exact ⟨hearly, hlate, hquiet, hsummary, by decide +kernel, hmachine.memory, by decide +kernel,
    by decide +kernel⟩

end Runner

end BrickMachine
