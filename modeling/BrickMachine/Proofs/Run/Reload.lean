import BrickMachine.Image.Program
import BrickMachine.Proofs.Run.Errors

/-!
# Starting over

A reset builds the memory of a machine anew and puts every other part back, and a start makes a
machine from an image. The two agree on every machine that a start can lead to, because the image of
a machine is never exchanged: what was loaded once is loaded again.

A reload resets the machine of a runner and forgets the history of its runs. What was set up for the
runs, and the image, are the `configuration` of a runner; no run and nothing that a host does
changes it. So the runner after a reload is one that was made for a machine that has just been
started.
-/

namespace BrickMachine

namespace Machine

variable {R : Type} {m m₀ : Machine R} {image : Image} {robot : R} {clock : Clock}

/-- A machine with the image of one that was started is reset to what a start would make, with the
robot and the clock that it has. -/
theorem reset_of_start (h : start image robot clock = .ok m₀) (himage : m.image = image) :
    m.reset = .ok (fresh image m₀.memory m.robot m.clock) ∧
      start image m.robot m.clock = .ok (fresh image m₀.memory m.robot m.clock) := by
  obtain ⟨memory, hload, rfl⟩ := start_eq_ok_iff.1 h
  subst himage
  exact ⟨reset_eq_ok_iff.2 ⟨memory, hload, rfl⟩, start_eq_ok_iff.2 ⟨memory, hload, rfl⟩⟩

end Machine

namespace Runner

open Run

variable {R : Type} {r : Runner R}

/-- What stays as it is in all the runs of a runner. -/
structure Configuration where
  image : Image
  haltOnFault : Bool
  maxSteps : Option Nat
  timeBudget : Option Nat

def configuration (r : Runner R) : Configuration :=
  ⟨r.machine.image, r.haltOnFault, r.maxSteps, r.timeBudget⟩

@[simp] theorem configuration_refreshed (r : Runner R) :
    r.refreshed.configuration = r.configuration := by
  unfold refreshed
  split <;> rfl

theorem configuration_await (l : Limits) (p : Progress) (r : Runner R) (tick : UInt32) :
    (r.await l p tick).2.2.configuration = r.configuration := by
  unfold await
  split
  · rfl
  split
  · rfl
  split
  · rfl
  split <;> rfl

variable [Robot R]

theorem Advances.configuration {o : Option Outcome} {k : Nat} {r' : Runner R}
    (h : r.Advances o k r') : r'.configuration = r.configuration := by
  have himage := r.machine.fixed_step.1
  cases h with
  | executes m h | passes e m h | faults e m h | halts e m h =>
      rw [h] at himage
      simpa [Runner.configuration] using himage
  | stays | finishes => rfl

theorem configuration_advance (l : Limits) (p : Progress) (r : Runner R) :
    (r.advance l p).2.2.configuration = r.configuration := by
  by_cases hwaits : ∃ tick, r.machine.idle? = some (.waiting tick)
  · obtain ⟨tick, hidle⟩ := hwaits
    simp [advance, step_of_idle? hidle, configuration_await]
  · obtain ⟨o, k, r', h⟩ := exists_advances fun tick hidle => hwaits ⟨tick, hidle⟩
    rw [h.advance, h.configuration]

@[simp] theorem configuration_turn (l : Limits) (p : Progress) (r : Runner R) :
    (r.turn l p).2.2.configuration = r.configuration := by
  unfold turn
  split
  · rfl
  split
  · rfl
  split
  · rfl
  · exact configuration_advance l p r

@[simp] theorem configuration_turns (l : Limits) (n : Nat) (p : Progress) (r : Runner R) :
    (turns l n p r).2.2.configuration = r.configuration := by
  induction n generalizing p r with
  | zero => rfl
  | succ n ih =>
      have hturn := configuration_turn l p r
      rw [turns]
      rcases hnext : r.turn l p with ⟨_ | outcome, p', r'⟩ <;> rw [hnext] at hturn
      · rw [← hturn]
        exact ih p' r'
      · exact hturn

@[simp] theorem configuration_cutOff (l : Limits) (x : Option Outcome × Progress × Runner R) :
    (cutOff l x).2.2.configuration = x.2.2.configuration := by
  rcases x with ⟨_ | outcome, p, r⟩ <;> simp [cutOff]

@[simp] theorem configuration_closed {R : Type} (otherwise : Outcome)
    (x : Option Outcome × Progress × Runner R) :
    (closed otherwise x).2.configuration = x.2.2.configuration := rfl

/-! ### Uses -/

def runForUntil (ms n : Nat) (r : Runner R) : Summary × Runner R :=
  let l : Limits := { steps := r.maxSteps, time := some ms, sleeps := true }
  closed .timeBudget (cutOff l (turns l n {} r.refreshed))

theorem configuration_run (l : Limits) (r : Runner R) :
    (r.run l).2.configuration = r.configuration := by
  simp [run_eq]

inductive Use (R : Type) where
  | call (c : Call)
  | runFor (ms : Nat)
  | runForUntil (ms turns : Nat)
  | interact (a : Interaction R)
  /-- A reset of the machine alone. If it fails, nothing changes. -/
  | resetMachine

def Use.apply : Use R → Runner R → Option Summary × Runner R
  | call c, r => ((c.run? r).map Prod.fst, c.apply r)
  | runFor ms, r => (some (r.runFor ms).1, (r.runFor ms).2)
  | runForUntil ms n, r => (some (r.runForUntil ms n).1, (r.runForUntil ms n).2)
  | interact a, r => (none, { r with machine := a.apply r.machine })
  | resetMachine, r => (none, { r with machine := r.machine.reset.toOption.getD r.machine })

def after (r : Runner R) : List (Use R) → Runner R
  | [] => r
  | u :: uses => (u.apply r).2.after uses

def summaries (r : Runner R) : List (Use R) → List Summary
  | [] => []
  | u :: uses => (u.apply r).1.toList ++ (u.apply r).2.summaries uses

theorem configuration_resetMachine {R : Type} (r : Runner R) :
    { r with machine := r.machine.reset.toOption.getD r.machine }.configuration
      = r.configuration := by
  cases hreset : r.machine.reset with
  | error => rfl
  | ok m =>
      obtain ⟨memory, _, rfl⟩ := Machine.reset_eq_ok_iff.1 hreset
      rfl

theorem reload_eq_ok_iff {R : Type} {r r' : Runner R} :
    r.reload = .ok r' ↔ ∃ m, r.machine.reset = .ok m ∧
      r' =
        { machine := m
          haltOnFault := r.haltOnFault
          maxSteps := r.maxSteps
          timeBudget := r.timeBudget } := by
  simp [reload, bind_eq_ok_iff, eq_comm (a := r')]

theorem configuration_reload {R : Type} (r : Runner R) :
    (r.reload.toOption.getD r).configuration = r.configuration := by
  cases hreload : r.reload with
  | error => rfl
  | ok r' =>
      obtain ⟨m, hreset, rfl⟩ := reload_eq_ok_iff.1 hreload
      obtain ⟨memory, _, rfl⟩ := Machine.reset_eq_ok_iff.1 hreset
      rfl

theorem configuration_call (c : Call) (r : Runner R) :
    (c.apply r).configuration = r.configuration := by
  cases c with
  | runSteps n => exact configuration_run { steps := some n, time := none, sleeps := false } r
  | runToCompletion => exact configuration_run r.completion r
  | runUntil n => simp [Call.apply, runUntil]
  | setPaused => rfl
  | reload => exact configuration_reload r

theorem configuration_apply (u : Use R) (r : Runner R) :
    (u.apply r).2.configuration = r.configuration := by
  cases u with
  | call c => exact configuration_call c r
  | runFor ms => exact configuration_run _ r
  | runForUntil ms n => simp [Use.apply, runForUntil]
  | interact a => simp [Use.apply, configuration, Machine.image_apply]
  | resetMachine => exact configuration_resetMachine r

theorem configuration_after (r : Runner R) (uses : List (Use R)) :
    (r.after uses).configuration = r.configuration := by
  induction uses generalizing r with
  | nil => rfl
  | cons u uses ih => exact (ih _).trans (configuration_apply u r)

/-- From any machine that has been started, whatever a host and the program then do and whether or
not the machine is halted: a reset succeeds, and makes every part of the machine what a start with
the same robot and clock makes it. A reload of a runner with such a machine, after any uses of it,
succeeds as well, and gives a runner that is set up as before for such a machine, has no history and
is not paused. So it reports in every later run what a runner reports that is made for this machine.
-/
theorem starts_over {image : Image} {robot : R} {clock : Clock} {m₀ : Machine R}
    (h : Machine.start image robot clock = .ok m₀) (actions : List (Interaction R)) :
    (∃ m', (m₀.after actions).reset = .ok m' ∧
      Machine.start image (m₀.after actions).robot (m₀.after actions).clock = .ok m' ∧
      m' =
        { image
          memory := m₀.memory
          control := Machine.startControl image
          halted := false
          robot := (m₀.after actions).robot
          clock := (m₀.after actions).clock
          diagnostics := #[]
          seen := [] }) ∧
    ∀ haltOnFault maxSteps timeBudget uses,
      let r : Runner R :=
        after { machine := m₀.after actions, haltOnFault, maxSteps, timeBudget } uses
      ∃ r' m', r.reload = .ok r' ∧
        Machine.start image r.machine.robot r.machine.clock = .ok m' ∧
        r' =
          { machine := m'
            paused := false
            haltOnFault
            maxSteps
            timeBudget
            totalSteps := 0
            error := none } ∧
        ∀ later, r'.summaries later =
          summaries { machine := m', haltOnFault, maxSteps, timeBudget } later := by
  have hafter : (m₀.after actions).image = image := by
    rw [Machine.image_after, Machine.image_of_start h]
  constructor
  · obtain ⟨hreset, hstart⟩ := Machine.reset_of_start h hafter
    exact ⟨_, hreset, hstart, rfl⟩
  · intro haltOnFault maxSteps timeBudget uses r
    have hr : r.configuration = ⟨image, haltOnFault, maxSteps, timeBudget⟩ := by
      rw [← hafter]
      exact configuration_after _ uses
    obtain ⟨himage, hhaltOnFault, hmaxSteps, htimeBudget⟩ := Configuration.mk.inj hr
    obtain ⟨hreset, hstart⟩ := Machine.reset_of_start h himage
    refine ⟨_, _, reload_eq_ok_iff.2 ⟨_, hreset, rfl⟩, hstart, ?_⟩
    rw [hhaltOnFault, hmaxSteps, htimeBudget]
    exact ⟨rfl, fun later => rfl⟩

/-- A program with an instruction that is not supported, a store, a wait and a return without a
call. -/
def waitAndReturn : Image :=
  (({ dataspace := ({} : Dataspace).scalar .ubyte 1 } : Program)
    |>.addClump (assemble [.long .strCat 0 [0, 0], .set 0 5, .wait 0, .subRet 0]) [] 0).toImage

def startOfWaitAndReturn : Machine HeadlessRobot where
  image := waitAndReturn
  memory := ⟨waitAndReturn.toc, #[1], #[⟨⟨1, 10, 1, 0, 0xFFFF⟩, #[]⟩], [0]⟩
  control := {}
  halted := false
  robot := .ofSensors []
  clock := .driven 0
  diagnostics := #[]
  seen := []

def stepsOfWaitAndReturn : List (Interaction HeadlessRobot) :=
  [.step, .takeDiagnostics, .step, .step, .changeClock (·.put 9), .step]

def usesOfWaitAndReturn : List (Use HeadlessRobot) :=
  [.call (.setPaused true), .runFor 5, .interact (.changeClock (·.put 4))]

theorem waitAndReturn_starts_over :
    let m := startOfWaitAndReturn.after stepsOfWaitAndReturn
    let r : Runner HeadlessRobot := after { machine := m, maxSteps := some 9 } usesOfWaitAndReturn
    m.halted = true ∧ m.seen = [⟨0, .unsupportedOpcode .strCat⟩] ∧ m.control.resumeAt = 5 ∧
    (∃ m', m.reset = .ok m' ∧ m'.control.resumeAt = 0 ∧ m'.memory = startOfWaitAndReturn.memory ∧
      m'.seen = [] ∧ m'.clock.tick = 9) ∧
    ∃ r', r.reload = .ok r' ∧ r'.paused = false ∧
      (r'.summaries [.call (.runSteps 1), .call .runToCompletion]).map
          (fun s => (s.steps, s.outcome))
        = [(1, .stepLimit), (3, .halted (some (.returnWithoutCall 9)))] := by
  intro m r
  have hstart : Machine.start waitAndReturn (.ofSensors []) (.driven 0)
      = .ok startOfWaitAndReturn := rfl
  obtain ⟨⟨m', hreset, _, hm'⟩, hreload⟩ := starts_over hstart stepsOfWaitAndReturn
  obtain ⟨_, machine, hr, hmachine, rfl, hlater⟩ :=
    hreload false (some 9) none usesOfWaitAndReturn
  obtain rfl : machine =
      { startOfWaitAndReturn with robot := r.machine.robot, clock := r.machine.clock } :=
    Except.ok.inj (hmachine.symm.trans rfl)
  refine ⟨by decide +kernel, by decide +kernel, by decide +kernel,
    ⟨m', hreset, ?_, ?_, ?_, ?_⟩, _, hr, rfl, ?_⟩
  · simp [hm', Machine.startControl]
  · simp [hm']
  · simp [hm']
  · rw [hm']
    decide +kernel
  · rw [hlater]
    decide +kernel

end Runner

end BrickMachine
