import BrickMachine.Proofs.Machine.Halting
import BrickMachine.Run.Runner

/-!
# The turns of a run

A turn ends a run at a limit, waits, or does with the step of the machine what `Advances` says: it
goes on, or it ends the run with an outcome, and what it does depends neither on the limits nor on
the progress of the run.

If the clock is driven, a turn that waits is followed by one that does not, since the clock then
stands at the end of the wait. `awake` is the runner after such a turn.
-/

namespace BrickMachine

namespace Runner

open Run

variable {R : Type} {r r' : Runner R} {o : Option Outcome} {k n : Nat} {l : Limits}
variable {p p' : Progress}

/-- The runner at the beginning of a run. It has forgotten the error of an earlier run, unless that
has halted the machine. -/
def refreshed (r : Runner R) : Runner R :=
  if r.machine.halted then r else { r with error := none }

/-- The summary of a run whose turns have come this far, and the runner after it. If no turn has
ended the run, `otherwise` is the outcome. -/
def closed (otherwise : Outcome) : Option Outcome × Progress × Runner R → Summary × Runner R
  | (o, p, r) =>
    ({ steps := p.steps, outcome := o.getD otherwise, diagnostics := r.machine.diagnostics },
      { r with totalSteps := r.totalSteps + p.steps })

def Settled (r : Runner R) : Prop := r.machine.halted = true ∨ r.error = none

theorem settled_refreshed (r : Runner R) : r.refreshed.Settled := by
  unfold refreshed
  split
  case isTrue h => exact Or.inl h
  case isFalse => exact Or.inr rfl

/-- A settled runner has nothing to forget. -/
theorem Settled.refreshed (h : r.Settled) : r.refreshed = r := by
  unfold Runner.refreshed
  split
  · rfl
  case isFalse hrunning =>
    have herror : r.error = none := h.resolve_left hrunning
    rw [← herror]

structure Within (l : Limits) (p : Progress) (r : Runner R) : Prop where
  running : r.paused = false
  steps : l.stepsReached p = false
  time : l.timeReached p = false

/-! ### Waits -/

def awake (r : Runner R) : Runner R :=
  match r.machine.idle? with
  | some (.waiting tick) =>
    let clock := { r.machine.clock with tick := max r.machine.clock.tick tick }
    { r with machine := { r.machine with clock } }
  | _ => r

theorem awake_of_waiting {tick : UInt32} (h : r.machine.idle? = some (.waiting tick)) :
    r.awake = { r with machine := { r.machine with clock :=
      { r.machine.clock with tick := max r.machine.clock.tick tick } } } := by
  unfold awake
  rw [h]

theorem awake_eq_self (h : ∀ tick, r.machine.idle? ≠ some (.waiting tick)) : r.awake = r := by
  unfold awake
  split
  case h_1 tick hidle => exact absurd hidle (h tick)
  case h_2 => rfl

theorem le_deadline (now deadline : UInt32) : deadline ≤ max now deadline := by
  change deadline ≤ if now ≤ deadline then deadline else now
  split
  case isTrue => exact UInt32.le_refl _
  case isFalse h => exact UInt32.le_of_lt (UInt32.not_le.1 h)

/-- At the end of the wait the machine does not wait. -/
theorem idle?_awake (r : Runner R) (tick : UInt32) :
    r.awake.machine.idle? ≠ some (.waiting tick) := by
  intro h
  by_cases hidle : ∃ tick, r.machine.idle? = some (.waiting tick)
  · obtain ⟨deadline, hdeadline⟩ := hidle
    obtain ⟨_, rfl⟩ := Machine.waiting_of_idle? hdeadline
    rw [awake_of_waiting hdeadline] at h
    obtain ⟨hwaiting, _⟩ := Machine.waiting_of_idle? h
    have hlt : max r.machine.clock.tick r.machine.control.resumeAt < r.machine.control.resumeAt :=
      of_decide_eq_true hwaiting
    exact absurd hlt (UInt32.not_lt.2 (le_deadline _ _))
  · rw [awake_eq_self fun deadline hdeadline => hidle ⟨deadline, hdeadline⟩] at h
    exact hidle ⟨tick, h⟩

theorem awake_setup (r : Runner R) :
    r.awake.paused = r.paused ∧ r.awake.haltOnFault = r.haltOnFault ∧
      r.awake.totalSteps = r.totalSteps ∧
      r.awake.machine.clock.motion = r.machine.clock.motion := by
  unfold awake
  split <;> exact ⟨rfl, rfl, rfl, rfl⟩

theorem Settled.awake (h : r.Settled) : r.awake.Settled := by
  unfold Runner.awake
  split <;> exact h

variable [Robot R]

theorem run_eq (l : Limits) (r : Runner R) :
    r.run l = closed .stepLimit (turns l (turnLimit l) {} r.refreshed) := rfl

/-! ### What a step means for a run -/

/-- What a turn does with a step of the machine that does not wait: whether it ends the run, for how
many instructions it counts, and the runner afterwards. -/
inductive Advances (r : Runner R) : Option Outcome → Nat → Runner R → Prop where
  | executes (m : Machine R) (h : r.machine.step = (.ok .executed, m)) :
      Advances r none 1 { r with machine := m }
  | passes (e : MemoryError) (m : Machine R) (h : r.machine.step = (.error (.memory e), m))
      (hpolicy : r.haltOnFault = false) :
      Advances r none 1 { r with machine := m }
  | faults (e : MemoryError) (m : Machine R) (h : r.machine.step = (.error (.memory e), m))
      (hpolicy : r.haltOnFault = true) :
      Advances r (some (.faulted e)) 1 { r with machine := m, error := some (.memory e) }
  | halts (e : Machine.Error) (m : Machine R) (h : r.machine.step = (.error e, m))
      (hfatal : e.isFatal = true) :
      Advances r (some { r with error := some e }.haltedOutcome) 1
        { r with machine := m, error := some e }
  | stays (h : r.machine.idle? = some .halted) : Advances r (some r.haltedOutcome) 0 r
  | finishes (h : r.machine.idle? = some .finished) : Advances r (some .finished) 0 r

/-- A machine that does not wait has a step that means something for the run. -/
theorem exists_advances (h : ∀ tick, r.machine.idle? ≠ some (.waiting tick)) :
    ∃ o k r', r.Advances o k r' := by
  rcases hstep : r.machine.step with ⟨e | o, m⟩
  · cases e with
    | memory e =>
        cases hpolicy : r.haltOnFault with
        | false => exact ⟨_, _, _, .passes e m hstep hpolicy⟩
        | true => exact ⟨_, _, _, .faults e m hstep hpolicy⟩
    | _ => exact ⟨_, _, _, .halts _ m hstep rfl⟩
  · cases o with
    | executed => exact ⟨_, _, _, .executes m hstep⟩
    | waiting tick => exact absurd (Machine.idle?_of_step hstep nofun).1 (h tick)
    | halted => exact ⟨_, _, _, .stays (Machine.idle?_of_step hstep nofun).1⟩
    | finished => exact ⟨_, _, _, .finishes (Machine.idle?_of_step hstep nofun).1⟩

theorem step_of_idle? {s : Machine.StepOutcome} (h : r.machine.idle? = some s) :
    r.machine.step = (.ok s, r.machine) := by
  rw [Machine.step_eq, h]

namespace Advances

theorem advance (h : r.Advances o k r') (l : Limits) (p : Progress) :
    r.advance l p = (o, { p with steps := p.steps + k }, r') := by
  cases h with
  | executes m h => simp [Runner.advance, h]
  | passes e m h hpolicy => simp [Runner.advance, h, hpolicy]
  | faults e m h hpolicy => simp [Runner.advance, h, hpolicy]
  | halts e m h hfatal =>
      cases e with
      | memory e => cases hfatal
      | _ => simp [Runner.advance, h, haltedOutcome]
  | stays h => simp [Runner.advance, step_of_idle? h]
  | finishes h => simp [Runner.advance, step_of_idle? h]

/-- A step changes neither the clock nor what is set up for the runs. -/
theorem setup (h : r.Advances o k r') :
    r'.paused = r.paused ∧ r'.haltOnFault = r.haltOnFault ∧ r'.totalSteps = r.totalSteps ∧
      r'.machine.clock = r.machine.clock := by
  have hclock := r.machine.fixed_step.2
  cases h with
  | executes m h | passes e m h | faults e m h | halts e m h =>
      rw [h] at hclock
      exact ⟨rfl, rfl, rfl, hclock⟩
  | stays | finishes => exact ⟨rfl, rfl, rfl, rfl⟩

theorem not_waiting (h : r.Advances o k r') (tick : UInt32) :
    r.machine.idle? ≠ some (.waiting tick) := by
  intro hidle
  have hwaits := step_of_idle? hidle
  cases h with
  | executes m h | passes e m h | faults e m h | halts e m h =>
      rw [h] at hwaits
      cases hwaits
  | stays h | finishes h =>
      rw [h] at hidle
      cases hidle

/-- A fatal error halts the machine. -/
theorem halted_of_fatal {m : Machine R} {e : Machine.Error} (h : r.machine.step = (.error e, m))
    (hfatal : e.isFatal = true) : m.halted = true := by
  have hstep := Machine.step_of_fatal (m := r.machine) (by rw [h]; exact hfatal)
  rw [h] at hstep
  exact congrArg Machine.halted hstep

/-- Only a memory error is kept while the machine runs on. -/
theorem settled (h : r.Advances o k r') (hr : r.Settled) (hfault : ∀ e, o ≠ some (.faulted e)) :
    r'.Settled := by
  have herror {s : Except Machine.Error Machine.StepOutcome} {m : Machine R}
      (h : r.machine.step = (s, m)) (hs : s ≠ .ok .halted) : r.error = none := by
    refine hr.resolve_left fun hhalted => hs ?_
    rw [Machine.step_of_halted hhalted] at h
    exact (congrArg Prod.fst h).symm
  cases h with
  | executes m h => exact Or.inr (herror h nofun)
  | passes e m h => exact Or.inr (herror h nofun)
  | faults e m h => exact absurd rfl (hfault e)
  | halts e m h hfatal => exact Or.inl (halted_of_fatal h hfatal)
  | stays | finishes => exact hr

/-- The end of a run ends every later run, unless it was a memory error. -/
theorem repeats {outcome : Outcome} (h : r.Advances (some outcome) k r')
    (hfault : ∀ e, outcome ≠ .faulted e) : r'.Advances (some outcome) 0 r' := by
  cases h with
  | faults e m h => exact absurd rfl (hfault e)
  | halts e m h hfatal =>
      have hidle : m.idle? = some .halted := if_pos (halted_of_fatal h hfatal)
      exact stays hidle
  | stays h => exact stays h
  | finishes h => exact finishes h

end Advances

/-! ### Turns within the limits -/

theorem turn_of_within (h : r.Within l p) : r.turn l p = r.advance l p := by
  unfold turn
  rw [h.running, h.steps, h.time]
  rfl

theorem turn_of_advances (h : r.Within l p) (hadvances : r.Advances o k r') :
    r.turn l p = (o, { p with steps := p.steps + k }, r') :=
  (turn_of_within h).trans (hadvances.advance l p)

/-- A turn on a driven clock that waits. -/
theorem turn_of_waiting {tick : UInt32} (h : r.Within l p)
    (hdriven : r.machine.clock.motion = .driven) (hidle : r.machine.idle? = some (.waiting tick)) :
    r.turn l p = (none, p, r.awake) := by
  have hadvance : r.advance l p = r.await l p tick := by
    unfold advance
    rw [step_of_idle? hidle]
  have hclock : r.machine.clock.advanceTo? tick
      = some { r.machine.clock with tick := max r.machine.clock.tick tick } := by
    simp only [Clock.advanceTo?, hdriven]
  rw [turn_of_within h, hadvance, awake_of_waiting hidle, await, hclock]

theorem turns_succ {outcome : Outcome} (h : turns l n p r = (some outcome, p', r')) :
    turns l (n + 1) p r = (some outcome, p', r') := by
  induction n generalizing p r with
  | zero => cases h
  | succ n ih =>
      rw [turns] at h ⊢
      rcases hturn : r.turn l p with ⟨_ | o, p₁, r₁⟩ <;> rw [hturn] at h
      · exact ih h
      · exact h

/-- A wait takes one more turn. -/
theorem turns_of_awake {outcome : Outcome} (hwithin : r.Within l p)
    (hdriven : r.machine.clock.motion = .driven)
    (h : turns l n p r.awake = (some outcome, p', r')) :
    turns l (n + 1) p r = (some outcome, p', r') := by
  by_cases hidle : ∃ tick, r.machine.idle? = some (.waiting tick)
  · obtain ⟨tick, hidle⟩ := hidle
    rw [turns, turn_of_waiting hwithin hdriven hidle]
    exact h
  · rw [awake_eq_self fun tick htick => hidle ⟨tick, htick⟩] at h
    exact turns_succ h

end Runner

end BrickMachine
