import BrickMachine.Proofs.Run.StartTime

/-!
# Runs end

A turn that does not end a run of at most `n` instructions executes one of them, or it moves a
driven clock to the end of a wait; then the next turn does not wait. So there is a number that every
turn makes smaller, and `ends_of_measure` bounds by it both the turns of a run and the steps that
its machine makes in them.

A clock that cannot be driven may move by itself while a run goes on. `turnsAmid` are turns before
each of which the clock has moved in some way.
-/

namespace BrickMachine

namespace Run

def Outcome.isUntimely : Outcome → Bool
  | waiting _ | timeBudget => true
  | _ => false

end Run

def Machine.isExecution : Except Machine.Error Machine.StepOutcome → Bool
  | .ok .executed | .error _ => true
  | _ => false

namespace Runner

open Run

variable {R : Type}

instance decidableWithin (l : Limits) (p : Progress) (r : Runner R) : Decidable (r.Within l p) :=
  decidable_of_iff (r.paused = false ∧ l.stepsReached p = false ∧ l.timeReached p = false)
    ⟨fun h => ⟨h.1, h.2.1, h.2.2⟩, fun h => ⟨h.running, h.steps, h.time⟩⟩

def drifted (f : Clock → Clock) (r : Runner R) : Runner R :=
  { r with machine := { r.machine with clock := f r.machine.clock } }

theorem Within.lt {r : Runner R} {n : Nat} {p : Progress} (h : r.Within (stepLimits n) p) :
    p.steps < n :=
  Nat.not_le.1 (of_decide_eq_false h.steps)

/-! ### Clocks -/

/-- Time that passes is not taken back. -/
theorem tick_le_deadline (c : Clock) (ms : Nat) : c.tick ≤ c.deadline ms := by
  have hlast : c.tick.toNat < 2 ^ 32 := c.tick.toNat_lt
  rw [UInt32.le_iff_toNat_le, Clock.deadline, UInt32.toNat_ofNat']
  omega

theorem tick_await (l : Limits) (p : Progress) (r : Runner R) (tick : UInt32) :
    r.machine.clock.tick ≤ (r.await l p tick).2.2.machine.clock.tick ∧
      (r.await l p tick).2.2.machine.clock.motion = r.machine.clock.motion := by
  have hsame : r.machine.clock.tick ≤ r.machine.clock.tick ∧
      r.machine.clock.motion = r.machine.clock.motion := ⟨UInt32.le_refl _, rfl⟩
  unfold await
  split
  case h_1 clock hclock =>
    unfold Clock.advanceTo? at hclock
    split at hclock
    case h_1 =>
      cases hclock
      refine ⟨?_, rfl⟩
      change r.machine.clock.tick
        ≤ if r.machine.clock.tick ≤ tick then tick else r.machine.clock.tick
      split
      case isTrue h => exact h
      case isFalse => exact UInt32.le_refl _
    all_goals cases hclock
  case h_2 =>
    split
    · exact hsame
    · split
      · exact ⟨tick_le_deadline _ _, rfl⟩
      · split <;> exact hsame

/-! ### Waits -/

def waits (r : Runner R) : Bool :=
  match r.machine.idle? with
  | some (.waiting _) => true
  | _ => false

/-- The turns that a run on a driven clock may still take before it is at its limit: two for each
instruction, and one less if the machine does not wait now. -/
def turnsLeft (n : Nat) (p : Progress) (r : Runner R) : Nat :=
  2 * (n - p.steps) - if r.waits then 0 else 1

theorem waits_eq_false {r : Runner R} (h : ∀ tick, r.machine.idle? ≠ some (.waiting tick)) :
    r.waits = false := by
  unfold waits
  split
  case h_1 tick hidle => exact absurd hidle (h tick)
  case h_2 => rfl

variable [Robot R] {r r' : Runner R} {l : Limits} {p p' : Progress} {n : Nat}
variable {o : Option Outcome} {k : Nat}

/-! ### One turn -/

/-- What a turn can do: end the run at a limit, wait, or do what a step means for the run. -/
theorem turn_cases (l : Limits) (p : Progress) (r : Runner R) :
    (¬ r.Within l p ∧ ∃ outcome, r.turn l p = (some outcome, p, r) ∧
      (outcome = .paused ∨ outcome = .stepLimit ∨ l.timeReached p = true)) ∨
    (r.Within l p ∧ ∃ tick, r.machine.idle? = some (.waiting tick) ∧
      r.turn l p = r.await l p tick) ∨
    (r.Within l p ∧ ∃ o k r', r.Advances o k r' ∧
      r.turn l p = (o, { p with steps := p.steps + k }, r')) := by
  by_cases hwithin : r.Within l p
  · refine Or.inr ?_
    by_cases hidle : ∃ tick, r.machine.idle? = some (.waiting tick)
    · obtain ⟨tick, hidle⟩ := hidle
      refine Or.inl ⟨hwithin, tick, hidle, ?_⟩
      rw [turn_of_within hwithin, advance, step_of_idle? hidle]
    · obtain ⟨o, k, r', h⟩ := exists_advances fun tick htick => hidle ⟨tick, htick⟩
      exact Or.inr ⟨hwithin, o, k, r', h, turn_of_advances hwithin h⟩
  · refine Or.inl ⟨hwithin, ?_⟩
    unfold turn
    split
    · exact ⟨_, rfl, Or.inl rfl⟩
    split
    · exact ⟨_, rfl, Or.inr (Or.inl rfl)⟩
    split
    case isTrue htime => exact ⟨_, rfl, Or.inr (Or.inr htime)⟩
    case isFalse hrunning hsteps htime =>
      exact absurd ⟨Bool.eq_false_iff.2 hrunning, Bool.eq_false_iff.2 hsteps,
        Bool.eq_false_iff.2 htime⟩ hwithin

/-- A turn never moves the clock back and leaves it of its kind. -/
theorem tick_turn (l : Limits) (p : Progress) (r : Runner R) :
    r.machine.clock.tick ≤ (r.turn l p).2.2.machine.clock.tick ∧
      (r.turn l p).2.2.machine.clock.motion = r.machine.clock.motion := by
  rcases turn_cases l p r with ⟨_, _, hturn, _⟩ | ⟨_, tick, _, hturn⟩ | ⟨_, _, _, _, h, hturn⟩
  · rw [hturn]
    exact ⟨UInt32.le_refl _, rfl⟩
  · rw [hturn]
    exact tick_await l p r tick
  · rw [hturn, h.setup.2.2.2]
    exact ⟨UInt32.le_refl _, rfl⟩

theorem Advances.count_eq (h : r.Advances o k r') :
    k = (Machine.isExecution r.machine.step.1).toNat := by
  cases h with
  | executes m h | passes e m h | faults e m h | halts e m h =>
      rw [h]
      rfl
  | stays h | finishes h =>
      rw [step_of_idle? h]
      rfl

theorem Advances.isUntimely {outcome : Outcome} (h : r.Advances (some outcome) k r') :
    outcome.isUntimely = false := by
  have hhalted (r : Runner R) : r.haltedOutcome.isUntimely = false := by
    unfold haltedOutcome
    split <;> rfl
  cases h with
  | faults | finishes => rfl
  | halts | stays => exact hhalted _

/-- The results of the steps that the machine makes in a turn: one, or none at a limit. -/
def stepsMadeNow (l : Limits) (p : Progress) (r : Runner R) :
    List (Except Machine.Error Machine.StepOutcome) :=
  if r.Within l p then [r.machine.step.1] else []

/-- A turn counts the instruction that it executes. -/
theorem countP_stepsMadeNow (l : Limits) (p : Progress) (r : Runner R) :
    (r.turn l p).2.1.steps = p.steps + (r.stepsMadeNow l p).countP Machine.isExecution := by
  unfold stepsMadeNow
  rcases turn_cases l p r with
    ⟨hwithin, _, hturn, _⟩ | ⟨hwithin, tick, hidle, hturn⟩ | ⟨hwithin, _, _, _, h, hturn⟩
  · rw [hturn, if_neg hwithin]
    rfl
  · rw [hturn, if_pos hwithin, steps_await, step_of_idle? hidle]
    rfl
  · rw [hturn, if_pos hwithin, h.count_eq, List.countP_singleton]
    cases Machine.isExecution r.machine.step.1 <;> rfl

theorem steps_turn_le (hp : p.steps ≤ n) (r : Runner R) :
    (r.turn (stepLimits n) p).2.1.steps ≤ n := by
  rcases turn_cases (stepLimits n) p r with ⟨_, _, hturn, _⟩ | ⟨_, tick, _, hturn⟩ | ⟨hwithin, _⟩
  · rw [hturn]
    exact hp
  · rw [hturn, steps_await]
    exact hp
  · have hlt := hwithin.lt
    rcases steps_turn (stepLimits n) p r with hsteps | hsteps <;> omega

/-! ### Many turns -/

def turnsAmid (l : Limits) :
    List (Clock → Clock) → Progress → Runner R → Option Outcome × Progress × Runner R
  | [], p, r => (none, p, r)
  | f :: drifts, p, r =>
    match (r.drifted f).turn l p with
    | (some outcome, p, r) => (some outcome, p, r)
    | (none, p, r) => turnsAmid l drifts p r

def stepsMade (l : Limits) : List (Clock → Clock) → Progress → Runner R →
    List (Except Machine.Error Machine.StepOutcome)
  | [], _, _ => []
  | f :: drifts, p, r =>
    (r.drifted f).stepsMadeNow l p ++
      match (r.drifted f).turn l p with
      | (some _, _, _) => []
      | (none, p, r) => stepsMade l drifts p r

/-- The turns of a run are turns with a clock that does not move by itself. -/
theorem turnsAmid_still (l : Limits) (N : Nat) (p : Progress) (r : Runner R) :
    turnsAmid l (List.replicate N id) p r = turns l N p r := by
  induction N generalizing p r with
  | zero => rfl
  | succ N ih =>
      rw [List.replicate_succ, turnsAmid, turns]
      change (match r.turn l p with
        | (some outcome, p, r) => (some outcome, p, r)
        | (none, p, r) => turnsAmid l (List.replicate N id) p r) = _
      rcases r.turn l p with ⟨_ | outcome, p', r'⟩
      · exact ih p' r'
      · rfl

/-- A run counts the instructions that its machine executes. -/
theorem countP_stepsMade (l : Limits) (drifts : List (Clock → Clock)) (p : Progress)
    (r : Runner R) :
    (turnsAmid l drifts p r).2.1.steps
      = p.steps + (stepsMade l drifts p r).countP Machine.isExecution := by
  induction drifts generalizing p r with
  | nil => rfl
  | cons f drifts ih =>
      have hnow := countP_stepsMadeNow l p (r.drifted f)
      rw [turnsAmid, stepsMade, List.countP_append]
      rcases hturn : (r.drifted f).turn l p with ⟨_ | outcome, p', r'⟩ <;> rw [hturn] at hnow
      · rw [← Nat.add_assoc, ← hnow]
        exact ih p' r'
      · exact hnow

theorem steps_turnsAmid_le (hp : p.steps ≤ n) (drifts : List (Clock → Clock)) (r : Runner R) :
    (turnsAmid (stepLimits n) drifts p r).2.1.steps ≤ n := by
  induction drifts generalizing p r with
  | nil => exact hp
  | cons f drifts ih =>
      have hnow := steps_turn_le hp (r.drifted f)
      rw [turnsAmid]
      rcases hturn : (r.drifted f).turn (stepLimits n) p with ⟨_ | outcome, p', r'⟩ <;>
        rw [hturn] at hnow
      · exact ih hnow r'
      · exact hnow

/-- A measure that every turn makes smaller bounds the steps that the machine makes, and a run with
more turns than that has ended. -/
theorem ends_of_measure {C : Runner R → Prop} {m : Progress → Runner R → Nat}
    (drifts : List (Clock → Clock))
    (hpositive : ∀ p r, C r → r.Within l p → 0 < m p r)
    (hturn : ∀ p r p' r', C r → r.turn l p = (none, p', r') → C r' ∧ m p' r' < m p r)
    (hdrift : ∀ f ∈ drifts, ∀ p r, C r → C (r.drifted f) ∧ m p (r.drifted f) = m p r)
    (hr : C r) :
    (stepsMade l drifts p r).length ≤ m p r ∧
      (m p r < drifts.length → (turnsAmid l drifts p r).1.isSome = true) := by
  induction drifts generalizing p r with
  | nil => exact ⟨Nat.zero_le _, fun h => absurd h (Nat.not_lt_zero _)⟩
  | cons f drifts ih =>
      obtain ⟨hf, hrest⟩ := List.forall_mem_cons.1 hdrift
      obtain ⟨hr, hsame⟩ := hf p r hr
      rw [← hsame, stepsMade, turnsAmid, List.length_append]
      have hnow : ((r.drifted f).stepsMadeNow l p).length ≤ 1 ∧
          ((r.drifted f).stepsMadeNow l p).length ≤ m p (r.drifted f) := by
        unfold stepsMadeNow
        split
        case isTrue hwithin => exact ⟨Nat.le_refl 1, hpositive p _ hr hwithin⟩
        case isFalse => exact ⟨Nat.zero_le _, Nat.zero_le _⟩
      rcases hnext : (r.drifted f).turn l p with ⟨_ | outcome, p', r'⟩
      · obtain ⟨hr', hless⟩ := hturn p _ p' r' hr hnext
        obtain ⟨hlength, hends⟩ := ih hrest hr' (p := p')
        dsimp only
        refine ⟨by omega, fun hlong => hends ?_⟩
        rw [List.length_cons] at hlong
        omega
      · exact ⟨hnow.2, fun _ => rfl⟩

/-! ### Clocks that cannot be driven -/

/-- A wait ends the run, so every turn that goes on has executed an instruction. -/
theorem turn_of_not_driven (hclock : r.machine.clock.motion ≠ .driven)
    (hturn : r.turn (stepLimits n) p = (none, p', r')) : n - p'.steps < n - p.steps := by
  rcases turn_cases (stepLimits n) p r with
    ⟨_, _, hends, _⟩ | ⟨_, tick, _, hwaits⟩ | ⟨hwithin, o, k, r'', h, hadvances⟩
  · rw [hends] at hturn
    cases hturn
  · have hstays : r.machine.clock.advanceTo? tick = none := by
      unfold Clock.advanceTo?
      split
      case h_1 hdriven => exact absurd hdriven hclock
      all_goals rfl
    rw [hwaits, await, hstays] at hturn
    cases hturn
  · rw [hadvances] at hturn
    cases hturn
    have hlt := hwithin.lt
    have hone := h.count_eq_one
    dsimp only
    omega

theorem ends_of_not_driven (hclock : r.machine.clock.motion ≠ .driven)
    {drifts : List (Clock → Clock)} (hdrifts : ∀ f ∈ drifts, ∀ c, (f c).motion = c.motion) :
    (stepsMade (stepLimits n) drifts p r).length ≤ n - p.steps ∧
      (n - p.steps < drifts.length →
        (turnsAmid (stepLimits n) drifts p r).1.isSome = true) := by
  refine ends_of_measure (C := fun r => r.machine.clock.motion ≠ .driven)
    (m := fun p _ => n - p.steps) drifts ?_ ?_ ?_ hclock
  · intro p r _ hwithin
    exact Nat.sub_pos_of_lt hwithin.lt
  · intro p r p' r' hr hturn
    refine ⟨?_, turn_of_not_driven hr hturn⟩
    have hmotion := (tick_turn (stepLimits n) p r).2
    rw [hturn] at hmotion
    exact hmotion.symm ▸ hr
  · intro f hf p r hr
    exact ⟨(hdrifts f hf r.machine.clock).symm ▸ hr, rfl⟩

/-! ### Driven clocks -/

/-- A wait is followed by an instruction or by the end. -/
theorem turnsLeft_turn (hdriven : r.machine.clock.motion = .driven)
    (hturn : r.turn (stepLimits n) p = (none, p', r')) : turnsLeft n p' r' < turnsLeft n p r := by
  rcases turn_cases (stepLimits n) p r with
    ⟨_, _, hends, _⟩ | ⟨hwithin, tick, hidle, _⟩ | ⟨hwithin, o, k, r'', h, hadvances⟩
  · rw [hends] at hturn
    cases hturn
  · rw [turn_of_waiting hwithin hdriven hidle] at hturn
    cases hturn
    -- no instruction is executed, but the machine waits before the turn and not after it
    have hlt := hwithin.lt
    have hwaits : r.waits = true := by
      unfold waits
      rw [hidle]
    rw [turnsLeft, turnsLeft, hwaits, waits_eq_false (idle?_awake r), if_pos rfl, if_neg nofun]
    omega
  · rw [hadvances] at hturn
    cases hturn
    have hlt := hwithin.lt
    have hone := h.count_eq_one
    have hnow : turnsLeft n p r = 2 * (n - p.steps) - 1 := by
      rw [turnsLeft, waits_eq_false h.not_waiting]
      rfl
    have hnext : turnsLeft n { p with steps := p.steps + k } r' ≤ 2 * (n - (p.steps + k)) :=
      Nat.sub_le _ _
    omega

theorem ends_of_driven (hdriven : r.machine.clock.motion = .driven) (N : Nat) :
    (stepsMade (stepLimits n) (List.replicate N id) p r).length ≤ turnsLeft n p r ∧
      (turnsLeft n p r < N → (turns (stepLimits n) N p r).1.isSome = true) := by
  have hends := ends_of_measure (l := stepLimits n) (p := p)
    (C := fun r => r.machine.clock.motion = .driven) (m := turnsLeft n) (List.replicate N id)
    ?_ ?_ ?_ hdriven
  · rwa [turnsAmid_still, List.length_replicate] at hends
  · intro p r _ hwithin
    have hlt := hwithin.lt
    unfold turnsLeft
    split <;> omega
  · intro p r p' r' hr hturn
    have hmotion := (tick_turn (stepLimits n) p r).2
    rw [hturn] at hmotion
    exact ⟨hmotion.trans hr, turnsLeft_turn hr hturn⟩
  · intro f hf p r hr
    obtain rfl := List.eq_of_mem_replicate hf
    exact ⟨hr, rfl⟩

/-- Time does not end a run on a driven clock that has all the time there is. -/
theorem outcome_turns (hdriven : r.machine.clock.motion = .driven) {N : Nat} {outcome : Outcome}
    (h : turns (stepLimits n) N p r = (some outcome, p', r')) : outcome.isUntimely = false := by
  induction N generalizing p r with
  | zero => cases h
  | succ N ih =>
      have hmotion := (tick_turn (stepLimits n) p r).2
      rw [turns] at h
      rcases hturn : r.turn (stepLimits n) p with ⟨_ | first, p₁, r₁⟩ <;>
        rw [hturn] at h hmotion
      · exact ih (hmotion.trans hdriven) h
      · cases h
        rcases turn_cases (stepLimits n) p r with
          ⟨_, _, hends, hlimit⟩ | ⟨hwithin, tick, hidle, _⟩ | ⟨_, o, k, _, hadvances, hgoes⟩
        · rw [hends] at hturn
          cases hturn
          rcases hlimit with rfl | rfl | htime
          · rfl
          · rfl
          · cases htime
        · rw [turn_of_waiting hwithin hdriven hidle] at hturn
          cases hturn
        · rw [hgoes] at hturn
          cases hturn
          exact hadvances.isUntimely

/-- In no turn of a run is the clock moved back. -/
theorem tick_turns (l : Limits) (N : Nat) (p : Progress) (r : Runner R) :
    (turns l N p r).2.2.machine.clock.tick ≤ (turns l (N + 1) p r).2.2.machine.clock.tick := by
  induction N generalizing p r with
  | zero =>
      have htick := (tick_turn l p r).1
      rw [turns, turns]
      rcases hturn : r.turn l p with ⟨_ | outcome, p', r'⟩ <;> rw [hturn] at htick <;> exact htick
  | succ N ih =>
      rw [turns, turns]
      rcases r.turn l p with ⟨_ | outcome, p', r'⟩
      · exact ih p' r'
      · exact UInt32.le_refl _

theorem tick_le_turns (l : Limits) (N : Nat) (p : Progress) (r : Runner R) :
    r.machine.clock.tick ≤ (turns l N p r).2.2.machine.clock.tick := by
  induction N with
  | zero => exact UInt32.le_refl _
  | succ N ih => exact UInt32.le_trans ih (tick_turns l N p r)

/-- A driven clock does not let a turn sleep. -/
theorem turn_sleeping (hdriven : r.machine.clock.motion = .driven) (l : Limits) (p : Progress) :
    r.turn { l with sleeps := true } p = r.turn { l with sleeps := false } p := by
  have hadvance : r.advance { l with sleeps := true } p
      = r.advance { l with sleeps := false } p := by
    by_cases hidle : ∃ tick, r.machine.idle? = some (.waiting tick)
    · obtain ⟨tick, hidle⟩ := hidle
      simp only [advance, step_of_idle? hidle, await, Clock.advanceTo?, hdriven]
    · obtain ⟨o, k, r', h⟩ := exists_advances fun tick htick => hidle ⟨tick, htick⟩
      rw [h.advance, h.advance]
  unfold turn
  rw [hadvance]
  rfl

theorem turns_sleeping (hdriven : r.machine.clock.motion = .driven) (l : Limits) (N : Nat)
    (p : Progress) :
    turns { l with sleeps := true } N p r = turns { l with sleeps := false } N p r := by
  induction N generalizing p r with
  | zero => rfl
  | succ N ih =>
      have hmotion := (tick_turn { l with sleeps := false } p r).2
      rw [turns, turns, turn_sleeping hdriven]
      rcases hnext : r.turn { l with sleeps := false } p with ⟨_ | outcome, p', r'⟩
      · rw [hnext] at hmotion
        exact ih (hmotion.trans hdriven) p'
      · rfl

/-! ### Runs -/

theorem refreshed_machine {R : Type} (r : Runner R) : r.refreshed.machine = r.machine := by
  unfold refreshed
  split <;> rfl

def runStepsMade (n : Nat) (drifts : List (Clock → Clock)) (r : Runner R) :
    List (Except Machine.Error Machine.StepOutcome) :=
  stepsMade (stepLimits n) drifts {} r.refreshed

/-- A run of `n` instructions is over after `N₀` turns, and more turns would change nothing. -/
def EndsBy (r : Runner R) (n N₀ : Nat) : Prop :=
  ∀ N, N₀ ≤ N → ∃ outcome p r', turns (stepLimits n) N {} r.refreshed = (some outcome, p, r') ∧
    r.runSteps n = closed .stepLimit (some outcome, p, r')

theorem turns_of_le {N N' : Nat} {outcome : Outcome}
    (h : turns l N p r = (some outcome, p', r')) (hle : N ≤ N') :
    turns l N' p r = (some outcome, p', r') := by
  induction hle with
  | refl => exact h
  | step _ ih => exact turns_succ ih

theorem endsBy_of_isSome {N₀ : Nat} (hlimit : N₀ ≤ 2 * n + 1)
    (h : (turns (stepLimits n) N₀ {} r.refreshed).1.isSome = true) : r.EndsBy n N₀ := by
  intro N hN
  rcases hturns : turns (stepLimits n) N₀ {} r.refreshed with ⟨_ | outcome, p, r'⟩
  · rw [hturns] at h
    cases h
  · exact ⟨outcome, p, r', turns_of_le hturns hN,
      congrArg (closed .stepLimit) (turns_of_le hturns hlimit)⟩

/-- A run of `n` instructions ends, whatever the program and the robot are and in whatever state the
machine is, and it executes `n` instructions at most.

On a driven clock it is over after `2 * n + 1` turns. The machine makes `2 * n` steps at most, the
clock is never moved back, and time is not what ends the run. To run to completion within `n` steps
and without a time budget is the same.

On any other clock it is over after `n + 1` turns and `n` steps at most, also if the clock moves by
itself between the turns. -/
theorem runSteps_ends (r : Runner R) (n : Nat) :
    (∀ drifts, (r.runStepsMade n drifts).countP Machine.isExecution ≤ n) ∧
    (r.runSteps n).1.steps
      = (r.runStepsMade n (List.replicate (2 * n + 1) id)).countP Machine.isExecution ∧
    (r.machine.clock.motion = .driven →
      r.EndsBy n (2 * n + 1) ∧
      (∀ N, (r.runStepsMade n (List.replicate N id)).length ≤ 2 * n) ∧
      (∀ N, (turns (stepLimits n) N {} r.refreshed).2.2.machine.clock.tick
        ≤ (turns (stepLimits n) (N + 1) {} r.refreshed).2.2.machine.clock.tick) ∧
      r.machine.clock.tick ≤ (r.runSteps n).2.machine.clock.tick ∧
      (∀ tick, (r.runSteps n).1.outcome ≠ .waiting tick) ∧
      (r.runSteps n).1.outcome ≠ .timeBudget ∧
      (r.maxSteps = some n → r.timeBudget = none → r.runToCompletion = r.runSteps n)) ∧
    (r.machine.clock.motion ≠ .driven →
      r.EndsBy n (n + 1) ∧
      ∀ drifts, (∀ f ∈ drifts, ∀ c, (f c).motion = c.motion) →
        (r.runStepsMade n drifts).length ≤ n ∧
        (n + 1 ≤ drifts.length →
          (turnsAmid (stepLimits n) drifts {} r.refreshed).1.isSome = true)) := by
  have hclock : r.refreshed.machine.clock = r.machine.clock := by rw [refreshed_machine]
  refine ⟨?_, ?_, ?_, ?_⟩
  · intro drifts
    have hcount := countP_stepsMade (stepLimits n) drifts {} r.refreshed
    rw [Nat.zero_add] at hcount
    rw [runStepsMade, ← hcount]
    exact steps_turnsAmid_le (Nat.zero_le n) drifts r.refreshed
  · have hcount := countP_stepsMade (stepLimits n) (List.replicate (2 * n + 1) id) {} r.refreshed
    rw [turnsAmid_still, Nat.zero_add] at hcount
    exact hcount
  · intro hdriven
    rw [← hclock] at hdriven
    have hbound : turnsLeft n {} r.refreshed ≤ 2 * n := Nat.sub_le _ _
    have hends : r.EndsBy n (2 * n + 1) :=
      endsBy_of_isSome (Nat.le_refl _) ((ends_of_driven hdriven _).2 (Nat.lt_succ_of_le hbound))
    obtain ⟨outcome, p, r', hturns, hrun⟩ := hends _ (Nat.le_refl _)
    have htimely := outcome_turns hdriven hturns
    have houtcome : (r.runSteps n).1.outcome = outcome := by
      rw [hrun]
      rfl
    refine ⟨hends, fun N => Nat.le_trans (ends_of_driven hdriven N).1 hbound,
      fun N => tick_turns _ N _ _, ?_, ?_, ?_, ?_⟩
    · rw [hrun]
      have htick := tick_le_turns (stepLimits n) (2 * n + 1) {} r.refreshed
      rw [hturns, hclock] at htick
      exact htick
    · rintro tick h
      rw [houtcome.symm.trans h] at htimely
      cases htimely
    · intro h
      rw [houtcome.symm.trans h] at htimely
      cases htimely
    · intro hsteps htime
      have hsame := turns_sleeping hdriven (stepLimits n) (2 * n + 1) {}
      rw [runToCompletion, hsteps, htime]
      exact congrArg (closed .stepLimit) hsame
  · intro hstays
    rw [← hclock] at hstays
    refine ⟨?_, ?_⟩
    · have hstill : ∀ f ∈ List.replicate (n + 1) (id : Clock → Clock), ∀ c,
          (f c).motion = c.motion := by
        intro f hf c
        rw [List.eq_of_mem_replicate hf]
        rfl
      have hended := (ends_of_not_driven (n := n) (p := {}) hstays hstill).2
      rw [List.length_replicate, turnsAmid_still] at hended
      exact endsBy_of_isSome (by omega) (hended (Nat.lt_succ_self n))
    · intro drifts hdrifts
      exact ends_of_not_driven (p := {}) hstays hdrifts

/-- The clock that is driven is moved to the end of the wait, the other one stays, and the run on it
is over. -/
theorem waitAndStop_ends :
    let driven : Runner HeadlessRobot := { waitAndStop with maxSteps := some 12 }
    let fixed : Runner HeadlessRobot :=
      { waitAndStop with machine := { waitAndStop.machine with clock := .fixed 0 } }
    driven.EndsBy 12 25 ∧
    driven.runStepsMade 12 (List.replicate 25 id)
      = [.ok .executed, .ok .executed, .ok (.waiting 5), .ok .executed, .error (.stopped 8)] ∧
    (driven.runStepsMade 12 (List.replicate 25 id)).length ≤ 24 ∧
    driven.runToCompletion = driven.runSteps 12 ∧
    fixed.EndsBy 12 13 ∧ (fixed.runSteps 12).1.outcome = .waiting 5 ∧
    (fixed.runStepsMade 12 (List.replicate 25 fun c => c.put (c.tick + 2))).length ≤ 12 := by
  intro driven fixed
  obtain ⟨hends, hlength, _, _, _, _, hcompletion⟩ := (runSteps_ends driven 12).2.2.1 rfl
  obtain ⟨hover, hdrifts⟩ := (runSteps_ends fixed 12).2.2.2 nofun
  refine ⟨hends, by decide +kernel, hlength 25, hcompletion rfl rfl, hover, by decide +kernel,
    (hdrifts _ ?_).1⟩
  intro f hf c
  rw [List.eq_of_mem_replicate hf]
  rfl

end Runner

end BrickMachine
