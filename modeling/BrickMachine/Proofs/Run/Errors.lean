import BrickMachine.Proofs.Run.Turns

/-!
# The error of a runner

A runner keeps the error that ended its latest run, and for as long as the machine is halted it
keeps the error that halted it. So the error tells two things: whether the machine is halted, and
whether the latest run failed.

`Ends` says what the error is after a run that began on a running machine, by its outcome. On a
halted machine no run does anything, and each reports the same outcome again.

Execution takes time that no clock here shows, so a run to completion may find its time over after
any number of turns: `runUntil`.
-/

namespace BrickMachine

open Run

def Run.Outcome.errorText? : Outcome → Option String
  | halted error => some (haltText error)
  | faulted error => some error.message
  | _ => none

def Machine.Error.haltOutcome : Machine.Error → Outcome
  | stopped pc => .stopped pc
  | e => .halted (some e)

theorem Run.Outcome.isFailure_eq (o : Outcome) : o.isFailure = o.errorText?.isSome := by
  cases o <;> rfl

namespace Runner

section Error

variable {R : Type} {r r' : Runner R} {e : Machine.Error} {o : Outcome}

def Clean (r : Runner R) : Prop := r.machine.halted = false ∧ r.error = none

def Consistent (r : Runner R) : Prop :=
  r.machine.halted = true ↔ ∃ e, r.error = some e ∧ e.isFatal = true

inductive Ends (r : Runner R) : Outcome → Prop where
  | quietly {o : Outcome} (hclean : r.Clean) (ho : o.errorText? = none) : Ends r o
  | halted {e : Machine.Error} (hhalted : r.machine.halted = true) (herror : r.error = some e)
      (hfatal : e.isFatal = true) : Ends r e.haltOutcome
  | faulted {e : MemoryError} (hrunning : r.machine.halted = false)
      (herror : r.error = some (.memory e)) (hpolicy : r.haltOnFault = true) : Ends r (.faulted e)

theorem haltedOutcome_of_error (h : r.error = some e) : r.haltedOutcome = e.haltOutcome := by
  unfold haltedOutcome
  rw [h]
  cases e <;> rfl

theorem Clean.consistent (h : r.Clean) : r.Consistent := by
  unfold Consistent
  rw [h.1, h.2]
  simp

theorem Ends.consistent (h : r.Ends o) : r.Consistent := by
  cases h with
  | quietly hclean => exact hclean.consistent
  | halted hhalted herror hfatal => exact iff_of_true hhalted ⟨_, herror, hfatal⟩
  | faulted hrunning herror =>
      unfold Consistent
      rw [hrunning, herror]
      simp [Machine.Error.isFatal]

/-- The run failed exactly if there is an error worth reporting, which the outcome shows. -/
theorem Ends.errorText? (h : r.Ends o) : o.errorText? = r.failure.map Machine.Error.message := by
  unfold failure
  cases h with
  | quietly hclean ho =>
      rw [hclean.2, ho]
      rfl
  | @halted e hhalted herror hfatal =>
      rw [herror]
      cases e with
      | memory e => cases hfatal
      | _ => rfl
  | faulted hrunning herror hpolicy =>
      rw [herror, Option.filter_some, if_pos hpolicy]
      rfl

end Error

variable {R : Type} [Robot R] {r r' : Runner R} {e : Machine.Error} {o : Option Outcome}
variable {k n : Nat} {l : Limits} {p : Progress}

/-! ### Runs on a running machine -/

/-- Where turns on a running machine can have come: there is no error yet, or the run has ended. -/
def Reached : Option Outcome × Progress × Runner R → Prop
  | (none, _, r) => r.Clean
  | (some outcome, _, r) => r.Ends outcome

theorem reached_of_advances (hr : r.Clean) (h : r.Advances o k r') : Reached (o, p, r') := by
  have hhalted := Machine.halted_step hr.1
  cases h with
  | executes m h | passes e m h hpolicy =>
      rw [h] at hhalted
      exact ⟨hhalted, hr.2⟩
  | faults e m h hpolicy =>
      rw [h] at hhalted
      exact .faulted hhalted rfl hpolicy
  | @halts e m h hfatal =>
      rw [haltedOutcome_of_error rfl]
      exact .halted (Advances.halted_of_fatal h hfatal) rfl hfatal
  | stays h =>
      have hhalted := Machine.halted_of_idle? h
      rw [hr.1] at hhalted
      cases hhalted
  | finishes => exact .quietly hr rfl

theorem reached_await {R : Type} {r : Runner R} (hr : r.Clean) (tick : UInt32) :
    Reached (r.await l p tick) := by
  unfold await
  split
  · exact hr
  split
  · exact .quietly hr rfl
  split
  · exact hr
  · split
    · exact .quietly hr rfl
    · exact .quietly hr rfl

theorem reached_turn (hr : r.Clean) : Reached (r.turn l p) := by
  unfold turn
  split
  · exact .quietly hr rfl
  split
  · exact .quietly hr rfl
  split
  · exact .quietly hr rfl
  by_cases hidle : ∃ tick, r.machine.idle? = some (.waiting tick)
  · obtain ⟨tick, hidle⟩ := hidle
    unfold advance
    rw [step_of_idle? hidle]
    exact reached_await hr tick
  · obtain ⟨o, k, r', h⟩ := exists_advances fun tick htick => hidle ⟨tick, htick⟩
    rw [h.advance]
    exact reached_of_advances hr h

theorem reached_turns (hr : r.Clean) (n : Nat) : Reached (turns l n p r) := by
  induction n generalizing p r with
  | zero => exact hr
  | succ n ih =>
      have hturn := reached_turn (l := l) (p := p) hr
      rw [turns]
      rcases hnext : r.turn l p with ⟨_ | outcome, p', r'⟩ <;> rw [hnext] at hturn
      · exact ih hturn
      · exact hturn

/-- A run whose time is over after these turns, if they have not ended it. -/
def cutOff (l : Limits) :
    Option Outcome × Progress × Runner R → Option Outcome × Progress × Runner R
  | (none, p, r) => r.turn { l with time := some 0 } p
  | ended => ended

theorem Reached.cutOff {x : Option Outcome × Progress × Runner R} (h : Reached x) (l : Limits) :
    Reached (cutOff l x) := by
  rcases x with ⟨_ | outcome, p, r⟩
  · exact reached_turn h
  · exact h

theorem Reached.ends {R : Type} {x : Option Outcome × Progress × Runner R} (h : Reached x)
    (otherwise : Outcome) (hotherwise : otherwise.errorText? = none) :
    (closed otherwise x).2.Ends (closed otherwise x).1.outcome := by
  rcases x with ⟨_ | outcome, p, r⟩
  · exact .quietly h hotherwise
  · cases h with
    | quietly hclean ho => exact .quietly hclean ho
    | halted hhalted herror hfatal => exact .halted hhalted herror hfatal
    | faulted hrunning herror hpolicy => exact .faulted hrunning herror hpolicy

theorem clean_refreshed {R : Type} {r : Runner R} (h : r.machine.halted = false) :
    r.refreshed.Clean := by
  unfold refreshed
  rw [h]
  exact ⟨h, rfl⟩

def completion (r : Runner R) : Limits :=
  { steps := r.maxSteps, time := r.timeBudget, sleeps := true }

def runUntil (n : Nat) (r : Runner R) : Summary × Runner R :=
  closed .timeBudget (cutOff r.completion (turns r.completion n {} r.refreshed))

theorem ends_run (h : r.machine.halted = false) (l : Limits) :
    (r.run l).2.Ends (r.run l).1.outcome :=
  (reached_turns (clean_refreshed h) (turnLimit l)).ends .stepLimit rfl

theorem ends_runUntil (h : r.machine.halted = false) (n : Nat) :
    (r.runUntil n).2.Ends (r.runUntil n).1.outcome :=
  ((reached_turns (clean_refreshed h) n).cutOff r.completion).ends .timeBudget rfl

/-! ### Runs on a halted machine -/

/-- A turn on a halted machine ends the run and changes nothing. -/
theorem turn_of_halted (h : r.machine.halted = true) (l : Limits) (p : Progress) :
    ∃ outcome, r.turn l p = (some outcome, p, r) := by
  unfold turn
  split
  · exact ⟨_, rfl⟩
  split
  · exact ⟨_, rfl⟩
  split
  · exact ⟨_, rfl⟩
  · exact ⟨_, Advances.advance (.stays (if_pos h)) l p⟩

theorem turns_of_halted (h : r.machine.halted = true) (l : Limits) (p : Progress) (n : Nat) :
    ∃ o, turns l n p r = (o, p, r) := by
  cases n with
  | zero => exact ⟨none, rfl⟩
  | succ n =>
      obtain ⟨outcome, hturn⟩ := turn_of_halted h l p
      rw [turns, hturn]
      exact ⟨_, rfl⟩

theorem refreshed_of_halted {R : Type} {r : Runner R} (h : r.machine.halted = true) :
    r.refreshed = r :=
  if_pos h

/-- No run changes anything. -/
theorem run_of_halted (h : r.machine.halted = true) (l : Limits) : (r.run l).2 = r := by
  obtain ⟨o, hturns⟩ := turns_of_halted h l {} (turnLimit l)
  rw [run_eq, refreshed_of_halted h, hturns]
  rfl

theorem runUntil_of_halted (h : r.machine.halted = true) (n : Nat) : (r.runUntil n).2 = r := by
  obtain ⟨o, hturns⟩ := turns_of_halted h r.completion {} n
  rw [runUntil, refreshed_of_halted h, hturns]
  cases o with
  | none =>
      obtain ⟨outcome, hturn⟩ := turn_of_halted h { r.completion with time := some 0 } {}
      rw [cutOff, hturn]
      rfl
  | some outcome => rfl

/-- The limits leave room for a first step. -/
theorem within_of_room {R : Type} {r : Runner R} (hpaused : r.paused = false)
    (hsteps : l.steps ≠ some 0) (htime : l.time ≠ some 0) : r.Within l {} := by
  have hroom {limit : Option Nat} (h : limit ≠ some 0) : limit.any (· ≤ 0) = false := by
    cases limit with
    | none => rfl
    | some n => exact decide_eq_false fun hn => h (congrArg some (Nat.le_zero.1 hn))
  exact ⟨hpaused, hroom hsteps, hroom htime⟩

/-- A run that is not over before its first step tells again why the machine is halted. -/
theorem turns_of_within (h : r.machine.halted = true) (hwithin : r.Within l {}) (hn : n ≠ 0) :
    turns l n {} r.refreshed = (some r.haltedOutcome, {}, r) := by
  obtain ⟨n, rfl⟩ := Nat.exists_eq_succ_of_ne_zero hn
  rw [refreshed_of_halted h, turns, turn_of_advances hwithin (.stays (if_pos h))]

theorem turnLimit_ne_zero (l : Limits) : turnLimit l ≠ 0 := by
  unfold turnLimit
  cases l.steps with
  | none => exact Nat.noConfusion
  | some n => exact Nat.succ_ne_zero _

theorem run_of_within (h : r.machine.halted = true) (hwithin : r.Within l {}) :
    r.run l = closed .stepLimit (some r.haltedOutcome, {}, r) := by
  rw [run_eq, turns_of_within h hwithin (turnLimit_ne_zero l)]

end Runner

/-! ### Calls -/

inductive Call where
  | runSteps (n : Nat)
  | runToCompletion
  | runUntil (turns : Nat)
  | setPaused (paused : Bool)
  | reload
  deriving DecidableEq

namespace Call

variable {R : Type} [Robot R] {r : Runner R} {run : Summary × Runner R} {c : Call}

def run? : Call → Runner R → Option (Summary × Runner R)
  | runSteps n, r => some (r.runSteps n)
  | runToCompletion, r => some r.runToCompletion
  | runUntil n, r => some (r.runUntil n)
  | setPaused _, _ | reload, _ => none

/-- The runner after a call. A reload that fails changes nothing. -/
def apply : Call → Runner R → Runner R
  | runSteps n, r => (r.runSteps n).2
  | runToCompletion, r => r.runToCompletion.2
  | runUntil n, r => (r.runUntil n).2
  | setPaused paused, r => { r with paused }
  | reload, r => r.reload.toOption.getD r

def Begins (r : Runner R) : Call → Prop
  | runSteps n => n ≠ 0
  | runToCompletion => r.maxSteps ≠ some 0 ∧ r.timeBudget ≠ some 0
  | runUntil n => n ≠ 0 ∧ r.maxSteps ≠ some 0 ∧ r.timeBudget ≠ some 0
  | setPaused _ | reload => False

theorem apply_of_run? (h : c.run? r = some run) : c.apply r = run.2 := by
  cases c with
  | runSteps | runToCompletion | runUntil => exact congrArg Prod.snd (Option.some.inj h)
  | setPaused | reload => cases h

/-- The run that is asked for has limits, or its time is over after a number of turns. -/
theorem limited_of_run? (h : c.run? r = some run) :
    (∃ l, run = r.run l) ∨ ∃ n, run = r.runUntil n := by
  cases c with
  | runSteps | runToCompletion => exact Or.inl ⟨_, (Option.some.inj h).symm⟩
  | runUntil n => exact Or.inr ⟨n, (Option.some.inj h).symm⟩
  | setPaused | reload => cases h

/-- The end of a run that began on a running machine. -/
theorem ends_of_run? (hr : r.machine.halted = false) (h : c.run? r = some run) :
    run.2.Ends run.1.outcome := by
  rcases limited_of_run? h with ⟨l, rfl⟩ | ⟨n, rfl⟩
  · exact Runner.ends_run hr l
  · exact Runner.ends_runUntil hr n

theorem eq_of_run? (hr : r.machine.halted = true) (h : c.run? r = some run) : run.2 = r := by
  rcases limited_of_run? h with ⟨l, rfl⟩ | ⟨n, rfl⟩
  · exact Runner.run_of_halted hr l
  · exact Runner.runUntil_of_halted hr n

/-- What a run on a halted machine reports. -/
theorem reports_of_run? (hr : r.machine.halted = true) (hpaused : r.paused = false)
    (hbegins : c.Begins r) (h : c.run? r = some run) :
    run.1.steps = 0 ∧ run.1.outcome = r.haltedOutcome := by
  cases c with
  | runSteps n =>
      obtain rfl := Option.some.inj h
      have hwithin : r.Within { steps := some n, time := none, sleeps := false } {} :=
        Runner.within_of_room hpaused (fun hn => hbegins (Option.some.inj hn)) nofun
      have hrun : r.runSteps n = Runner.closed .stepLimit (some r.haltedOutcome, {}, r) :=
        Runner.run_of_within hr hwithin
      rw [hrun]
      exact ⟨rfl, rfl⟩
  | runToCompletion =>
      obtain rfl := Option.some.inj h
      have hwithin : r.Within r.completion {} :=
        Runner.within_of_room hpaused hbegins.1 hbegins.2
      have hrun : r.runToCompletion = Runner.closed .stepLimit (some r.haltedOutcome, {}, r) :=
        Runner.run_of_within hr hwithin
      rw [hrun]
      exact ⟨rfl, rfl⟩
  | runUntil n =>
      obtain rfl := Option.some.inj h
      have hwithin : r.Within r.completion {} :=
        Runner.within_of_room hpaused hbegins.2.1 hbegins.2.2
      rw [Runner.runUntil, Runner.turns_of_within hr hwithin hbegins.1]
      exact ⟨rfl, rfl⟩
  | setPaused | reload => cases h

/-! ### The error after a call -/

theorem clean_of_reload {R : Type} {r r' : Runner R} (h : r.reload = .ok r') : r'.Clean := by
  obtain ⟨machine, hreset, hr'⟩ := bind_eq_ok_iff.1 h
  obtain ⟨memory, _, rfl⟩ := Machine.reset_eq_ok_iff.1 hreset
  cases hr'
  exact ⟨rfl, rfl⟩

theorem consistent_apply (hr : r.Consistent) (c : Call) : (c.apply r).Consistent := by
  cases hrun : c.run? r with
  | some run =>
      rw [apply_of_run? hrun]
      cases hhalted : r.machine.halted with
      | false => exact (ends_of_run? hhalted hrun).consistent
      | true =>
          rw [eq_of_run? hhalted hrun]
          exact hr
  | none =>
      cases c with
      | setPaused => exact hr
      | reload =>
          change (r.reload.toOption.getD r).Consistent
          cases hreload : r.reload with
          | error => exact hr
          | ok r' => exact (clean_of_reload hreload).consistent
      | runSteps | runToCompletion | runUntil => cases hrun

/-- Only a reload ends the halt of the machine and takes its error away. -/
theorem kept_apply (hr : r.machine.halted = true) (hc : c ≠ .reload) :
    (c.apply r).machine = r.machine ∧ (c.apply r).error = r.error := by
  cases hrun : c.run? r with
  | some run =>
      rw [apply_of_run? hrun, eq_of_run? hr hrun]
      exact ⟨rfl, rfl⟩
  | none =>
      cases c with
      | setPaused => exact ⟨rfl, rfl⟩
      | reload => exact absurd rfl hc
      | runSteps | runToCompletion | runUntil => cases hrun

end Call

namespace Runner

variable {R : Type} [Robot R] {r : Runner R}

def afterCalls (r : Runner R) : List Call → Runner R
  | [] => r
  | c :: calls => (c.apply r).afterCalls calls

theorem consistent_afterCalls (hr : r.Consistent) (calls : List Call) :
    (r.afterCalls calls).Consistent := by
  induction calls generalizing r with
  | nil => exact hr
  | cons c calls ih => exact ih (Call.consistent_apply hr c)

theorem kept_afterCalls (hr : r.machine.halted = true) (calls : List Call)
    (hcalls : .reload ∉ calls) :
    (r.afterCalls calls).machine = r.machine ∧ (r.afterCalls calls).error = r.error := by
  induction calls generalizing r with
  | nil => exact ⟨rfl, rfl⟩
  | cons c calls ih =>
      have hc : c ≠ .reload := fun hc => hcalls (hc ▸ List.mem_cons_self)
      obtain ⟨hmachine, herror⟩ := Call.kept_apply hr hc
      have hrest := ih (r := c.apply r) (hmachine ▸ hr) fun h => hcalls (List.mem_cons_of_mem _ h)
      exact ⟨hrest.1.trans hmachine, hrest.2.trans herror⟩

/-- What the error of a runner tells, after any calls on a runner for a machine that has just been
started. The machine is halted exactly if there is a fatal error. Then no later run that is not
paused and whose limits leave room for a step does anything but report that error again, until a
reload. And a run that begins on a running machine fails exactly if there is an error worth
reporting afterwards, whose text is that of the outcome. -/
theorem error_of_calls {image : Image} {robot : R} {clock : Clock} {machine : Machine R}
    (hstart : Machine.start image robot clock = .ok machine) (haltOnFault : Bool)
    (maxSteps timeBudget : Option Nat) (calls : List Call) :
    let r := afterCalls { machine, haltOnFault, maxSteps, timeBudget } calls
    (r.machine.halted = true ↔ ∃ e, r.error = some e ∧ e.isFatal = true) ∧
      (∀ e, r.machine.halted = true → r.error = some e →
        ∀ later, .reload ∉ later → (r.afterCalls later).error = some e ∧
          ∀ c run, Call.run? c (r.afterCalls later) = some run →
            (r.afterCalls later).paused = false → c.Begins (r.afterCalls later) →
            run.1.steps = 0 ∧ run.1.outcome = e.haltOutcome ∧
              ((∀ pc, e ≠ .stopped pc) → run.1.outcome.errorText? = some e.message)) ∧
      (r.machine.halted = false → ∀ c run, Call.run? c r = some run →
        (run.1.outcome.isFailure = true ↔ run.2.failure.isSome = true) ∧
          run.1.outcome.errorText? = run.2.failure.map Machine.Error.message) := by
  obtain ⟨memory, _, hmachine⟩ := bind_eq_ok_iff.1 hstart
  have hfresh : Clean { machine, haltOnFault, maxSteps, timeBudget } := by
    cases hmachine
    exact ⟨rfl, rfl⟩
  refine ⟨consistent_afterCalls hfresh.consistent calls, ?_, ?_⟩
  · intro e hhalted herror later hlater
    obtain ⟨hmachine', herror'⟩ := kept_afterCalls hhalted later hlater
    have hlate := herror'.trans herror
    refine ⟨hlate, ?_⟩
    intro c run hrun hpaused hbegins
    obtain ⟨hsteps, houtcome⟩ :=
      Call.reports_of_run? (hmachine' ▸ hhalted) hpaused hbegins hrun
    rw [haltedOutcome_of_error hlate] at houtcome
    refine ⟨hsteps, houtcome, ?_⟩
    intro hstop
    rw [houtcome]
    cases e with
    | stopped pc => exact absurd rfl (hstop pc)
    | _ => rfl
  · intro hrunning c run hrun
    have htext := (Call.ends_of_run? hrunning hrun).errorText?
    refine ⟨?_, htext⟩
    rw [Outcome.isFailure_eq, htext, Option.isSome_map]

def badStore : Image :=
  ({} : Dataspace).toImage #[] (assemble [.set 7 1, .stop]).toArray

def startOfBadStore : Machine HeadlessRobot where
  image := badStore
  memory := ⟨#[], #[], #[⟨⟨0, 10, 1, 0, 0xFFFF⟩, #[]⟩], []⟩
  control := {}
  halted := false
  robot := .ofSensors []
  clock := .driven 0
  diagnostics := #[]
  seen := []

/-- The store ends the first run, and the STOP halts the machine in the last one; a pause does not
take that error away. -/
theorem error_of_badStore :
    let calls := [Call.runSteps 1, .setPaused true, .runSteps 4, .setPaused false, .runToCompletion]
    let r₀ : Runner HeadlessRobot :=
      { machine := startOfBadStore, haltOnFault := true, maxSteps := some 10, timeBudget := none }
    let late := (r₀.afterCalls calls).afterCalls [.setPaused true, .runSteps 3, .setPaused false]
    (∃ e, (r₀.afterCalls calls).error = some e ∧ e.isFatal = true) ∧
      late.error = some (.stopped 3) ∧
      (late.runSteps 9).1.steps = 0 ∧ (late.runSteps 9).1.outcome = .stopped 3 ∧
      (r₀.runSteps 1).1.outcome.errorText? =
        (r₀.runSteps 1).2.failure.map Machine.Error.message := by
  have hstart : Machine.start badStore (.ofSensors []) (.driven 0) = .ok startOfBadStore := rfl
  have hcalls := error_of_calls hstart true (some 10) none
    [.runSteps 1, .setPaused true, .runSteps 4, .setPaused false, .runToCompletion]
  have hlate := hcalls.2.1 (.stopped 3) (by decide +kernel) (by decide +kernel)
    [.setPaused true, .runSteps 3, .setPaused false] (by decide)
  have hrun := hlate.2 (.runSteps 9) _ rfl (by decide +kernel) (Nat.succ_ne_zero 8)
  have hfirst := (error_of_calls hstart true (some 10) none []).2.2 (by decide +kernel)
    (.runSteps 1) _ rfl
  exact ⟨hcalls.1.1 (by decide +kernel), hlate.1, hrun.1, hrun.2.1, hfirst.2⟩

end Runner

end BrickMachine
