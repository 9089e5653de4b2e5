import BrickMachine.Proofs.Run.Turns
import Mathlib.Algebra.Ring.Nat

/-!
# Cutting a run

On a driven clock a run of `n` instructions and then one of `m` does the same as one of `n + m`,
unless the first one ends with a memory error: such an end is forgotten by the next run. So a run
can be cut anywhere, also before a wait or behind the end of the program.

`Stretch` is what such a run does without its limit in turns: at most `n` times the runner awakes
and its machine makes a step.
-/

namespace BrickMachine

namespace Runner

open Run

structure Ready {R : Type} (r : Runner R) : Prop where
  running : r.paused = false
  driven : r.machine.clock.motion = .driven

theorem Ready.awake {R : Type} {r : Runner R} (h : r.Ready) : r.awake.Ready where
  running := r.awake_setup.1.trans h.running
  driven := r.awake_setup.2.2.2.trans h.driven

theorem Ready.refreshed {R : Type} {r : Runner R} (h : r.Ready) : r.refreshed.Ready := by
  unfold Runner.refreshed
  split
  · exact h
  · exact ⟨h.running, h.driven⟩

def stepLimits (n : Nat) : Limits := { steps := some n, time := none, sleeps := false }

theorem Ready.within {R : Type} {r : Runner R} (h : r.Ready) {n : Nat} {p : Progress}
    (hp : p.steps < n) : r.Within (stepLimits n) p where
  running := h.running
  steps := decide_eq_false (Nat.not_le.2 hp)
  time := rfl

variable {R : Type} [Robot R] {r r' r'' : Runner R} {o : Option Outcome} {k n m : Nat}
variable {outcome : Outcome}

/-- At most a number of instructions: the outcome if something else ends the run, the instructions
executed and the runner afterwards. -/
inductive Stretch : Nat → Runner R → Option Outcome → Nat → Runner R → Prop where
  | limit (r : Runner R) : Stretch 0 r none 0 r
  | ends {n : Nat} {r r' : Runner R} {outcome : Outcome} {k : Nat}
      (h : r.awake.Advances (some outcome) k r') : Stretch (n + 1) r (some outcome) k r'
  | goesOn {n : Nat} {r r' r'' : Runner R} {o : Option Outcome} {k : Nat}
      (h : r.awake.Advances none 1 r') (rest : Stretch n r' o k r'') :
      Stretch (n + 1) r o (1 + k) r''

theorem Advances.count_eq_one (h : r.Advances none k r') : k = 1 := by
  cases h <;> rfl

theorem Advances.ready (h : r.Advances o k r') (hr : r.Ready) : r'.Ready where
  running := h.setup.1.trans hr.running
  driven := (congrArg Clock.motion h.setup.2.2.2).trans hr.driven

theorem exists_stretch (n : Nat) (r : Runner R) : ∃ o k r', Stretch n r o k r' := by
  induction n generalizing r with
  | zero => exact ⟨none, 0, r, .limit r⟩
  | succ n ih =>
      obtain ⟨o, k, r', h⟩ := exists_advances (idle?_awake r)
      cases o with
      | some outcome => exact ⟨_, _, _, .ends h⟩
      | none =>
          obtain rfl := h.count_eq_one
          obtain ⟨o, k, r'', rest⟩ := ih r'
          exact ⟨_, _, _, .goesOn h rest⟩

namespace Stretch

/-! ### The turns of a stretch -/

/-- Two turns for each instruction and one more are enough. -/
theorem turns (h : Stretch n r o k r') (hr : r.Ready) {p : Progress} {total : Nat}
    (htotal : p.steps + n = total) :
    Runner.turns (stepLimits total) (2 * n + 1) p r
      = (some (o.getD .stepLimit), { p with steps := p.steps + k }, r') := by
  induction h generalizing p with
  | limit r =>
      have hreached : (stepLimits total).stepsReached p = true :=
        decide_eq_true (Nat.le_of_eq htotal.symm)
      rw [Runner.turns, turn, hr.running, hreached]
      rfl
  | @ends n r r' outcome k h =>
      apply turns_of_awake (n := 2 * n + 2) (hr.within (by omega)) hr.driven
      rw [Runner.turns, turn_of_advances (hr.awake.within (by omega)) h]
      rfl
  | @goesOn n r r' r'' o k h rest ih =>
      have hrest := ih (h.ready hr.awake) (p := { p with steps := p.steps + 1 })
        (show p.steps + 1 + n = total by omega)
      apply turns_of_awake (n := 2 * n + 2) (hr.within (by omega)) hr.driven
      rw [Runner.turns, turn_of_advances (hr.awake.within (by omega)) h]
      change Runner.turns _ (2 * n + 1) { p with steps := p.steps + 1 } r' = _
      rw [hrest, Nat.add_assoc]

theorem ready (h : Stretch n r o k r') (hr : r.Ready) : r'.Ready := by
  induction h with
  | limit => exact hr
  | ends h => exact h.ready hr.awake
  | goesOn h _ ih => exact ih (h.ready hr.awake)

theorem settled (h : Stretch n r o k r') (hr : r.Settled) (hfault : ∀ e, o ≠ some (.faulted e)) :
    r'.Settled := by
  induction h with
  | limit => exact hr
  | ends h => exact h.settled hr.awake hfault
  | goesOn h _ ih => exact ih (h.settled hr.awake nofun) hfault

theorem totalSteps (h : Stretch n r o k r') : r'.totalSteps = r.totalSteps := by
  induction h with
  | limit => rfl
  | @ends _ r _ _ _ h => exact h.setup.2.2.1.trans r.awake_setup.2.2.1
  | @goesOn _ r _ _ _ _ h _ ih => exact ih.trans (h.setup.2.2.1.trans r.awake_setup.2.2.1)

/-- The count of earlier runs plays no part. -/
theorem withTotal (h : Stretch n r o k r') (total : Nat) :
    Stretch n { r with totalSteps := total } o k { r' with totalSteps := total } := by
  have hawake (r : Runner R) :
      ({ r with totalSteps := total } : Runner R).awake
        = { r.awake with totalSteps := total } := by
    unfold awake
    dsimp only
    split <;> rfl
  have hadvances {r r' : Runner R} {o : Option Outcome} {k : Nat}
      (h : r.awake.Advances o k r') :
      ({ r with totalSteps := total } : Runner R).awake.Advances o k
        { r' with totalSteps := total } := by
    rw [hawake]
    cases h with
    | executes m h => exact .executes m h
    | passes e m h hpolicy => exact .passes e m h hpolicy
    | faults e m h hpolicy => exact .faults e m h hpolicy
    | halts e m h hfatal => exact .halts e m h hfatal
    | stays h => exact .stays h
    | finishes h => exact .finishes h
  induction h with
  | limit => exact limit _
  | ends h => exact ends (hadvances h)
  | goesOn h _ ih => exact goesOn (hadvances h) ih

/-! ### Stretches one after the other -/

/-- What is not ended goes on. -/
theorem append {o' : Option Outcome} {k' : Nat} (h : Stretch n r none k r')
    (h' : Stretch m r' o' k' r'') : Stretch (n + m) r o' (k + k') r'' := by
  generalize hnone : (none : Option Outcome) = o at h
  induction h with
  | limit => rwa [Nat.zero_add, Nat.zero_add]
  | ends => cases hnone
  | goesOn h _ ih =>
      rw [Nat.add_right_comm _ 1 m, Nat.add_assoc 1]
      exact goesOn h (ih h' hnone)

/-- What is ended has ended. -/
theorem extend (h : Stretch n r (some outcome) k r') (m : Nat) :
    Stretch (n + m) r (some outcome) k r' := by
  generalize hsome : some outcome = o at h
  induction h with
  | limit => cases hsome
  | ends h =>
      rw [Nat.add_right_comm]
      exact ends h
  | goesOn h _ ih =>
      rw [Nat.add_right_comm]
      exact goesOn h (ih hsome)

/-- The end of a stretch ends every later one at once. -/
theorem repeats (h : Stretch n r (some outcome) k r') (hfault : ∀ e, outcome ≠ .faulted e)
    (m : Nat) : Stretch (m + 1) r' (some outcome) 0 r' := by
  generalize hsome : some outcome = o at h
  induction h with
  | limit => cases hsome
  | ends h =>
      cases hsome
      have hagain := h.repeats hfault
      apply ends
      rw [awake_eq_self hagain.not_waiting]
      exact hagain
  | goesOn _ _ ih => exact ih hsome

/-- Two stretches in a row are one. -/
theorem cut (h : Stretch n r o k r') (hfault : ∀ e, o ≠ some (.faulted e)) (hm : 0 < m) :
    ∃ o' k' r'', Stretch m r' o' k' r'' ∧ Stretch (n + m) r o' (k + k') r'' := by
  cases o with
  | none =>
      obtain ⟨o', k', r'', h'⟩ := exists_stretch m r'
      exact ⟨o', k', r'', h', h.append h'⟩
  | some outcome =>
      obtain ⟨m, rfl⟩ := Nat.exists_eq_succ_of_ne_zero (Nat.pos_iff_ne_zero.1 hm)
      have hagain := h.repeats (fun e he => hfault e (congrArg some he)) m
      exact ⟨_, _, _, hagain, h.extend _⟩

end Stretch

/-! ### Runs -/

theorem runSteps_of_stretch (hr : r.Ready) (h : Stretch n r.refreshed o k r') :
    r.runSteps n = closed .stepLimit (some (o.getD .stepLimit), { steps := k }, r') := by
  have hturns := h.turns hr.refreshed (p := {}) (Nat.zero_add n)
  rw [Nat.zero_add k] at hturns
  exact congrArg (closed .stepLimit) hturns

theorem ready_runSteps (hr : r.Ready) (n : Nat) : (r.runSteps n).2.Ready := by
  obtain ⟨o, k, r', h⟩ := exists_stretch n r.refreshed
  rw [runSteps_of_stretch hr h]
  exact ⟨(h.ready hr.refreshed).running, (h.ready hr.refreshed).driven⟩

/-- Some runs have together done what one run does: the runners are the same, the steps add up, and
the last summary has the outcome and the diagnostics of the one run. -/
def SameRun (parts : List Summary × Runner R) (whole : Summary × Runner R) : Prop :=
  parts.2 = whole.2 ∧ (parts.1.map (·.steps)).sum = whole.1.steps ∧
    ∃ last, parts.1.getLast? = some last ∧
      last.outcome = whole.1.outcome ∧ last.diagnostics = whole.1.diagnostics

def runChunks : List Nat → Runner R → List Summary × Runner R
  | [], r => ([], r)
  | n :: ns, r =>
    let (summary, r) := r.runSteps n
    let (summaries, r) := runChunks ns r
    (summary :: summaries, r)

theorem sameRun_add (hr : r.Ready) (n : Nat) (hm : 0 < m)
    (hfault : ∀ e, (r.runSteps n).1.outcome ≠ .faulted e) :
    SameRun ([(r.runSteps n).1, ((r.runSteps n).2.runSteps m).1], ((r.runSteps n).2.runSteps m).2)
      (r.runSteps (n + m)) := by
  obtain ⟨o, k, r₁, h⟩ := exists_stretch n r.refreshed
  have hfirst := runSteps_of_stretch hr h
  have hend : ∀ e, o ≠ some (.faulted e) := by
    rintro e rfl
    apply hfault e
    rw [hfirst]
    rfl
  obtain ⟨o', k', r₂, hnext, hwhole⟩ := h.cut hend hm
  have hready := ready_runSteps hr n
  rw [hfirst] at hready
  have hsettled : ({ r₁ with totalSteps := r₁.totalSteps + k } : Runner R).Settled :=
    h.settled (settled_refreshed r) hend
  have hsecond : (r.runSteps n).2.runSteps m
      = closed .stepLimit (some (o'.getD .stepLimit), { steps := k' },
          { r₂ with totalSteps := r₁.totalSteps + k }) := by
    have hstretch := hnext.withTotal (r₁.totalSteps + k)
    rw [← hsettled.refreshed] at hstretch
    rw [hfirst]
    exact runSteps_of_stretch hready hstretch
  rw [hsecond, hfirst, runSteps_of_stretch hr hwhole]
  refine ⟨?_, rfl, _, rfl, rfl, rfl⟩
  change ({ r₂ with totalSteps := r₁.totalSteps + k + k' } : Runner R)
    = { r₂ with totalSteps := r₂.totalSteps + (k + k') }
  rw [hnext.totalSteps, Nat.add_assoc]

/-- A run that has been cut once may be cut again in its second part. -/
theorem SameRun.cons {R : Type} {summary : Summary} {parts : List Summary × Runner R}
    {rest whole : Summary × Runner R} (hparts : SameRun parts rest)
    (h : SameRun ([summary, rest.1], rest.2) whole) :
    SameRun (summary :: parts.1, parts.2) whole := by
  obtain ⟨hrunner, hsteps, last, hlast, houtcome, hdiagnostics⟩ := hparts
  obtain ⟨hrunner', hsteps', last', hlast', houtcome', hdiagnostics'⟩ := h
  cases hlast'
  refine ⟨hrunner.trans hrunner', ?_, last, ?_, houtcome.trans houtcome',
    hdiagnostics.trans hdiagnostics'⟩
  · rw [← hsteps', List.map_cons, List.sum_cons, hsteps]
    rfl
  · rw [List.getLast?_cons, hlast]
    rfl

theorem sameRun_runChunks (hr : r.Ready) (n : Nat) (ns : List Nat) (hns : ∀ m ∈ ns, 0 < m)
    (hfault : ∀ s ∈ (r.runChunks (n :: ns)).1.dropLast, ∀ e, s.outcome ≠ .faulted e) :
    SameRun (r.runChunks (n :: ns)) (r.runSteps (n :: ns).sum) := by
  induction ns generalizing r n with
  | nil => exact ⟨rfl, rfl, _, rfl, rfl, rfl⟩
  | cons m ns ih =>
      obtain ⟨hm, hns⟩ := List.forall_mem_cons.1 hns
      have hsum : 0 < (m :: ns).sum := Nat.add_pos_left hm _
      obtain ⟨hfirst, hrest⟩ := List.forall_mem_cons.1 hfault
      exact (ih (ready_runSteps hr n) m hns hrest).cons (sameRun_add hr n hsum hfirst)

/-- Two runs of `n` and of `m` instructions do the same as one of `n + m`, if the first one has not
ended with a memory error. So a run may be cut into any parts that are not empty. -/
theorem run_in_chunks (hrunning : r.paused = false)
    (hdriven : r.machine.clock.motion = .driven) :
    (∀ n m, 1 ≤ m → (∀ e, (r.runSteps n).1.outcome ≠ .faulted e) →
      let first := r.runSteps n
      let second := first.2.runSteps m
      let whole := r.runSteps (n + m)
      second.2 = whole.2 ∧ first.1.steps + second.1.steps = whole.1.steps ∧
        second.1.outcome = whole.1.outcome ∧ second.1.diagnostics = whole.1.diagnostics) ∧
    ∀ ns, ns ≠ [] → (∀ n ∈ ns, 1 ≤ n) →
      (∀ s ∈ (r.runChunks ns).1.dropLast, ∀ e, s.outcome ≠ .faulted e) →
      SameRun (r.runChunks ns) (r.runSteps ns.sum) := by
  have hr : r.Ready := ⟨hrunning, hdriven⟩
  constructor
  · intro n m hm hfault
    obtain ⟨hrunner, hsteps, last, hlast, houtcome, hdiagnostics⟩ := sameRun_add hr n hm hfault
    cases hlast
    exact ⟨hrunner, hsteps, houtcome, hdiagnostics⟩
  · intro ns hne hns hfault
    cases ns with
    | nil => exact absurd rfl hne
    | cons n ns => exact sameRun_runChunks hr n ns (List.forall_mem_cons.1 hns).2 hfault

/-- A runner whose program stores a number, waits for so long, reads the clock and stops. -/
def waitAndStop : Runner HeadlessRobot where
  machine := Machine.running [.set 0 5, .wait 0, .getTick 0, .stop]
    ⟨#[⟨.uword, 0, 0⟩], #[0, 0], #[], [0]⟩ {}

theorem waitAndStop_in_chunks :
    (waitAndStop.runChunks [2, 1, 9]).1.map (·.outcome) = [.stepLimit, .stepLimit, .stopped 8] ∧
    SameRun (waitAndStop.runChunks [2, 1, 9]) (waitAndStop.runSteps 12) ∧
    ((waitAndStop.runSteps 2).2.runSteps 10).2 = (waitAndStop.runSteps 12).2 := by
  have houtcomes : (waitAndStop.runChunks [2, 1, 9]).1.map (·.outcome)
      = [.stepLimit, .stepLimit, .stopped 8] := by decide +kernel
  have hfirst : (waitAndStop.runSteps 2).1.outcome = .stepLimit := by decide +kernel
  obtain ⟨htwo, hall⟩ := run_in_chunks (r := waitAndStop) rfl rfl
  refine ⟨houtcomes, hall [2, 1, 9] (by decide) (by decide) ?_, (htwo 2 10 (by decide) ?_).1⟩
  · intro s hs e
    have houtcome : s.outcome ∈ List.replicate 2 Outcome.stepLimit := by
      have hmem := List.mem_map_of_mem (f := (·.outcome)) hs
      rw [List.map_dropLast, houtcomes] at hmem
      exact hmem
    rw [List.eq_of_mem_replicate houtcome]
    nofun
  · rw [hfirst]
    nofun

end Runner

end BrickMachine
