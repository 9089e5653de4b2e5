import BrickMachine.Proofs.Robot.SystemCalls

/-!
# What a headless robot goes through

A host sets the robot's sensors and takes its log away, and a program sets properties of channels
and makes system calls, each of them with the memory that it has by then. Asking the robot for
something changes nothing, so a history is a list of these uses.

Much of the robot is what the last use of some kind has left. If a use either leaves a value behind
or keeps the one that there was, then so does a history, as `after_eq_getLastD` says, and only the
uses that leave a value count.
-/

namespace BrickMachine

namespace HeadlessRobot

/-- Something that is done to the robot. A system call is made with some memory. -/
inductive Use where
  | setSensor (channel : Nat) (value : Float32)
  | setInput (channel : Int32) (property : UInt16) (value : Int32)
  | setOutput (channel : Int32) (property : UInt16) (value : Int32)
  | syscall (id : UInt16) (base : Nat) (memory : Memory)
  | takeEvents

def Use.apply : Use → HeadlessRobot → HeadlessRobot
  | setSensor channel value, r => r.setSensor channel value
  | setInput channel property value, r => r.setInput channel property value
  | setOutput channel property value, r => r.setOutput channel property value
  | syscall id base m, r => (Robot.syscall id base r m).2.1
  | takeEvents, r => r.withoutEvents

def after (r : HeadlessRobot) : List Use → HeadlessRobot
  | [] => r
  | use :: uses => (use.apply r).after uses

theorem after_append (r : HeadlessRobot) (first second : List Use) :
    r.after (first ++ second) = (r.after first).after second := by
  induction first generalizing r with
  | nil => rfl
  | cons use first ih => exact ih (use.apply r)

/-! ### System calls -/

variable {id : UInt16} {base : Nat} {r : HeadlessRobot} {m : Memory}

theorem syscall_of_unread {e : MemoryError} (h : Syscall.Request.read m id base = .error e) :
    Robot.syscall id base r m = (.error e, r, m) := by
  have hread : (Call.ask (Syscall.Request.read · id base)).run (r, m) = (.error e, (r, m)) := by
    rw [← h]
    rfl
  change (call id base).run (r, m) = _
  unfold call
  rw [Keeps.run_bind, hread]

/-- After the request comes at most a store to the status. -/
theorem syscall_of_read {request : Syscall.Request}
    (h : Syscall.Request.read m id base = .ok request) :
    (Robot.syscall id base r m).2.1 = ((perform base request).run (r, m)).2.1 ∧
      ((perform base request).run (r, m)).2.2.StoresOnly (base + Syscall.statusField)
        (Robot.syscall id base r m).2.2 := by
  change ((call id base).run (r, m)).2.1 = _ ∧ Memory.StoresOnly _ _ ((call id base).run (r, m)).2.2
  rw [run_call h, Keeps.run_bind]
  rcases (perform base request).run (r, m) with ⟨_ | _, r₁, m₁⟩
  · exact ⟨rfl, refl_of _ m₁⟩
  · dsimp only
    rw [Call.run_update]
    cases hstore : m₁.setScalar (base + Syscall.statusField) 0 with
    | error e => exact ⟨rfl, refl_of _ m₁⟩
    | ok m₂ => exact ⟨rfl, Memory.storesOnly_setScalar hstore⟩

theorem serves_syscall (id : UInt16) (base : Nat) (r : HeadlessRobot) (m : Memory) :
    r.Serves id (Robot.syscall id base r m).2.1 := by
  cases h : Syscall.Request.read m id base with
  | error e =>
      rw [syscall_of_unread h]
      exact Serves.refl id r
  | ok request =>
      obtain rfl := Syscall.Request.named_read m id base request h
      rw [(syscall_of_read h).1]
      exact (reaches_perform base request (r, m)).1

/-! ### What the last use has left -/

section

variable {α : Type} {f : HeadlessRobot → α} {left? : Use → Option α}

theorem after_eq_getLastD (hstep : ∀ use r, f (use.apply r) = (left? use).getD (f r))
    (r : HeadlessRobot) (uses : List Use) :
    f (r.after uses) = (uses.filterMap left?).getLastD (f r) := by
  induction uses generalizing r with
  | nil => rfl
  | cons use uses ih =>
      change f ((use.apply r).after uses) = _
      rw [ih, hstep]
      cases h : left? use with
      | none => rw [List.filterMap_cons_none h, Option.getD_none]
      | some a => rw [List.filterMap_cons_some h, List.getLastD_cons, Option.getD_some]

/-- Uses that leave no value do not count. -/
theorem filterMap_congr_of_filter {counts : Use → Bool}
    (hcounts : ∀ use, counts use = false → left? use = none) {uses uses' : List Use}
    (h : uses.filter counts = uses'.filter counts) :
    uses.filterMap left? = uses'.filterMap left? := by
  have hfilter (uses : List Use) : (uses.filter counts).filterMap left? = uses.filterMap left? := by
    rw [List.filterMap_filter]
    refine congrArg (List.filterMap · uses) (funext fun use => ?_)
    cases hc : counts use with
    | false => simp [hcounts use hc]
    | true => simp
  rw [← hfilter uses, h, hfilter]

end

/-! ### Sensors -/

def Use.sensor? (channel : Int32) : Use → Option Float32
  | setSensor c value => if channel.toInt = c ∧ c < 4 then some value else none
  | _ => none

theorem sensor_setSensor (r : HeadlessRobot) (c : Nat) (value : Float32) (channel : Int32) :
    (r.setSensor c value).sensor channel
      = if channel.toInt = c ∧ c < 4 then value else r.sensor channel := by
  have hpos : 0 ≤ channel ↔ 0 ≤ channel.toInt := Int32.le_iff_toInt_le
  unfold sensor setSensor
  dsimp only
  rw [Vector.getElem?_setIfInBounds]
  by_cases hchannel : 0 ≤ channel
  · have hnonneg := hpos.1 hchannel
    rw [if_pos hchannel, if_pos hchannel]
    by_cases hc : c = channel.toInt.toNat
    · by_cases h4 : c < 4
      · have h : channel.toInt = c ∧ c < 4 := by omega
        rw [if_pos hc, if_pos h4, if_pos h, Option.getD_some]
      · have h : ¬ (channel.toInt = c ∧ c < 4) := by omega
        rw [if_pos hc, if_neg h4, if_neg h, Vector.getElem?_eq_none (by omega)]
    · have h : ¬ (channel.toInt = c ∧ c < 4) := by omega
      rw [if_neg hc, if_neg h]
  · have hneg := mt hpos.2 hchannel
    have h : ¬ (channel.toInt = c ∧ c < 4) := by omega
    rw [if_neg hchannel, if_neg h, if_neg hchannel]

theorem sensor_apply (channel : Int32) (use : Use) (r : HeadlessRobot) :
    (use.apply r).sensor channel = (use.sensor? channel).getD (r.sensor channel) := by
  cases use with
  | setSensor c value =>
      change (r.setSensor c value).sensor channel = (ite _ _ _ : Option Float32).getD _
      rw [sensor_setSensor]
      split <;> rfl
  | setInput c property value =>
      change (r.setInput c property value).sensor channel = r.sensor channel
      unfold setInput
      split <;> rfl
  | syscall id base m =>
      change (Robot.syscall id base r m).2.1.sensor channel = r.sensor channel
      unfold sensor
      rw [(serves_syscall id base r m).sensors]
  | setOutput | takeEvents => rfl

end HeadlessRobot

end BrickMachine
