import BrickMachine.Proofs.Code.Operands
import BrickMachine.Proofs.Machine.Computing
import BrickMachine.Proofs.Machine.Listing
import Mathlib.Data.List.Forall2
import Mathlib.Data.List.ProdSigma

/-!
# Setting output channels

SETOUT sets some properties of one channel after the other. A value is read right before the call
that needs it, so when a read fails, the calls before it have been made already. But what is read
does not depend on the channel, and no call has a part in memory: a value that can be read for the
first channel can be read for all the others. So a failure is one of the first channel, and the
calls of later channels either are all made or were never begun.

`setsOutputs_of_step` says which calls a step makes, for any robot.
-/

namespace BrickMachine

structure OutputCall where
  channel : Int32
  property : UInt16
  value : Int32
  deriving DecidableEq, Repr

def Machine.receive {R : Type} [Robot R] (m : Machine R) (calls : List OutputCall) : Machine R :=
  { m with
    robot := calls.foldl (fun r c => Robot.setOutput r c.channel c.property c.value) m.robot }

/-! ### What is asked for -/

/-- The settings of an instruction with the given size and the given words behind the channel: pairs
of a property and a slot, from half the size less three words, or from all words if they are fewer.
A last single word is ignored. -/
structure IsSettings (size : UInt16) (rest : List UInt16) (settings : List (UInt16 × UInt16)) :
    Prop where
  length : settings.length = min (size.toNat / 2 - 3) rest.length / 2
  word (k : Nat) (property src : UInt16) : settings[k]? = some (property, src) →
    rest[2 * k]? = some property ∧ rest[2 * k + 1]? = some src

namespace Memory

variable {m : Memory} {e : Nat}

/-- The elements of the array at entry `e`, or the one number of a slot that is no array. -/
inductive Lists (m : Memory) (e : Nat) : List Int32 → Prop
  | elements {vs : List Int32} : m.slotType e = .ok .array → m.arrayLength e = .ok vs.length →
      (∀ i v, vs[i]? = some v → m.element e i = .ok v) → Lists m e vs
  | single {t : SlotType} {v : Int32} : m.slotType e = .ok t → t ≠ .array → m.scalar e = .ok v →
      Lists m e [v]

def Asks (m : Memory) (x : Int32 × UInt16 × UInt16) (c : OutputCall) : Prop :=
  c.channel = x.1 ∧ c.property = x.2.1 ∧ m.scalar x.2.2.toNat = .ok c.value

end Memory

inductive Memory.SetsOutputs (m : Memory) (port : Nat) (settings : List (UInt16 × UInt16)) :
    Except Machine.Error Machine.StepOutcome → List OutputCall → Prop
  /-- If the channels cannot be read, there are no calls. -/
  | unknownChannels {e : MemoryError} :
      m.values port = .error e → (∀ channels, ¬ m.Lists port channels) →
      SetsOutputs m port settings (.error (.memory e)) []
  /-- If a value cannot be read, there are the calls of the first channel for the settings before
  it. -/
  | unknownValue {channel : Int32} {others : List Int32} {k : Nat} {s : UInt16 × UInt16}
      {e : MemoryError} {calls : List OutputCall} :
      m.Lists port (channel :: others) → settings[k]? = some s → m.scalar s.2.toNat = .error e →
      List.Forall₂ m.Asks ((settings.take k).map (channel, ·)) calls →
      SetsOutputs m port settings (.error (.memory e)) calls
  /-- Otherwise there are the calls of every channel for all settings. -/
  | all {channels : List Int32} {calls : List OutputCall} :
      m.Lists port channels → List.Forall₂ m.Asks (channels ×ˢ settings) calls →
      calls.length = channels.length * settings.length →
      SetsOutputs m port settings (.ok .executed) calls

/-! ### Settings and channels -/

theorem length_pairs {α : Type} (l : List α) : (pairs l).length = l.length / 2 := by
  induction l using pairs.induct with
  | case1 a b rest ih =>
      rw [pairs, List.length_cons, ih, List.length_cons, List.length_cons]
      omega
  | case2 l hshort =>
      rcases l with _ | ⟨a, _ | ⟨b, rest⟩⟩
      · simp [pairs]
      · simp [pairs]
      · exact absurd rfl (hshort a b rest)

theorem getElem?_of_pairs {α : Type} {l : List α} {k : Nat} {a b : α}
    (h : (pairs l)[k]? = some (a, b)) : l[2 * k]? = some a ∧ l[2 * k + 1]? = some b := by
  induction l using pairs.induct generalizing k with
  | case1 x y rest ih =>
      cases k with
      | zero =>
          cases h
          exact ⟨rfl, rfl⟩
      | succ k => exact ih h
  | case2 l hshort =>
      rw [pairs] at h
      · cases h
      · exact hshort

theorem isSettings_pairs (size : UInt16) (rest : List UInt16) :
    IsSettings size rest (pairs (rest.take (payloadLength size))) where
  length := by rw [length_pairs, List.length_take, payloadLength]
  word k property src h := by
    have htake {i n : Nat} {w : UInt16} (hw : (rest.take n)[i]? = some w) : rest[i]? = some w := by
      rw [List.getElem?_take] at hw
      split at hw
      · exact hw
      · cases hw
    obtain ⟨hproperty, hsrc⟩ := getElem?_of_pairs h
    exact ⟨htake hproperty, htake hsrc⟩

namespace Memory

variable {m : Memory} {e : Nat} {vs : List Int32}

theorem allElements_eq_ok_iff_forall :
    m.allElements e = .ok vs ↔
      m.arrayLength e = .ok vs.length ∧ ∀ i v, vs[i]? = some v → m.element e i = .ok v := by
  rw [allElements_eq_ok_iff, readings, map_eq_ok_iff]
  constructor
  · rintro ⟨n, hn, hmap⟩
    obtain rfl : n = vs.length := by simpa using congrArg List.length hmap
    refine ⟨hn, fun i v hv => ?_⟩
    obtain ⟨hi, rfl⟩ := List.getElem?_eq_some_iff.1 hv
    have hread := congrArg (·[i]?) hmap
    simpa [hi] using hread
  · rintro ⟨hn, hread⟩
    refine ⟨_, hn, List.ext_getElem (by simp) fun i _ hi => ?_⟩
    rw [List.length_map] at hi
    simpa using hread i vs[i] (List.getElem?_eq_getElem hi)

theorem values_eq_ok_iff : m.values e = .ok vs ↔ m.Lists e vs := by
  simp only [values, bind_eq_ok_iff]
  constructor
  · rintro ⟨t, ht, h⟩
    split at h
    case isTrue harray =>
      obtain ⟨hn, hread⟩ := allElements_eq_ok_iff_forall.1 h
      exact .elements (harray ▸ ht) hn hread
    case isFalse harray =>
      obtain ⟨v, hv, rfl⟩ := map_eq_ok_iff.1 h
      exact .single ht harray hv
  · rintro (⟨ht, hn, hread⟩ | ⟨ht, harray, hv⟩)
    · exact ⟨_, ht, allElements_eq_ok_iff_forall.2 ⟨hn, hread⟩⟩
    · refine ⟨_, ht, ?_⟩
      rw [if_neg harray, hv]
      rfl

end Memory

/-! ### The calls of a list of requests -/

namespace Exec

variable {R : Type} [Robot R] {m : Machine R}

def setOutputs : List (Int32 × UInt16 × UInt16) → Exec R Unit
  | [] => pure ()
  | (channel, property, src) :: xs => do
    let v ← scalar src
    act fun m => { m with robot := Robot.setOutput m.robot channel property v }
    setOutputs xs

theorem setOutputs_append (xs ys : List (Int32 × UInt16 × UInt16)) :
    (setOutputs (xs ++ ys) : Exec R Unit) = (do setOutputs xs; setOutputs ys) := by
  induction xs with
  | nil => rfl
  | cons x xs ih => simp only [List.cons_append, setOutputs, ih, bind_assoc]

theorem setChannel_eq (channel : Int32) (settings : List (UInt16 × UInt16)) :
    (setChannel channel settings : Exec R Unit) = setOutputs (settings.map (channel, ·)) := by
  induction settings with
  | nil => rfl
  | cons s settings ih => rw [setChannel, ih, List.map_cons, setOutputs]

/-- Channel by channel, and setting by setting for each of them. -/
theorem setChannels_eq (settings : List (UInt16 × UInt16)) (channels : List Int32) :
    (setChannels settings channels : Exec R Unit) = setOutputs (channels ×ˢ settings) := by
  induction channels with
  | nil => rfl
  | cons channel channels ih =>
      rw [setChannels, ih, setChannel_eq, List.product_cons, setOutputs_append]

/-- Either all calls are made, or there is a first value that cannot be read, and the calls before
it are made. -/
theorem run_setOutputs (xs : List (Int32 × UInt16 × UInt16)) (m : Machine R) :
    (∃ calls, List.Forall₂ m.memory.Asks xs calls ∧
      (setOutputs xs).run m = (.ok (), m.receive calls)) ∨
    ∃ k x e calls, xs[k]? = some x ∧ m.memory.scalar x.2.2.toNat = .error e ∧
      List.Forall₂ m.memory.Asks (xs.take k) calls ∧
      (setOutputs xs).run m = (.error (.memory e), m.receive calls) := by
  induction xs generalizing m with
  | nil => exact Or.inl ⟨[], List.Forall₂.nil, rfl⟩
  | cons x xs ih =>
      obtain ⟨channel, property, src⟩ := x
      rw [setOutputs, run_scalar_bind]
      cases hread : m.memory.scalar src.toNat with
      | error e =>
          exact Or.inr ⟨0, (channel, property, src), e, [], rfl, hread, List.Forall₂.nil, rfl⟩
      | ok v =>
          have hfirst : m.memory.Asks (channel, property, src) ⟨channel, property, v⟩ :=
            ⟨rfl, rfl, hread⟩
          rcases ih (m.receive [⟨channel, property, v⟩]) with
            ⟨calls, hcalls, hrun⟩ | ⟨k, x, e, calls, hx, he, hcalls, hrun⟩
          · exact Or.inl ⟨_ :: calls, hcalls.cons hfirst, hrun⟩
          · exact Or.inr ⟨k + 1, x, e, _ :: calls, hx, he, hcalls.cons hfirst, hrun⟩

/-- What has been read for the first channel can be read for all of them, so a value that cannot be
read is one of the first channel. -/
theorem lt_length_of_unreadable {settings : List (UInt16 × UInt16)} {channel : Int32}
    {others : List Int32} {k : Nat} {x : Int32 × UInt16 × UInt16} {e : MemoryError}
    {calls : List OutputCall} {memory : Memory}
    (hx : ((channel :: others) ×ˢ settings)[k]? = some x)
    (he : memory.scalar x.2.2.toNat = .error e)
    (hcalls : List.Forall₂ memory.Asks (((channel :: others) ×ˢ settings).take k) calls) :
    k < settings.length := by
  have hread : ∀ y ∈ ((channel :: others) ×ˢ settings).take k,
      ∃ v, memory.scalar y.2.2.toNat = .ok v := by
    have hboth : List.Forall₂ (fun y _ => (∃ v, memory.scalar y.2.2.toNat = .ok v) ∧ True)
        (((channel :: others) ×ˢ settings).take k) calls :=
      hcalls.imp fun _ c h => ⟨⟨c.value, h.2.2⟩, trivial⟩
    exact ((List.forall₂_and_left _ _).1 hboth).1
  by_contra hlate
  have hmem : x.2 ∈ settings := (List.mem_product.1 (List.mem_of_getElem? hx)).2
  have hfirst : (channel, x.2) ∈ ((channel :: others) ×ˢ settings).take k := by
    rw [List.product_cons, List.take_append,
      List.take_of_length_le (by simpa using Nat.le_of_not_lt hlate)]
    exact List.mem_append_left _ (List.mem_map_of_mem hmem)
  obtain ⟨v, hv⟩ := hread _ hfirst
  rw [hv] at he
  cases he

theorem setsOutputs_execute (m : Machine R) (pc : Nat) (port : UInt16)
    (settings : List (UInt16 × UInt16)) :
    ∃ result calls, (execute pc (.setOutput port settings)).run m = (result, m.receive calls) ∧
      m.memory.SetsOutputs port.toNat settings (result.map fun _ => .executed) calls := by
  unfold execute
  rw [run_ask_bind]
  cases hvalues : m.memory.values port.toNat with
  | error e =>
      refine ⟨.error (.memory e), [], rfl, .unknownChannels hvalues fun channels hchannels => ?_⟩
      rw [Memory.values_eq_ok_iff.2 hchannels] at hvalues
      cases hvalues
  | ok channels =>
      have hchannels : m.memory.Lists port.toNat channels := Memory.values_eq_ok_iff.1 hvalues
      dsimp only
      rw [setChannels_eq]
      rcases run_setOutputs (channels ×ˢ settings) m with
        ⟨calls, hcalls, hrun⟩ | ⟨k, x, e, calls, hx, he, hcalls, hrun⟩
      · have hlength := hcalls.length_eq
        rw [List.length_product] at hlength
        exact ⟨.ok (), calls, hrun, .all hchannels hcalls hlength.symm⟩
      · cases channels with
        | nil => cases hx
        | cons channel others =>
            have hk : k < settings.length := lt_length_of_unreadable hx he hcalls
            have hmap : k < (settings.map (channel, ·)).length := by rwa [List.length_map]
            rw [List.product_cons, List.getElem?_append_left hmap, List.getElem?_map] at hx
            obtain ⟨s, hs, rfl⟩ := Option.map_eq_some_iff.1 hx
            rw [List.product_cons, List.take_append_of_le_length (Nat.le_of_lt hmap),
              ← List.map_take] at hcalls
            exact ⟨.error (.memory e), calls, hrun, .unknownValue hchannels hs he hcalls⟩

end Exec

/-! ### Steps -/

namespace Machine

variable {R : Type} [Robot R] {m : Machine R} {i : Instruction}

/-- A step that sets output channels makes the calls of all channels for all settings; or it fails
because the channels cannot be read, and makes no call; or it fails because the value of a setting
cannot be read, and makes the calls of the first channel for the settings before this one. Apart
from the robot, which has received the calls, only the program counter is another afterwards. -/
theorem setsOutputs_of_step (hidle : m.idle? = none)
    (hi : Instruction.decode m.image.code m.control.pc = .ok i) (hop : i.opcode = .setOut) :
    ∃ size port rest settings calls, i.operands = size :: port :: rest ∧
      IsSettings size rest settings ∧
      m.memory.SetsOutputs port.toNat settings m.step.1 calls ∧
      m.step.2 = (m.behind i).receive calls ∧ m.step.2.memory = m.memory := by
  obtain ⟨op, hoperation⟩ := Instruction.exists_operation?_of_decode hi
  have hsized : Operation.sized (fun channel payload => .setOutput channel (pairs payload))
      i.operands = some op := by
    rw [Instruction.operation?, hop] at hoperation
    exact hoperation
  obtain ⟨size, port, rest, hwords, rfl⟩ := Operation.of_sized hsized
  obtain ⟨result, calls, hrun, hcalls⟩ := Exec.setsOutputs_execute (m.behind i) m.control.pc port
    (pairs (rest.take (payloadLength size)))
  have hstep : m.step
      = (result.map fun _ => StepOutcome.executed, (m.behind i).receive calls) := by
    rw [step_of_decode hidle hi, executeInstruction, hoperation]
    dsimp only
    rw [hrun]
    cases result with
    | ok => rfl
    | error e =>
        cases hcalls <;> rfl
  rw [hstep]
  exact ⟨size, port, rest, _, calls, hwords, isSettings_pairs size rest, hcalls, rfl, rfl⟩

/-- A machine that is about to set the speed and the mode of two channels. The slot that is to give
the mode does not exist. -/
def withoutMode : Machine HeadlessRobot :=
  running [.setOut 0 [(Output.speed, 2), (Output.mode, 9)]]
    { toc := #[⟨.array, 0, 0⟩, ⟨.sbyte, 0, 0⟩, ⟨.sbyte, 0, 2⟩]
      statics := #[1, 0, 50]
      blocks := #[⟨⟨0, 10, 2, 0, 0⟩, #[]⟩, ⟨⟨0, 1, 2, 0, 0⟩, #[0, 2]⟩]
      slots := [0, 2] }
    {}

theorem setsOutputs_of_withoutMode :
    ∃ settings calls, IsSettings 14 [2, 2, 1, 9] settings ∧
      withoutMode.memory.SetsOutputs 0 settings (.error (.memory (.outOfRange .entry 9 3))) calls ∧
      (withoutMode.receive calls).robot.events = #[.setOutput 0 Output.speed 50] := by
  have hi : Instruction.decode withoutMode.image.code 0
      = .ok ⟨.setOut, 0, 7, [14, 0, 2, 2, 1, 9], false⟩ := rfl
  obtain ⟨size, port, rest, settings, calls, hwords, hsettings, hcalls, hstep, _⟩ :=
    setsOutputs_of_step (m := withoutMode) rfl hi rfl
  cases hwords
  have hevents : withoutMode.step.2.robot.events = #[.setOutput 0 Output.speed 50] := by
    decide +kernel
  rw [hstep] at hevents
  exact ⟨settings, calls, hsettings, hcalls, hevents⟩

end Machine

end BrickMachine
