import BrickMachine.Proofs.Machine.Failure
import BrickMachine.Proofs.Memory.Shape

/-!
# Execution keeps the shape of memory

A step of a machine changes memory only by the changes that any host can make too, so it keeps the
shape of memory, whatever the instruction is and whether it fails. This needs a robot whose system
calls do so, and the headless robot is one. `memory_step` says it of every relation that these
changes and the system calls of the robot keep.

`shape_afterEdits` says what this means for a memory that was loaded from an image and then
changed in any way.
-/

namespace BrickMachine

abbrev OnMemory {R : Type} (r : Memory → Memory → Prop) : Machine R → Machine R → Prop :=
  InvImage r Machine.memory

abbrev MemoryEvolves {R : Type} : Machine R → Machine R → Prop :=
  OnMemory Memory.Evolves

namespace Exec

variable {R α : Type}

section

variable {r : Memory → Memory → Prop}

theorem keeps_change {c : Change α} (hc : Keeps r c) : Keeps (OnMemory r) (change c : Exec R α) :=
  fun m => hc m.memory

variable [IsPreorder Memory r]

/-- A change of anything but memory. -/
theorem keeps_act {f : Machine R → Machine R} (hf : ∀ m, (f m).memory = m.memory) :
    Keeps (OnMemory r) (act f) := by
  intro m
  change r m.memory (f m).memory
  rw [hf m]
  exact refl_of r m.memory

theorem keeps_consult (f : R → α × R) : Keeps (OnMemory r) (consult f) :=
  fun m => refl_of r m.memory

theorem keeps_arrayBuild {dst : UInt16} (h : Memory.ArrayKeeps r dst.toNat)
    (sources : List UInt16) : Keeps (OnMemory r) (arrayBuild dst sources : Exec R Unit) :=
  Keeps.bind (keeps_ask _) fun vs => keeps_change (h.assign vs)

theorem keeps_arrayInit {dst : UInt16} (h : Memory.ArrayKeeps r dst.toNat)
    (value count : UInt16) : Keeps (OnMemory r) (arrayInit dst value count : Exec R Unit) :=
  Keeps.bind (keeps_scalar value) fun v =>
    Keeps.bind (keeps_index count) fun n =>
      Keeps.bind (keeps_change (Memory.keeps_update h.resize)) fun _ =>
        keeps_change (h.storeElements 0 (List.replicate n v))

theorem keeps_arraySubset {dst : UInt16} (h : Memory.ArrayKeeps r dst.toNat)
    (src position length : UInt16) :
    Keeps (OnMemory r) (arraySubset dst src position length : Exec R Unit) :=
  Keeps.bind (keeps_ask _) fun _ =>
    Keeps.bind (keeps_index position) fun _ =>
      Keeps.bind (keeps_index? length) fun _ =>
        Keeps.bind (keeps_ask _) fun vs => keeps_change (h.assign vs)

theorem keeps_replace {dst : UInt16} (h : Memory.ArrayKeeps r dst.toNat)
    (src position new : UInt16) :
    Keeps (OnMemory r) (replace dst src position new : Exec R Unit) := by
  refine Keeps.bind (keeps_index position) fun start => Keeps.bind (keeps_ask _) fun vs => ?_
  have hstore : Keeps (OnMemory r) (do
      let n ← ask (·.arrayLength dst.toNat)
      change (Memory.storeElements dst.toNat start (vs.take (n - start))) : Exec R Unit) :=
    Keeps.bind (keeps_ask _) fun n =>
      keeps_change (h.storeElements start (vs.take (n - start)))
  split
  · exact Keeps.bind (keeps_change (h.copyArray src.toNat)) fun _ => hstore
  · exact hstore

end

theorem memory_note (m : Machine R) (d : Diagnostic) : (m.note d).memory = m.memory := by
  unfold Machine.note
  split <;> rfl

end Exec

/-- A relation that is kept whatever a program does to memory. -/
structure KeptByPrograms (R : Type) [Robot R] (r : Memory → Memory → Prop)
    [IsPreorder Memory r] : Prop where
  setScalar {m m' : Memory} {e : Nat} {v : Int32} : m.setScalar e v = .ok m' → r m m'
  array (e : Nat) : Memory.ArrayKeeps r e
  syscall (id : UInt16) (base : Nat) (robot : R) (m : Memory) :
    r m (Robot.syscall id base robot m).2.2

namespace Exec

variable {R : Type} {r : Memory → Memory → Prop} [IsPreorder Memory r]

theorem keeps_branch (pc : Nat) (offset : Int) :
    Keeps (OnMemory r) (branch pc offset : Exec R Unit) := by
  unfold branch
  dsimp only
  split
  · exact Keeps.throw _
  · exact keeps_act fun _ => rfl

theorem keeps_wait (duration : UInt16) : Keeps (OnMemory r) (wait duration : Exec R Unit) :=
  Keeps.bind (keeps_scalar duration) fun _ => keeps_act fun _ => rfl

theorem keeps_ret (pc : Nat) (slot : UInt16) : Keeps (OnMemory r) (ret pc slot : Exec R Unit) := by
  refine Keeps.bind (keeps_look _) fun stack => ?_
  cases stack with
  | nil => exact Keeps.throw _
  | cons address rest =>
      exact Keeps.bind (keeps_act fun _ => rfl) fun _ =>
        Keeps.bind (keeps_scalar slot) fun _ => keeps_act fun _ => rfl

variable [Robot R]

theorem keeps_setChannel (channel : Int32) (settings : List (UInt16 × UInt16)) :
    Keeps (OnMemory r) (setChannel channel settings : Exec R Unit) := by
  induction settings with
  | nil => exact Keeps.pure ()
  | cons s settings ih =>
      exact Keeps.bind (keeps_scalar s.2) fun _ => Keeps.bind (keeps_act fun _ => rfl) fun _ => ih

theorem keeps_setChannels (settings : List (UInt16 × UInt16)) (channels : List Int32) :
    Keeps (OnMemory r) (setChannels settings channels : Exec R Unit) := by
  induction channels with
  | nil => exact Keeps.pure ()
  | cons channel channels ih =>
      exact Keeps.bind (keeps_setChannel channel settings) fun _ => ih

variable (h : KeptByPrograms R r)
include h

theorem keeps_setScalar (e : UInt16) (v : Int32) :
    Keeps (OnMemory r) (setScalar e v : Exec R Unit) :=
  keeps_change (Memory.keeps_update h.setScalar)

theorem keeps_move (pc : Nat) (dst src : UInt16) :
    Keeps (OnMemory r) (move pc dst src : Exec R Unit) := by
  refine Keeps.bind (keeps_ask _) fun dstType => Keeps.bind (keeps_ask _) fun srcType => ?_
  split
  · exact keeps_change ((h.array dst.toNat).copyArray src.toNat)
  · split
    · exact Keeps.bind (keeps_scalar src) fun v => keeps_setScalar h dst v
    · exact keeps_act fun m => memory_note m _

theorem keeps_call (pc : Nat) (clump slot : UInt16) :
    Keeps (OnMemory r) (call pc clump slot : Exec R Unit) := by
  refine Keeps.bind (keeps_look _) fun target => ?_
  cases target with
  | none => exact Keeps.throw _
  | some c =>
      exact Keeps.bind (keeps_look _) fun _ =>
        Keeps.bind (keeps_setScalar h slot _) fun _ => keeps_act fun _ => rfl

theorem keeps_syscall (id cluster : UInt16) :
    Keeps (OnMemory r) (syscall id cluster : Exec R Unit) :=
  fun m => h.syscall id cluster.toNat m.robot m.memory

end Exec

/-! ### System calls of the headless robot -/

namespace HeadlessRobot

abbrev CallEvolves : HeadlessRobot × Memory → HeadlessRobot × Memory → Prop :=
  InvImage Memory.Evolves Prod.snd

namespace Call

variable {α : Type}

theorem keeps_ask (f : Memory → Except MemoryError α) : Keeps CallEvolves (ask f) :=
  fun s => refl_of Memory.Evolves s.2

theorem keeps_look (f : HeadlessRobot → α) : Keeps CallEvolves (look f) :=
  fun s => refl_of Memory.Evolves s.2

theorem keeps_act (f : HeadlessRobot → HeadlessRobot) : Keeps CallEvolves (act f) :=
  fun s => refl_of Memory.Evolves s.2

theorem keeps_update {f : Memory → Except MemoryError Memory}
    (hf : ∀ {m m'}, f m = .ok m' → m.Evolves m') : Keeps CallEvolves (update f) := by
  rintro ⟨r, m⟩
  change m.Evolves (update f (r, m)).2.2
  unfold update
  dsimp only
  cases h : f m with
  | error e => exact refl_of Memory.Evolves m
  | ok m' => exact hf h

end Call

/-- A read over the low-speed bus resizes an array and overwrites its contents; a status check
stores to a slot. No other request touches memory. -/
theorem keeps_perform (base : Nat) (request : Syscall.Request) :
    Keeps CallEvolves (perform base request) := by
  cases request with
  | playFile file looping volume =>
      cases file with
      | none => exact Keeps.pure ()
      | some file => exact Call.keeps_act _
  | playTone => exact Call.keeps_act _
  | lowSpeedWrite => exact Call.keeps_act _
  | lowSpeedRead channel count =>
      refine Keeps.bind (Call.keeps_look _) fun ready => ?_
      refine Keeps.bind (Call.keeps_look _) fun reply => ?_
      refine Keeps.bind (Call.keeps_update Memory.evolves_setArrayLength) fun _ => ?_
      refine Keeps.bind (Call.keeps_update Memory.evolves_setArrayData) fun _ => ?_
      exact Keeps.bind (Call.keeps_ask _) fun bytes => Call.keeps_act _
  | lowSpeedCheckStatus =>
      exact Keeps.bind (Call.keeps_look _) fun ready =>
        Call.keeps_update Memory.evolves_setScalar
  | unsupported => exact Call.keeps_act _

theorem keeps_call (id : UInt16) (base : Nat) : Keeps CallEvolves (call id base) :=
  Keeps.bind (Call.keeps_ask _) fun request =>
    Keeps.bind (keeps_perform base request) fun _ => Call.keeps_update Memory.evolves_setScalar

end HeadlessRobot

theorem keptByPrograms_evolves : KeptByPrograms HeadlessRobot Memory.Evolves where
  setScalar := Memory.evolves_setScalar
  array := Memory.arrayKeeps_evolves
  syscall id base robot m := HeadlessRobot.keeps_call id base (robot, m)

/-! ### Steps -/

variable {R : Type} [Robot R] {r : Memory → Memory → Prop} [IsPreorder Memory r]

open Exec in
theorem keeps_execute (h : KeptByPrograms R r) (pc : Nat) (op : Operation) :
    Keeps (OnMemory r) (execute pc op : Exec R Unit) := by
  cases op with
  | binary op dst lhs rhs =>
      exact Keeps.bind (keeps_scalar lhs) fun _ =>
        Keeps.bind (keeps_scalar rhs) fun _ => keeps_setScalar h dst _
  | unary op dst src => exact Keeps.bind (keeps_scalar src) fun _ => keeps_setScalar h dst _
  | compare flags dst lhs rhs =>
      exact Keeps.bind (keeps_comparison pc flags) fun _ =>
        Keeps.bind (keeps_scalar lhs) fun _ =>
          Keeps.bind (keeps_scalar rhs) fun _ => keeps_setScalar h dst _
  | test flags dst src =>
      exact Keeps.bind (keeps_comparison pc flags) fun _ =>
        Keeps.bind (keeps_scalar src) fun _ => keeps_setScalar h dst _
  | index dst array position =>
      exact Keeps.bind (keeps_index position) fun _ =>
        Keeps.bind (keeps_ask _) fun _ => keeps_setScalar h dst _
  | replace dst src position new =>
      exact keeps_replace (h.array _) src position new
  | arraySize dst array => exact Keeps.bind (keeps_ask _) fun _ => keeps_setScalar h dst _
  | arrayBuild dst sources => exact keeps_arrayBuild (h.array _) sources
  | arraySubset dst src position length =>
      exact keeps_arraySubset (h.array _) src position length
  | arrayInit dst value count =>
      exact keeps_arrayInit (h.array _) value count
  | move dst src => exact keeps_move h pc dst src
  | set dst literal => exact keeps_setScalar h dst _
  | unsupported op => exact keeps_act fun m => memory_note m _
  | jump offset => exact keeps_branch pc offset
  | branchCompare flags offset lhs rhs =>
      refine Keeps.bind (keeps_comparison pc flags) fun c => ?_
      refine Keeps.bind (keeps_scalar lhs) fun a => Keeps.bind (keeps_scalar rhs) fun b => ?_
      split
      · exact keeps_branch pc offset
      · exact Keeps.pure ()
  | branchTest flags offset src =>
      refine Keeps.bind (keeps_comparison pc flags) fun c => ?_
      refine Keeps.bind (keeps_scalar src) fun a => ?_
      split
      · exact keeps_branch pc offset
      · exact Keeps.pure ()
  | stop => exact Keeps.throw _
  | idle => exact Keeps.pure ()
  | call clump slot => exact keeps_call h pc clump slot
  | ret slot => exact keeps_ret pc slot
  | syscall id cluster => exact keeps_syscall h id cluster
  | setInput src channel property =>
      exact Keeps.bind (keeps_scalar src) fun _ =>
        Keeps.bind (keeps_scalar channel) fun _ => keeps_act fun _ => rfl
  | setOutput channel settings =>
      exact Keeps.bind (keeps_ask _) fun channels => keeps_setChannels settings channels
  | getInput dst channel property =>
      exact Keeps.bind (keeps_scalar channel) fun _ =>
        Keeps.bind (keeps_consult _) fun _ => keeps_setScalar h dst _
  | getOutput dst channel property =>
      exact Keeps.bind (keeps_scalar channel) fun _ =>
        Keeps.bind (keeps_consult _) fun _ => keeps_setScalar h dst _
  | wait duration => exact keeps_wait duration
  | getTick dst => exact Keeps.bind (keeps_look _) fun _ => keeps_setScalar h dst _

namespace Machine

theorem keeps_executeInstruction (h : KeptByPrograms R r) (pc : Nat) (i : Instruction) :
    Keeps (OnMemory r) (executeInstruction pc i : Exec R Unit) := by
  unfold executeInstruction
  split
  · exact keeps_execute h pc _
  · exact Keeps.throw _

theorem memory_conclude {R : Type} (result : Except Error Unit) (m : Machine R) :
    (conclude result m).2.memory = m.memory := by
  unfold conclude
  cases result with
  | ok => rfl
  | error e => dsimp only; split <;> rfl

theorem memory_step (h : KeptByPrograms R r) (m : Machine R) : r m.memory m.step.2.memory := by
  rcases m.step_cases with ⟨o, _, hstep⟩ | ⟨_, ⟨cause, _, hstep⟩ | ⟨i, _, hstep⟩⟩
  · rw [hstep]
    exact refl_of r m.memory
  · rw [hstep]
    exact refl_of r m.memory
  · rw [hstep, memory_conclude]
    -- the program counter moves first, which is no change of memory
    exact keeps_executeInstruction h m.control.pc i (m.behind i)

theorem evolves_step (m : Machine HeadlessRobot) : MemoryEvolves m m.step.2 :=
  memory_step keptByPrograms_evolves m

end Machine

end BrickMachine
