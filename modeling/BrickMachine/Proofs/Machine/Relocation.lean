import BrickMachine.Image.Program
import BrickMachine.Proofs.Code.Locality
import BrickMachine.Proofs.Machine.Halting
import Mathlib.Data.List.Basic

/-!
# Code in another place

An image is *relocated* if its code stands behind other words and all its clumps start as many words
later. A relocated machine has the relocated image, and every place it remembers lies as many words
later: the program counter, the return addresses, the places of its diagnostics.

A machine and the relocated machine go on in the same way, because an instruction decodes to the
same operation at both places, and nothing but its own place enters an operation: branches count
from it, calls go where the clump starts. The only exception is a branch to before the code, which
is an error on the original machine and may be none behind other words.

`Follows` relates a part of an instruction to the same part in the other place.
-/

namespace BrickMachine

variable {R α β : Type}

/-! ### Relocated things -/

def Clump.shifted (k : Nat) (c : Clump) : Clump :=
  { c with codeStart := UInt16.ofNat (c.codeStart.toNat + k) }

def Image.relocated (before : Array UInt16) (image : Image) : Image :=
  { image with
    code := before ++ image.code
    clumps := image.clumps.map (·.shifted before.size) }

/-- No clump starts too late for a word, if all start `k` words later. -/
def Image.HasRoom (k : Nat) (image : Image) : Prop :=
  ∀ c ∈ image.clumps, c.codeStart.toNat + k < 65536

instance decidableHasRoom (k : Nat) (image : Image) : Decidable (image.HasRoom k) :=
  inferInstanceAs (Decidable (∀ c ∈ image.clumps, c.codeStart.toNat + k < 65536))

theorem Image.HasRoom.shifted {k i : Nat} {image : Image} {c : Clump} (h : image.HasRoom k)
    (hc : image.clumps[i]? = some c) : (c.shifted k).codeStart.toNat = c.codeStart.toNat + k :=
  UInt16.toNat_ofNat_of_lt' (h c (Array.mem_of_getElem? hc))

theorem Image.clumps_relocated (before : Array UInt16) (image : Image) (i : Nat) :
    (image.relocated before).clumps[i]? = image.clumps[i]?.map (·.shifted before.size) :=
  Array.getElem?_map

def Control.shifted (k : Nat) (c : Control) : Control :=
  { c with pc := c.pc + k, callStack := c.callStack.map (· + k) }

def Diagnostic.shifted (k : Nat) (d : Diagnostic) : Diagnostic :=
  { d with pc := d.pc + k }

namespace Machine

def Error.shifted (k : Nat) : Error → Error
  | stopped pc => stopped (pc + k)
  | undecodable pc cause => undecodable (pc + k) cause
  | unknownComparison pc flags => unknownComparison (pc + k) flags
  | branchTarget pc target => branchTarget (pc + k) (target + k)
  | unknownClump pc clump => unknownClump (pc + k) clump
  | returnWithoutCall pc => returnWithoutCall (pc + k)
  | memory e => memory e

def relocated (before : Array UInt16) (m : Machine R) : Machine R :=
  { m with
    image := m.image.relocated before
    control := m.control.shifted before.size
    diagnostics := m.diagnostics.map (·.shifted before.size)
    seen := m.seen.map (·.shifted before.size) }

def Error.isBranchTarget : Error → Bool
  | branchTarget .. => true
  | _ => false

def isStrayResult : Except Error α → Bool
  | .ok _ => false
  | .error e => e.isBranchTarget

variable {before : Array UInt16}

theorem shifted_injective (k : Nat) : Function.Injective (Diagnostic.shifted k) := by
  intro d d' h
  obtain ⟨hpc, hnotice⟩ := Diagnostic.mk.inj h
  cases d
  cases d'
  exact congrArg₂ Diagnostic.mk (Nat.add_right_cancel hpc) hnotice

theorem relocated_note (m : Machine R) (d : Diagnostic) :
    (m.relocated before).note (d.shifted before.size) = (m.note d).relocated before := by
  have hseen : d.shifted before.size ∈ (m.relocated before).seen ↔ d ∈ m.seen :=
    List.mem_map_of_injective (shifted_injective before.size)
  unfold note
  by_cases hd : d ∈ m.seen
  · rw [if_pos hd, if_pos (hseen.2 hd)]
  · rw [if_neg hd, if_neg (hseen.not.2 hd)]
    simp [relocated]

end Machine

namespace Exec

open Machine

/-- On a relocated machine `y` does what `x` does on the original, but for a branch to before the
code. -/
structure Follows (before : Array UInt16) (x y : Exec R α) : Prop where
  image : ∀ m : Machine R, m.image.HasRoom before.size → (x.run m).2.image = m.image
  runs : ∀ m : Machine R, m.image.HasRoom before.size → isStrayResult (x.run m).1 = false →
    y.run (m.relocated before)
      = ((x.run m).1.mapError (.shifted before.size), (x.run m).2.relocated before)

variable {before : Array UInt16}

namespace Follows

theorem pure (a : α) : Follows before (Pure.pure a : Exec R α) (Pure.pure a) where
  image _ _ := rfl
  runs _ _ _ := rfl

theorem throw (e : Machine.Error) :
    Follows before (MonadExcept.throw e : Exec R α)
      (MonadExcept.throw (e.shifted before.size)) where
  image _ _ := rfl
  runs _ _ _ := rfl

theorem of_local {x : Exec R α} (hx : Local x) : Follows before x x := by
  obtain ⟨c, rfl⟩ := hx
  constructor
  · intro m _
    rfl
  · intro m _ _
    rw [run_lift, run_lift]
    change ((c.run (m.robot, m.memory)).1.mapError _, _) = _
    cases (c.run (m.robot, m.memory)).1 with
    | error e => rfl
    | ok a => rfl

theorem act {f g : Machine R → Machine R} (himage : ∀ m, (f m).image = m.image)
    (h : ∀ m, g (m.relocated before) = (f m).relocated before) :
    Follows before (Exec.act f) (Exec.act g) where
  image m _ := himage m
  runs m _ _ := by
    change ((.ok (), g (m.relocated before)) : Except Machine.Error Unit × Machine R) = _
    rw [h m]
    rfl

theorem bind {x y : Exec R α} {f g : α → Exec R β} (hx : Follows before x y)
    (hf : ∀ a, Follows before (f a) (g a)) : Follows before (x >>= f) (y >>= g) where
  image m hm := by
    have hfirst := hx.image m hm
    rw [Keeps.run_bind]
    rcases hrun : x.run m with ⟨_ | a, m'⟩ <;> rw [hrun] at hfirst
    · exact hfirst
    · exact ((hf a).image m' (hfirst ▸ hm)).trans hfirst
  runs m hm hstray := by
    have hfirst := hx.image m hm
    have hruns := hx.runs m hm
    rw [Keeps.run_bind] at hstray ⊢
    rcases hrun : x.run m with ⟨e | a, m'⟩ <;> rw [hrun] at hfirst hruns hstray
    · rw [Keeps.run_bind, hruns hstray, hrun]
      rfl
    · rw [Keeps.run_bind, hruns rfl, hrun]
      exact (hf a).runs m' (hfirst ▸ hm) hstray

/-- A question about the machine may have another answer in the other place. -/
theorem look_bind {q : Machine R → α} {f g : α → Exec R β}
    (h : ∀ m : Machine R, m.image.HasRoom before.size →
      Follows before (f (q m)) (g (q (m.relocated before)))) :
    Follows before (look q >>= f) (look q >>= g) where
  image m hm := (h m hm).image m hm
  runs m hm hstray := (h m hm).runs m hm hstray

end Follows

/-! ### The parts of an instruction -/

theorem follows_comparison (pc : Nat) (flags : UInt8) :
    Follows before (comparison pc flags : Exec R Comparison)
      (comparison (pc + before.size) flags) := by
  unfold comparison
  split
  · exact Follows.pure _
  · exact Follows.throw _

theorem follows_note (pc : Nat) (notice : Notice) :
    Follows before (Exec.act (·.note ⟨pc, notice⟩) : Exec R Unit)
      (Exec.act (·.note ⟨pc + before.size, notice⟩)) :=
  Follows.act (fun m => (congrArg Prod.fst (framed_note m _)).symm) fun m =>
    relocated_note m ⟨pc, notice⟩

theorem follows_branch (pc : Nat) (offset : Int) :
    Follows before (branch pc offset : Exec R Unit) (branch (pc + before.size) offset) := by
  by_cases hstray : (pc : Int) + offset < 0
  · have hbranch : (branch pc offset : Exec R Unit) = throw (.branchTarget pc (pc + offset)) :=
      if_pos hstray
    rw [hbranch]
    exact ⟨fun _ _ => rfl, fun _ _ hstray => Bool.noConfusion hstray⟩
  · have hlater : ¬ ((pc + before.size : Nat) : Int) + offset < 0 := by omega
    have htarget : (((pc + before.size : Nat) : Int) + offset).toNat
        = ((pc : Int) + offset).toNat + before.size := by omega
    unfold branch
    simp only [if_neg hstray, if_neg hlater, htarget]
    exact Follows.act (fun _ => rfl) fun _ => rfl

theorem follows_move (pc : Nat) (dst src : UInt16) :
    Follows before (move pc dst src : Exec R Unit) (move (pc + before.size) dst src) := by
  refine (Follows.of_local (local_ask _)).bind fun dstType => ?_
  refine (Follows.of_local (local_ask _)).bind fun srcType => ?_
  split
  · exact Follows.of_local (local_change _)
  · split
    · exact Follows.of_local ((local_scalar src).bind fun v => local_setScalar dst v)
    · exact follows_note pc _

theorem follows_call (pc : Nat) (clump slot : UInt16) :
    Follows before (call pc clump slot : Exec R Unit) (call (pc + before.size) clump slot) := by
  refine Follows.look_bind fun m hm => ?_
  dsimp only
  rw [show (m.relocated before).image = m.image.relocated before from rfl, Image.clumps_relocated]
  cases htarget : m.image.clumps[clump.toNat]? with
  | none => exact Follows.throw _
  | some c =>
      have hstart : (c.shifted before.size).codeStart.toNat = c.codeStart.toNat + before.size :=
        hm.shifted htarget
      refine Follows.look_bind fun m' _ => ?_
      refine Follows.bind (Follows.of_local (local_setScalar slot _)) fun _ => ?_
      rw [hstart]
      exact Follows.act (fun _ => rfl) fun _ => rfl

theorem follows_ret (pc : Nat) (slot : UInt16) :
    Follows before (ret pc slot : Exec R Unit) (ret (pc + before.size) slot) := by
  refine Follows.look_bind fun m _ => ?_
  have hstack : (m.relocated before).control.callStack
      = m.control.callStack.map (· + before.size) := rfl
  rw [hstack]
  cases m.control.callStack with
  | nil => exact Follows.throw _
  | cons address rest =>
      refine Follows.bind ?_ fun _ => ?_
      · exact Follows.act (fun _ => rfl) fun _ => rfl
      · refine Follows.bind (Follows.of_local (local_scalar slot)) fun v => ?_
        exact Follows.act (fun _ => rfl) fun _ => rfl

theorem follows_wait (duration : UInt16) :
    Follows before (wait duration : Exec R Unit) (wait duration) := by
  apply (Follows.of_local (local_scalar duration)).bind
  intro v
  exact Follows.act (fun _ => rfl) fun _ => rfl

end Exec

/-! ### Operations -/

open Exec in
theorem follows_execute [Robot R] {before : Array UInt16} (pc : Nat) (op : Operation) :
    Follows before (execute pc op : Exec R Unit) (execute (pc + before.size) op) := by
  have hlocal (h : op.isLocal = true) :
      Follows before (execute pc op : Exec R Unit) (execute (pc + before.size) op) := by
    obtain ⟨c, hc⟩ := local_execute (R := R) h
    rw [hc, hc]
    exact Follows.of_local ⟨c, rfl⟩
  cases op with
  | compare flags dst lhs rhs =>
      refine (follows_comparison pc flags).bind fun c => Follows.of_local ?_
      exact (local_scalar lhs).bind fun _ => (local_scalar rhs).bind fun _ => local_setScalar dst _
  | test flags dst src =>
      refine (follows_comparison pc flags).bind fun c => Follows.of_local ?_
      exact (local_scalar src).bind fun _ => local_setScalar dst _
  | move dst src => exact follows_move pc dst src
  | unsupported op => exact follows_note pc _
  | jump offset => exact follows_branch pc offset
  | branchCompare flags offset lhs rhs =>
      refine (follows_comparison pc flags).bind fun c => ?_
      refine (Follows.of_local (local_scalar lhs)).bind fun a => ?_
      refine (Follows.of_local (local_scalar rhs)).bind fun b => ?_
      split
      · exact follows_branch pc offset
      · exact Follows.pure ()
  | branchTest flags offset src =>
      refine (follows_comparison pc flags).bind fun c => ?_
      refine (Follows.of_local (local_scalar src)).bind fun a => ?_
      split
      · exact follows_branch pc offset
      · exact Follows.pure ()
  | stop => exact Follows.throw (.stopped pc)
  | call clump slot => exact follows_call pc clump slot
  | ret slot => exact follows_ret pc slot
  | wait duration => exact follows_wait duration
  | getTick dst =>
      refine Follows.look_bind fun m _ => ?_
      exact Follows.of_local (local_setScalar dst _)
  | _ => exact hlocal rfl

namespace Machine

variable [Robot R] {before : Array UInt16} {m : Machine R}

theorem follows_executeInstruction (pc : Nat) (i : Instruction) :
    Exec.Follows before (executeInstruction pc i : Exec R Unit)
      (executeInstruction (pc + before.size) i) := by
  unfold executeInstruction
  cases i.operation? with
  | none => exact Exec.Follows.throw (.undecodable pc _)
  | some op => exact follows_execute pc op

/-! ### Steps -/

theorem isFinished_relocated {R : Type} (m : Machine R) :
    (m.relocated before).isFinished = m.isFinished := by
  have hplace : (before ++ m.image.code).size ≤ m.control.pc + before.size ↔
      m.image.code.size ≤ m.control.pc := by
    rw [Array.size_append]
    omega
  exact decide_eq_decide.2 hplace

theorem conclude_relocated {R : Type} (result : Except Error Unit) (m : Machine R) :
    conclude (result.mapError (.shifted before.size)) (m.relocated before)
      = ((conclude result m).1.mapError (.shifted before.size),
        (conclude result m).2.relocated before) := by
  cases result with
  | ok => rfl
  | error e => cases e <;> rfl

theorem isStrayResult_conclude {R : Type} (result : Except Error Unit) (m : Machine R) :
    isStrayResult (conclude result m).1 = isStrayResult result := by
  cases result <;> rfl

theorem decode_relocated {R : Type} (m : Machine R) :
    Instruction.decode (m.relocated before).image.code (m.relocated before).control.pc
      = Instruction.decode m.image.code m.control.pc :=
  Instruction.decode_behind before m.image.code m.control.pc

theorem behind_relocated {R : Type} (m : Machine R) (i : Instruction) :
    (m.relocated before).behind i = (m.behind i).relocated before := by
  have hplace : m.control.pc + before.size + i.length = m.control.pc + i.length + before.size :=
    Nat.add_right_comm ..
  simp only [behind, relocated, Control.shifted, hplace]

theorem idle?_relocated {R : Type} (m : Machine R) : (m.relocated before).idle? = m.idle? := by
  have hwaiting : (m.relocated before).isWaiting = m.isWaiting := rfl
  rw [idle?, idle?, isFinished_relocated, hwaiting]
  rfl

theorem attempt_relocated (hm : m.image.HasRoom before.size)
    (hstray : isStrayResult m.attempt.1 = false) :
    (m.relocated before).attempt
      = (m.attempt.1.mapError (.shifted before.size), m.attempt.2.relocated before) := by
  unfold attempt at hstray ⊢
  rw [decode_relocated]
  cases hdecode : Instruction.decode m.image.code m.control.pc with
  | error cause => rfl
  | ok i =>
      rw [hdecode] at hstray
      dsimp only at hstray ⊢
      rw [isStrayResult_conclude] at hstray
      have hruns := (follows_executeInstruction m.control.pc i).runs (m.behind i) hm hstray
      have hpc : (m.relocated before).control.pc = m.control.pc + before.size := rfl
      rw [behind_relocated, hpc, hruns]
      exact conclude_relocated _ _

/-- A relocated machine makes the same step. -/
theorem step_relocated (hm : m.image.HasRoom before.size)
    (hstray : isStrayResult m.step.1 = false) :
    (m.relocated before).step
      = (m.step.1.mapError (.shifted before.size), m.step.2.relocated before) := by
  rw [step_eq] at hstray ⊢
  rw [step_eq, idle?_relocated]
  cases hidle : m.idle? with
  | some o => rfl
  | none =>
      rw [hidle] at hstray
      exact attempt_relocated hm hstray

/-! ### Runs -/

theorem withoutDiagnostics_relocated {R : Type} (m : Machine R) :
    (m.relocated before).withoutDiagnostics = m.withoutDiagnostics.relocated before := by
  simp [withoutDiagnostics, relocated]

theorem run_relocated (hm : m.image.HasRoom before.size) (actions : List (Interaction R))
    (hstray : ∀ r ∈ m.results actions, isStrayResult r = false) :
    (m.relocated before).results actions
        = (m.results actions).map (·.mapError (.shifted before.size)) ∧
      (m.relocated before).after actions = (m.after actions).relocated before := by
  induction actions generalizing m with
  | nil => exact ⟨rfl, rfl⟩
  | cons a actions ih =>
      have himage : (a.apply m).image.HasRoom before.size := by
        rw [image_apply]
        exact hm
      cases a with
      | step =>
          obtain ⟨hfirst, hrest⟩ := List.forall_mem_cons.1 hstray
          have hstep := step_relocated hm hfirst
          obtain ⟨hresults, hafter⟩ := ih himage hrest
          change (m.relocated before).step.1 :: (m.relocated before).step.2.results actions
              = m.step.1.mapError (.shifted before.size)
                :: (m.step.2.results actions).map (·.mapError (.shifted before.size))
            ∧ (m.relocated before).step.2.after actions = _
          rw [hstep]
          exact ⟨congrArg _ hresults, hafter⟩
      | changeClock | changeMemory | changeRobot => exact ih himage hstray
      | takeDiagnostics =>
          change (m.relocated before).withoutDiagnostics.results actions = _ ∧
            (m.relocated before).withoutDiagnostics.after actions = _
          rw [withoutDiagnostics_relocated]
          exact ih himage hstray

theorem startControl_relocated {image : Image} (hclumps : 0 < image.clumps.size)
    (hroom : image.HasRoom before.size) :
    startControl (image.relocated before) = (startControl image).shifted before.size := by
  have hfirst : image.clumps[0]? = some image.clumps[0] := Array.getElem?_eq_getElem hclumps
  unfold startControl
  rw [Image.clumps_relocated, hfirst]
  exact congrArg (Control.mk · 0 [] 0) (hroom.shifted hfirst)

theorem start_relocated {R : Type} {image : Image} (hclumps : 0 < image.clumps.size)
    (hroom : image.HasRoom before.size) (robot : R) (clock : Clock) :
    start (image.relocated before) robot clock
      = (start image robot clock).map (·.relocated before) := by
  have hload : Memory.load (image.relocated before) = Memory.load image := rfl
  unfold start
  rw [hload, startControl_relocated hclumps hroom]
  cases Memory.load image with
  | error e => rfl
  | ok memory => simp [bind, Except.bind, Except.map, relocated]

/-- A program does in another place what it does in its own. If all its clumps can start as much
later, the relocated image starts exactly if the image does, and from then on the two machines give
the same results, up to the places in errors, and stay at the same point of the program, as long as
the original machine does not branch to before the code. -/
theorem lockstep_of_relocated {image : Image} (hclumps : 0 < image.clumps.size)
    (hroom : image.HasRoom before.size) (robot : R) (clock : Clock) :
    start (image.relocated before) robot clock
        = (start image robot clock).map (·.relocated before) ∧
      ∀ m, start image robot clock = .ok m → ∀ actions : List (Interaction R),
        (∀ r ∈ m.results actions, isStrayResult r = false) →
        (m.relocated before).results actions
            = (m.results actions).map (·.mapError (.shifted before.size)) ∧
          (m.relocated before).after actions = (m.after actions).relocated before := by
  refine ⟨start_relocated hclumps hroom robot clock, ?_⟩
  intro m hstart actions hstray
  obtain ⟨memory, _, hm⟩ := bind_eq_ok_iff.1 hstart
  cases hm
  exact run_relocated hroom actions hstray

/-- A program that jumps over a word to a call, and whose subroutine leaves a diagnostic before it
returns behind the call, to a return without a call. -/
def callAndReturn : Image :=
  ((({ dataspace := ({} : Dataspace).scalar .uword 0 } : Program)
    |>.addClump (assemble [.jmp 3, .raw [0], .subCall 1 0, .subRet 0]) [] 0)
    |>.addClump (assemble [.long .flatten 0 [0, 0], .subRet 0]) [] 0).toImage

def startOfCallAndReturn : Machine HeadlessRobot where
  image := callAndReturn
  memory := ⟨callAndReturn.toc, #[0, 0], #[⟨⟨2, 10, 1, 0, 0xFFFF⟩, #[]⟩], [0]⟩
  control := {}
  halted := false
  robot := .ofSensors []
  clock := .driven 0
  diagnostics := #[]
  seen := []

theorem callAndReturn_lockstep :
    start (callAndReturn.relocated #[7, 7]) (.ofSensors []) (.driven 0)
        = .ok (startOfCallAndReturn.relocated #[7, 7]) ∧
      (startOfCallAndReturn.relocated #[7, 7]).results [.step, .step, .step, .step, .step]
        = [.ok .executed, .ok .executed, .ok .executed, .ok .executed,
          .error (.returnWithoutCall 8)] ∧
      ((startOfCallAndReturn.relocated #[7, 7]).after [.step, .step, .step, .step]).control.pc = 8 ∧
      ((startOfCallAndReturn.relocated #[7, 7]).after [.step, .step, .step, .step]).seen
        = [⟨10, .unsupportedOpcode .flatten⟩] := by
  have hstart : start callAndReturn (.ofSensors []) (.driven 0) = .ok startOfCallAndReturn := rfl
  have hclumps : 0 < callAndReturn.clumps.size := by decide
  have hroom : callAndReturn.HasRoom (#[7, 7] : Array UInt16).size := by decide
  obtain ⟨hother, hrun⟩ :=
    lockstep_of_relocated hclumps hroom (HeadlessRobot.ofSensors []) (.driven 0)
  rw [hstart] at hother
  refine ⟨hother, ?_, ?_⟩
  · rw [(hrun _ hstart [.step, .step, .step, .step, .step] (by decide)).1]
    rfl
  · rw [(hrun _ hstart [.step, .step, .step, .step] (by decide)).2]
    exact ⟨rfl, rfl⟩

end Machine

end BrickMachine
