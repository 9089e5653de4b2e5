import BrickMachine.Image.Program
import BrickMachine.Proofs.Bounds.Execute
import BrickMachine.Proofs.Code.Locality
import BrickMachine.Proofs.Code.Operands
import BrickMachine.Proofs.Machine.Halting

/-!
# Steps within their bounds

A step decodes an instruction and carries it out. To decode, words are taken from code by their
places, which are compared with the size of the code before; and what decodes has the operands that
its opcode needs. So no step breaches any bounds, whatever image the program comes from and whatever
the host does with the memory in between. All that is asked of the code is that it fits in the
memory of the machine that it runs on.
-/

namespace BrickMachine

namespace Guarded

open GuardedExcept

variable {code : Array UInt16} {pc : Nat}

def decodeShort (code : Array UInt16) (pc : Nat) (w : UInt16) :
    GuardedExcept DecodeError Instruction :=
  match Opcode.ofShortCode? (FirstWord.shortCode w) with
  | none => throw (.unknownOpcode (FirstWord.shortCode w) true)
  | some op =>
    let diff := FirstWord.difference w
    if Instruction.isOneWord op then do
      let operands ← guard (slice [diff, 0] 0 1)
      pure { opcode := op, flags := 0, length := 1, operands, short := true }
    else do
      let place ← guard (add pc 1)
      match code[place]? with
      | none => throw (.malformed .shortCut)
      | some next => do
        let operands ← guard (slice [next + diff, next] 0 2)
        pure { opcode := op, flags := 0, length := 2, operands, short := true }

def sizeAt (code : Array UInt16) (pc : Nat) (w : UInt16) : GuardedExcept DecodeError Nat :=
  if FirstWord.sizeField w = FirstWord.sizeFollows then do
    let place ← guard (add pc 1)
    match code[place]? with
    | none => throw (.malformed .sizeCut)
    | some size => pure size.toNat
  else
    pure (FirstWord.sizeField w)

def decodeLong (code : Array UInt16) (pc : Nat) (w : UInt16) :
    GuardedExcept DecodeError Instruction := do
  let size ← sizeAt code pc w
  let length := size / 2
  if length = 0 then
    throw (.malformed .emptyInstruction)
  else do
    let stop ← guard (add pc length)
    if code.size < stop then
      throw (.malformed .cut)
    else
      match Opcode.ofByte? (FirstWord.opcodeByte w) with
      | none => throw (.unknownOpcode (FirstWord.opcodeByte w) false)
      | some op => do
        let count ← guard (sub length 1)
        if count < op.minOperands then
          throw (.malformed .tooFewOperands)
        else do
          let start ← guard (add pc 1)
          let operands ← guard (slice code.toList start stop)
          pure { opcode := op, flags := FirstWord.flags w, length, operands, short := false }

def decode (code : Array UInt16) (pc : Nat) : GuardedExcept DecodeError Instruction :=
  match code[pc]? with
  | none => throw (.malformed .outsideCode)
  | some w => if FirstWord.isShort w then decodeShort code pc w else decodeLong code pc w

theorem decodeShort_agrees (hpc : pc ≤ GuardedExec.lastPlace) (w : UInt16) :
    (decodeShort code pc w).Agrees (Instruction.decodeShort code pc w) := by
  have hroom := GuardedExec.add_lt_of_le_lastPlace hpc
  unfold decodeShort Instruction.decodeShort
  cases Opcode.ofShortCode? (FirstWord.shortCode w) with
  | none => exact Agrees.throw _
  | some op =>
      dsimp only
      split
      · exact Agrees.guard_bind rfl (Agrees.pure _)
      · apply Agrees.guard_bind (add_eq (by omega))
        cases code[pc + 1]? with
        | none => exact Agrees.throw _
        | some next => exact Agrees.guard_bind rfl (Agrees.pure _)

/-- The size of an instruction is a word. -/
theorem sizeAt?_lt {w : UInt16} {size : Nat} (h : Instruction.sizeAt? code pc w = some size) :
    size < 65536 := by
  unfold Instruction.sizeAt? at h
  split at h
  · obtain ⟨word, _, rfl⟩ := Option.map_eq_some_iff.1 h
    exact word.toNat_lt
  · cases h
    have hword := w.toNat_lt
    unfold FirstWord.sizeField
    omega

theorem sizeAt_agrees (hpc : pc ≤ GuardedExec.lastPlace) (w : UInt16) :
    (sizeAt code pc w).Agrees
      ((Instruction.sizeAt? code pc w).elim (.error (.malformed .sizeCut)) .ok) := by
  have hroom := GuardedExec.add_lt_of_le_lastPlace hpc
  unfold sizeAt Instruction.sizeAt?
  split
  · apply Agrees.guard_bind (add_eq (by omega))
    cases code[pc + 1]? with
    | none => exact Agrees.throw _
    | some size => exact Agrees.pure _
  · exact Agrees.pure _

theorem decodeLong_agrees (hpc : pc ≤ GuardedExec.lastPlace) (w : UInt16) :
    (decodeLong code pc w).Agrees (Instruction.decodeLong code pc w) := by
  have hroom := GuardedExec.add_lt_of_le_lastPlace hpc
  have hagrees : (sizeAt code pc w).Agrees _ := sizeAt_agrees hpc w
  unfold decodeLong Instruction.decodeLong
  cases hsize : Instruction.sizeAt? code pc w with
  | none =>
      rw [hsize] at hagrees
      exact Agrees.error_bind hagrees
  | some size =>
      rw [hsize] at hagrees
      have hword : size < 65536 := sizeAt?_lt hsize
      apply Agrees.ok_bind hagrees
      dsimp only
      split
      · exact Agrees.throw _
      case isFalse hlength =>
        apply Agrees.guard_bind (add_eq (by omega))
        split
        · exact Agrees.throw _
        case isFalse hcut =>
          cases Opcode.ofByte? (FirstWord.opcodeByte w) with
          | none => exact Agrees.throw _
          | some op =>
              dsimp only
              apply Agrees.guard_bind (sub_eq (by omega))
              split
              · exact Agrees.throw _
              · apply Agrees.guard_bind (add_eq (by omega))
                have hstop : pc + size / 2 ≤ code.toList.length := by
                  rw [Array.length_toList]
                  omega
                apply Agrees.guard_bind (slice_eq (by omega) hstop)
                rw [← List.extract_eq_take_drop, ← Array.toList_extract]
                exact Agrees.pure _

theorem decode_agrees (hpc : pc ≤ GuardedExec.lastPlace) :
    (decode code pc).Agrees (Instruction.decode code pc) := by
  unfold decode Instruction.decode
  cases code[pc]? with
  | none => exact Agrees.throw _
  | some w =>
      dsimp only
      split
      · exact decodeShort_agrees hpc w
      · exact decodeLong_agrees hpc w

end Guarded

/-- The code, two bytes a word, has a place in the memory of a machine, where a size is a signed
word. -/
def Image.Addressable (image : Image) : Prop := 2 * image.code.size < 2 ^ 63

instance (image : Image) : Decidable image.Addressable := Nat.decLt _ _

/-- Code that fits in memory ends where branches stay within the signed words. -/
theorem Image.Addressable.size_le_lastPlace {image : Image} (h : image.Addressable) :
    image.code.size ≤ GuardedExec.lastPlace := by
  have hlast : GuardedExec.lastPlace = 2 ^ 62 := rfl
  unfold Image.Addressable at h
  omega

namespace Machine

variable {m : Machine HeadlessRobot}

/-! ### One step -/

def guardedAttempt (m : Machine HeadlessRobot) :
    Guarded (Except Error StepOutcome × Machine HeadlessRobot) := do
  let pc := m.control.pc
  match ← (Guarded.decode m.image.code pc).run with
  | .error cause => pure (conclude (.error (.undecodable pc cause)) m)
  | .ok i => do
    let next ← Guarded.add pc i.length
    let (result, m') ← (GuardedExec.executeInstruction pc i).run
      { m with control := { m.control with pc := next } }
    pure (conclude result m')

def guardedStep (m : Machine HeadlessRobot) :
    Guarded (Except Error StepOutcome × Machine HeadlessRobot) :=
  if m.halted then .ok (.ok .halted, m)
  else if m.isFinished then .ok (.ok .finished, m)
  else if m.isWaiting then .ok (.ok (.waiting m.control.resumeAt), m)
  else m.guardedAttempt

theorem guardedAttempt_eq (hfits : m.image.Addressable) (hpc : m.control.pc < m.image.code.size) :
    m.guardedAttempt = .ok m.attempt := by
  have hplace : m.control.pc ≤ GuardedExec.lastPlace :=
    Nat.le_of_lt (Nat.lt_of_lt_of_le hpc hfits.size_le_lastPlace)
  have hdecode : (Guarded.decode m.image.code m.control.pc).run
      = .ok (Instruction.decode m.image.code m.control.pc) := Guarded.decode_agrees hplace
  unfold guardedAttempt attempt
  dsimp only
  rw [Guarded.bind_eq hdecode]
  cases hi : Instruction.decode m.image.code m.control.pc with
  | error cause => rfl
  | ok i =>
      have hnext : m.control.pc + i.length ≤ GuardedExec.lastPlace :=
        Nat.le_trans (Instruction.extent_of_decode hi) hfits.size_le_lastPlace
      have hroom := GuardedExec.add_lt_of_le_lastPlace hnext
      have hexecute : (GuardedExec.executeInstruction m.control.pc i).run (m.behind i)
          = .ok ((executeInstruction m.control.pc i).run (m.behind i)) :=
        GuardedExec.executeInstruction_agrees (Instruction.minOperands_le_of_decode hi) hplace _
      dsimp only
      rw [Guarded.bind_eq (Guarded.add_eq (by omega))]
      exact Guarded.bind_eq hexecute _

/-- No step breaches bounds. -/
theorem guardedStep_eq (hfits : m.image.Addressable) : m.guardedStep = .ok m.step := by
  rw [step_eq]
  unfold guardedStep idle?
  split
  · rfl
  split
  · rfl
  case isFalse hfinished =>
    split
    · rfl
    · refine guardedAttempt_eq hfits (Nat.lt_of_not_le fun hend => hfinished ?_)
      exact decide_eq_true hend

/-! ### Runs -/

def guardedRun (m : Machine HeadlessRobot) : List (Interaction HeadlessRobot) →
    Guarded (List (Except Error StepOutcome) × Machine HeadlessRobot)
  | [] => .ok ([], m)
  | .step :: actions => do
    let (result, m') ← m.guardedStep
    let (results, last) ← m'.guardedRun actions
    pure (result :: results, last)
  | a :: actions => (a.apply m).guardedRun actions

theorem guardedRun_eq (hfits : m.image.Addressable) (actions : List (Interaction HeadlessRobot)) :
    m.guardedRun actions = .ok (m.results actions, m.after actions) := by
  induction actions generalizing m with
  | nil => rfl
  | cons a actions ih =>
      have hrest : (a.apply m).guardedRun actions
          = .ok ((a.apply m).results actions, (a.apply m).after actions) := by
        apply ih
        rwa [image_apply]
      cases a with
      | step =>
          unfold guardedRun
          rw [Guarded.bind_eq (guardedStep_eq hfits)]
          exact Guarded.bind_eq hrest _
      | changeClock | changeMemory | changeRobot | takeDiagnostics => exact hrest

/-- Whatever the image holds and whatever a host does with the clock, the memory and the robot, no
step breaches bounds. Every instruction that decodes has the operands that its opcode needs, and
with so many operands no instruction breaches bounds in any state. -/
theorem run_within_bounds {image : Image} {robot : HeadlessRobot} {clock : Clock}
    (hstart : start image robot clock = .ok m) (hfits : image.Addressable)
    (actions : List (Interaction HeadlessRobot)) :
    m.guardedRun actions = .ok (m.results actions, m.after actions) ∧
    (∀ pc i, Instruction.decode image.code pc = .ok i →
      i.opcode.minOperands ≤ i.operands.length) ∧
    ∀ pc ≤ GuardedExec.lastPlace, ∀ i : Instruction,
      i.opcode.minOperands ≤ i.operands.length →
      ∀ m' : Machine HeadlessRobot,
        (GuardedExec.executeInstruction pc i).run m' = .ok ((executeInstruction pc i).run m') := by
  refine ⟨?_, fun pc i => Instruction.minOperands_le_of_decode, ?_⟩
  · rw [← image_of_start hstart] at hfits
    exact guardedRun_eq hfits actions
  · intro pc hpc i hmin m'
    exact GuardedExec.executeInstruction_agrees hmin hpc m'

/-- A program with an array of three numbers, an empty array and a number. It builds an array of two
numbers and claims to have sixty thousand bytes of operands, takes a part of an array, adds and
branches to a place in front of the code. -/
def wildNumbers : Image :=
  (({ dataspace := ((({} : Dataspace).array .ubyte [1, 2, 3]).array .ubyte []).scalar .slong 2 } :
      Program)
    |>.addClump (assemble [.long .arrBuild 0 [60000, 2, 4, 4], .arrSubset 0 2 4 noEntry, .add 4 4 4,
      .jmp 65436]) [] 0).toImage

def startOfWildNumbers : Machine HeadlessRobot where
  image := wildNumbers
  memory :=
    ⟨wildNumbers.toc, #[1, 0, 2, 0, 2, 0, 0, 0],
      #[⟨⟨8, 10, 3, 0, 1⟩, #[]⟩, ⟨⟨38, 1, 3, 0, 2⟩, #[1, 2, 3]⟩, ⟨⟨41, 1, 0, 0, 0xFFFF⟩, #[]⟩],
      [0, 2, 4]⟩
  control := {}
  halted := false
  robot := .ofSensors []
  clock := .driven 0
  diagnostics := #[]
  seen := []

/-- A host that lets the dope vector of the second array claim more elements than there are, and
then takes the end of the static buffer away. -/
def tampering : List (Interaction HeadlessRobot) :=
  [.step,
    .changeMemory fun memory =>
      { memory with
        blocks := memory.blocks.modify 2 fun b =>
          { b with vector := { b.vector with elementCount := 65535 } } },
    .step,
    .changeMemory fun memory => { memory with statics := memory.statics.take 5 },
    .step, .step]

/-- The array is built, and what follows fails as it should. -/
theorem wildNumbers_within_bounds :
    start wildNumbers (HeadlessRobot.ofSensors []) (.driven 0) = .ok startOfWildNumbers ∧
    wildNumbers.Addressable ∧
    startOfWildNumbers.guardedRun tampering
      = .ok
        ([.ok .executed, .error (.memory (.outOfRange .arrayOffset 3 2)),
          .error (.memory (.outOfRange .staticOffset 4 5)), .error (.branchTarget 14 (-86))],
        startOfWildNumbers.after tampering) := by
  have hstart : start wildNumbers (HeadlessRobot.ofSensors []) (.driven 0)
      = .ok startOfWildNumbers := rfl
  have hfits : wildNumbers.Addressable := by decide +kernel
  obtain ⟨hrun, _, _⟩ := run_within_bounds hstart hfits tampering
  have hresults : startOfWildNumbers.results tampering
      = [.ok .executed, .error (.memory (.outOfRange .arrayOffset 3 2)),
        .error (.memory (.outOfRange .staticOffset 4 5)), .error (.branchTarget 14 (-86))] := by
    decide +kernel
  rw [hresults] at hrun
  exact ⟨hstart, hfits, hrun⟩

end Machine

end BrickMachine
