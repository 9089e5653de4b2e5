import BrickMachine.Machine.Step
import BrickMachine.Proofs.Bounds.Syscall
import BrickMachine.Proofs.Machine.Local

/-!
# Instructions within their bounds

Each opcode reads its operand words by their indices and trusts that they are there. So a decoded
instruction has to have as many operands as its opcode reads, and it has: `minOperands` is enough
for every one of them, also in the short forms. The payload of ARRBUILD and SETOUT is cut to what
its size says, but not beyond the operands.

Nothing else in an instruction can leave its bounds, whatever the numbers in memory are: a part of
an array starts at its end at the latest, a branch is a sum of a place in the code and a word, and
no divisor is zero.
-/

namespace BrickMachine

abbrev GuardedExec (α : Type) := GuardedEffect (Machine HeadlessRobot) Machine.Error α

namespace GuardedExec

open GuardedEffect Guarded

variable {α β : Type} {m : Machine HeadlessRobot} {i : Instruction}

def change (c : GuardedChange α) : GuardedExec α := fun m =>
  (c.run m.memory).map fun (result, memory) => (result.mapError .memory, { m with memory })

theorem change_agrees {c : GuardedChange α} {x : Change α} (h : Agrees m.memory c x) :
    Agrees m (change c) (Exec.change x) := by
  have hrun : c.run m.memory = .ok (x.run m.memory) := h
  change (c.run m.memory).map _ = _
  rw [hrun]
  rfl

def ask (f : Memory → GuardedAccess α) : GuardedExec α := change (.ask f)

theorem ask_agrees {f : Memory → GuardedAccess α} {q : Memory → Except MemoryError α}
    (h : (f m.memory).Agrees (q m.memory)) : Agrees m (ask f) (Exec.ask q) :=
  change_agrees (GuardedChange.ask_agrees h)

/-! ### Operands and numbers -/

def operand (i : Instruction) (k : Nat) : GuardedExec UInt16 := guard (read i.operands k)

theorem operand_bind {w : UInt16} {k : Nat} {f : UInt16 → GuardedExec α}
    {x : Exec HeadlessRobot α} (hw : i.operands[k]? = some w) (h : Agrees m (f w) x) :
    Agrees m (operand i k >>= f) x :=
  Agrees.guard_bind (read_eq hw) h

def scalar (e : UInt16) : GuardedExec Int32 := ask (Guarded.scalar · e.toNat)

theorem scalar_agrees (m : Machine HeadlessRobot) (e : UInt16) :
    Agrees m (scalar e) (Exec.scalar e) := ask_agrees (Guarded.scalar_agrees _ _)

def setScalar (e : UInt16) (v : Int32) : GuardedExec Unit :=
  change (.update (Guarded.setScalar · e.toNat v))

theorem setScalar_agrees (m : Machine HeadlessRobot) (e : UInt16) (v : Int32) :
    Agrees m (setScalar e v) (Exec.setScalar e v) :=
  change_agrees (GuardedChange.update_agrees (Guarded.setScalar_agrees _ _ _))

def index? (e : UInt16) : GuardedExec (Option Nat) :=
  if e = noEntry then pure none else do
    let v ← scalar e
    pure (some v.toUInt32.toNat)

theorem index?_agrees (m : Machine HeadlessRobot) (e : UInt16) :
    Agrees m (index? e) (Exec.index? e) := by
  unfold index? Exec.index?
  split
  · exact Agrees.pure none
  · exact (scalar_agrees m e).bind fun v t _ => Agrees.pure _

def index (e : UInt16) : GuardedExec Nat := do
  let i ← index? e
  pure (i.getD 0)

theorem index_agrees (m : Machine HeadlessRobot) (e : UInt16) :
    Agrees m (index e) (Exec.index e) :=
  (index?_agrees m e).bind fun _ _ _ => Agrees.pure _

def divide (op : Int32 → Int32 → Int32) (a b : Int32) : Guarded Int32 :=
  if b = 0 then .error .divisionByZero else .ok (op a b)

def squareRoot (a : Int32) : Guarded Int32 :=
  if a < 0 then .error .negativeRoot
  else .ok (Int32.ofNat (BrickMachine.squareRoot a.toInt.toNat))

def applyBinary (op : BinaryOp) (a b : Int32) : Guarded Int32 :=
  match op with
  | .div => if b = 0 then .ok 0 else divide (· / ·) a b
  | .mod => if b = 0 then .ok 0 else divide (· % ·) a b
  | op => .ok (op.apply a b)

def applyUnary (op : UnaryOp) (a : Int32) : Guarded Int32 :=
  match op with
  | .sqrt => if a < 0 then .ok 0 else squareRoot a
  | op => .ok (op.apply a)

theorem applyBinary_eq (op : BinaryOp) (a b : Int32) : applyBinary op a b = .ok (op.apply a b) := by
  cases op with
  | div | mod =>
      by_cases hb : b = 0
      · simp [applyBinary, BinaryOp.apply, hb]
      · simp [applyBinary, BinaryOp.apply, divide, hb]
  | _ => rfl

theorem applyUnary_eq (op : UnaryOp) (a : Int32) : applyUnary op a = .ok (op.apply a) := by
  cases op with
  | sqrt =>
      by_cases ha : a < 0
      · simp [applyUnary, UnaryOp.apply, ha]
      · simp [applyUnary, UnaryOp.apply, squareRoot, ha]
  | _ => rfl

section Handlers

variable {w₀ w₁ w₂ w₃ : UInt16} (pc : Nat)

def binary (i : Instruction) (op : BinaryOp) : GuardedExec Unit := do
  let a ← scalar (← operand i 1)
  let b ← scalar (← operand i 2)
  let v ← guard (applyBinary op a b)
  setScalar (← operand i 0) v

theorem binary_agrees {op : BinaryOp} (h₀ : i.operands[0]? = some w₀)
    (h₁ : i.operands[1]? = some w₁) (h₂ : i.operands[2]? = some w₂) :
    Agrees m (binary i op) (execute pc (.binary op w₀ w₁ w₂)) :=
  operand_bind h₁ <| (scalar_agrees m w₁).bind fun _ m _ =>
    operand_bind h₂ <| (scalar_agrees m w₂).bind fun _ m _ =>
      Agrees.guard_bind (applyBinary_eq op _ _) <| operand_bind h₀ <| setScalar_agrees m w₀ _

def unary (i : Instruction) (op : UnaryOp) : GuardedExec Unit := do
  let a ← scalar (← operand i 1)
  let v ← guard (applyUnary op a)
  setScalar (← operand i 0) v

theorem unary_agrees {op : UnaryOp} (h₀ : i.operands[0]? = some w₀)
    (h₁ : i.operands[1]? = some w₁) : Agrees m (unary i op) (execute pc (.unary op w₀ w₁)) :=
  operand_bind h₁ <| (scalar_agrees m w₁).bind fun _ m _ =>
    Agrees.guard_bind (applyUnary_eq op _) <| operand_bind h₀ <| setScalar_agrees m w₀ _

def compare (pc : Nat) (i : Instruction) : GuardedExec Unit := do
  let c ← safe (Exec.comparison pc i.flags)
  let a ← scalar (← operand i 1)
  let b ← scalar (← operand i 2)
  setScalar (← operand i 0) (ofBool (c.holds a b))

theorem compare_agrees (h₀ : i.operands[0]? = some w₀) (h₁ : i.operands[1]? = some w₁)
    (h₂ : i.operands[2]? = some w₂) :
    Agrees m (compare pc i) (execute pc (.compare i.flags w₀ w₁ w₂)) :=
  (Agrees.safe _).bind fun _ m _ => operand_bind h₁ <| (scalar_agrees m w₁).bind fun _ m _ =>
    operand_bind h₂ <| (scalar_agrees m w₂).bind fun _ m _ =>
      operand_bind h₀ <| setScalar_agrees m w₀ _

def test (pc : Nat) (i : Instruction) : GuardedExec Unit := do
  let c ← safe (Exec.comparison pc i.flags)
  let a ← scalar (← operand i 1)
  setScalar (← operand i 0) (ofBool (c.holds a 0))

theorem test_agrees (h₀ : i.operands[0]? = some w₀) (h₁ : i.operands[1]? = some w₁) :
    Agrees m (test pc i) (execute pc (.test i.flags w₀ w₁)) :=
  (Agrees.safe _).bind fun _ m _ => operand_bind h₁ <| (scalar_agrees m w₁).bind fun _ m _ =>
    operand_bind h₀ <| setScalar_agrees m w₀ _

/-! ### Arrays and moves -/

def elementOf (i : Instruction) : GuardedExec Unit := do
  let k ← index (← operand i 2)
  let array ← operand i 1
  let v ← ask (element · array.toNat k)
  setScalar (← operand i 0) v

/-- The number of an entry is a word. -/
theorem toNat_lt_entries (e : UInt16) : e.toNat < 2 ^ 32 :=
  Nat.lt_trans e.toNat_lt (by decide)

theorem elementOf_agrees (h₀ : i.operands[0]? = some w₀) (h₁ : i.operands[1]? = some w₁)
    (h₂ : i.operands[2]? = some w₂) :
    Agrees m (elementOf i) (execute pc (.index w₀ w₁ w₂)) :=
  operand_bind h₂ <| (index_agrees m w₂).bind fun k m _ => operand_bind h₁ <|
    (ask_agrees (element_agrees m.memory k (toNat_lt_entries w₁))).bind fun _ m _ =>
      operand_bind h₀ <| setScalar_agrees m w₀ _

def arraySize (i : Instruction) : GuardedExec Unit := do
  let array ← operand i 1
  let n ← ask (arrayLength · array.toNat)
  setScalar (← operand i 0) (Int32.ofNat n)

theorem arraySize_agrees (h₀ : i.operands[0]? = some w₀) (h₁ : i.operands[1]? = some w₁) :
    Agrees m (arraySize i) (execute pc (.arraySize w₀ w₁)) :=
  operand_bind h₁ <| (ask_agrees (arrayLength_agrees m.memory w₁.toNat)).bind fun _ m _ =>
    operand_bind h₀ <| setScalar_agrees m w₀ _

def payload (i : Instruction) : GuardedExec (List UInt16) := do
  let size ← operand i 0
  let rest := i.operands.drop 2
  guard (slice rest 0 (min (payloadLength size) rest.length))

/-- The payload is never cut behind the operands, whatever the size says. -/
theorem payload_bind {f : List UInt16 → GuardedExec α} {x : Exec HeadlessRobot α}
    {rest : List UInt16} (h : i.operands = w₀ :: w₁ :: rest)
    (hf : Agrees m (f (rest.take (payloadLength w₀))) x) : Agrees m (payload i >>= f) x := by
  have hslice : slice rest 0 (min (payloadLength w₀) rest.length)
      = .ok (rest.take (payloadLength w₀)) := by
    rw [slice_eq (Nat.zero_le _) (Nat.min_le_right _ _), List.drop_zero, Nat.sub_zero,
      ← List.take_eq_take_min]
  have hpayload : (payload i).run m = .ok (.ok (rest.take (payloadLength w₀)), m) := by
    unfold payload operand
    rw [h]
    change (guard (slice rest 0 (min (payloadLength w₀) rest.length))).run m = _
    rw [hslice]
    rfl
  unfold Agrees
  rw [run_bind, hpayload]
  exact hf

def arrayBuild (i : Instruction) : GuardedExec Unit := do
  let dst ← operand i 1
  let sources ← payload i
  let vs ← ask (scalars · (sources.map (·.toNat)))
  change (assign dst.toNat vs)

theorem arrayBuild_agrees {rest : List UInt16} (h : i.operands = w₀ :: w₁ :: rest) :
    Agrees m (arrayBuild i) (execute pc (.arrayBuild w₁ (rest.take (payloadLength w₀)))) := by
  have h₁ : i.operands[1]? = some w₁ := by
    rw [h]
    rfl
  exact operand_bind h₁ <| payload_bind h <|
    (ask_agrees (scalars_agrees m.memory _)).bind fun _ m _ =>
      change_agrees (assign_agrees m.memory _ (toNat_lt_entries w₁))

def arrayInit (i : Instruction) : GuardedExec Unit := do
  let dst ← operand i 0
  let v ← scalar (← operand i 1)
  let n ← index (← operand i 2)
  change (.update (setArrayLength · dst.toNat n))
  change (storeElements dst.toNat 0 (List.replicate n v))

theorem arrayInit_agrees (h₀ : i.operands[0]? = some w₀) (h₁ : i.operands[1]? = some w₁)
    (h₂ : i.operands[2]? = some w₂) :
    Agrees m (arrayInit i) (execute pc (.arrayInit w₀ w₁ w₂)) :=
  operand_bind h₀ <| operand_bind h₁ <| (scalar_agrees m w₁).bind fun _ m _ =>
    operand_bind h₂ <| (index_agrees m w₂).bind fun n m _ =>
      (change_agrees (GuardedChange.update_agrees
        (setArrayLength_agrees m.memory w₀.toNat n))).bind fun _ m _ =>
          change_agrees (storeElements_agrees m.memory 0 _ (toNat_lt_entries w₀))

def arraySubset (i : Instruction) : GuardedExec Unit := do
  let dst ← operand i 0
  let src ← operand i 1
  let available ← ask (arrayLength · src.toNat)
  let position ← index (← operand i 2)
  let wanted ← index? (← operand i 3)
  let start := min position available
  let rest ← guard (sub available start)
  let stop ← guard (add start (min (wanted.getD (wordLimit - 1)) rest))
  let vs ← ask (elements · src.toNat start (stop - start))
  change (assign dst.toNat vs)

/-- An array has no more elements than a word can count. -/
theorem arrayLength_le {memory : Memory} {e n : Nat} (h : memory.arrayLength e = .ok n) :
    n ≤ 65535 := by
  obtain ⟨d, _, rfl⟩ := map_eq_ok_iff.1 h
  have hcount := (memory.block d).vector.elementCount.toNat_lt
  omega

theorem arraySubset_agrees (h₀ : i.operands[0]? = some w₀) (h₁ : i.operands[1]? = some w₁)
    (h₂ : i.operands[2]? = some w₂) (h₃ : i.operands[3]? = some w₃) :
    Agrees m (arraySubset i) (execute pc (.arraySubset w₀ w₁ w₂ w₃)) := by
  apply operand_bind h₀
  apply operand_bind h₁
  apply (ask_agrees (arrayLength_agrees m.memory w₁.toNat)).bind
  intro available m' havailable
  have hlimit : available ≤ 65535 := arrayLength_le (Exec.run_ask_ok_iff.1 havailable).1
  apply operand_bind h₂
  apply (index_agrees m' w₂).bind
  intro position m' _
  apply operand_bind h₃
  apply (index?_agrees m' w₃).bind
  intro wanted m' _
  have hrest : available - min position available ≤ available := Nat.sub_le _ _
  have hword : wordLimit = 2 ^ 64 := rfl
  -- The greatest word stands for no length, since no array is that long.
  have hcount : min (wanted.getD (wordLimit - 1)) (available - min position available)
      = (wanted.map (min · (available - min position available))).getD
        (available - min position available) := by
    cases wanted with
    | none => exact Nat.min_eq_right (by rw [Option.getD_none]; omega)
    | some n => rfl
  apply Agrees.guard_bind (sub_eq (Nat.min_le_right _ _))
  apply Agrees.guard_bind (add_eq (by omega))
  rw [Nat.add_sub_cancel_left, hcount]
  apply (ask_agrees (elements_agrees m'.memory _ _ (toNat_lt_entries w₁))).bind
  intro vs m' _
  exact change_agrees (assign_agrees m'.memory vs (toNat_lt_entries w₀))

def replace (i : Instruction) : GuardedExec Unit := do
  let dst ← operand i 0
  let src ← operand i 1
  let start ← index (← operand i 2)
  let new ← operand i 3
  let vs ← ask (values · new.toNat)
  if dst ≠ src then
    change (copyArray dst.toNat src.toNat)
  let n ← ask (arrayLength · dst.toNat)
  change (replaceElements dst.toNat start n 0 vs)

theorem replace_agrees (h₀ : i.operands[0]? = some w₀) (h₁ : i.operands[1]? = some w₁)
    (h₂ : i.operands[2]? = some w₂) (h₃ : i.operands[3]? = some w₃) :
    Agrees m (replace i) (execute pc (.replace w₀ w₁ w₂ w₃)) := by
  have hdst := toNat_lt_entries w₀
  apply operand_bind h₀
  apply operand_bind h₁
  apply operand_bind h₂
  apply (index_agrees m w₂).bind
  intro start m' _
  apply operand_bind h₃
  apply (ask_agrees (values_agrees m'.memory (toNat_lt_entries w₃))).bind
  intro vs m' _
  have hstore (m : Machine HeadlessRobot) :
      Agrees m (do
        let n ← ask (arrayLength · w₀.toNat)
        change (replaceElements w₀.toNat start n 0 vs))
      (do
        let n ← Exec.ask (·.arrayLength w₀.toNat)
        Exec.change (Memory.storeElements w₀.toNat start (vs.take (n - start)))) := by
    apply (ask_agrees (arrayLength_agrees m.memory w₀.toNat)).bind
    intro n m' hn
    have hlimit : n ≤ 65535 := arrayLength_le (Exec.run_ask_ok_iff.1 hn).1
    exact change_agrees (replaceElements_agrees m'.memory 0 vs hdst (by omega))
  dsimp only
  split
  · apply (change_agrees (copyArray_agrees m'.memory hdst (toNat_lt_entries w₁))).bind
    intro _ m' _
    exact hstore m'
  · exact hstore m'

def move (pc : Nat) (i : Instruction) : GuardedExec Unit := do
  let dst ← operand i 0
  let src ← operand i 1
  let dstType ← safe (Exec.ask (·.slotType dst.toNat))
  let srcType ← safe (Exec.ask (·.slotType src.toNat))
  if dstType = .array ∧ srcType = .array then
    change (copyArray dst.toNat src.toNat)
  else if dstType.isFlat ∧ srcType.isFlat then do
    let v ← scalar src
    setScalar dst v
  else
    safe (Exec.act (·.note ⟨pc, .compositeMove dstType srcType⟩))

theorem move_agrees (h₀ : i.operands[0]? = some w₀) (h₁ : i.operands[1]? = some w₁) :
    Agrees m (move pc i) (execute pc (.move w₀ w₁)) := by
  apply operand_bind h₀
  apply operand_bind h₁
  apply (Agrees.safe _).bind
  intro dstType _ _
  apply (Agrees.safe _).bind
  intro srcType m' _
  split
  · exact change_agrees (copyArray_agrees m'.memory (toNat_lt_entries w₀) (toNat_lt_entries w₁))
  split
  · exact (scalar_agrees m' w₁).bind fun v m _ => setScalar_agrees m w₀ v
  · exact Agrees.safe _

def set (i : Instruction) : GuardedExec Unit := do
  let dst ← operand i 0
  let literal ← operand i 1
  setScalar dst (Int32.ofNat literal.toNat)

theorem set_agrees (h₀ : i.operands[0]? = some w₀) (h₁ : i.operands[1]? = some w₁) :
    Agrees m (set i) (execute pc (.set w₀ w₁)) :=
  operand_bind h₀ <| operand_bind h₁ <| setScalar_agrees m w₀ _

/-! ### Branches and calls -/

/-- The last place from which no branch leaves the signed words. -/
def lastPlace : Nat := 2 ^ 62

/-- A word can be added to such a place. -/
theorem add_lt_of_le_lastPlace {pc : Nat} (h : pc ≤ lastPlace) : pc + 65536 < 2 ^ 63 :=
  Nat.lt_of_le_of_lt (Nat.add_le_add_right h 65536) (by decide)

def branch (pc : Nat) (offset : UInt16) : GuardedExec Unit := do
  let target ← guard (addSigned pc (signedWord offset))
  if target < 0 then
    throw (.branchTarget pc target)
  else
    safe (Exec.act fun m => { m with control := { m.control with pc := target.toNat } })

variable {pc}

theorem branch_agrees (hpc : pc ≤ lastPlace) (offset : UInt16) :
    Agrees m (branch pc offset) (Exec.branch pc (signedWord offset)) := by
  have hroom := add_lt_of_le_lastPlace hpc
  have hbounds : -2 ^ 63 ≤ (pc : Int) + signedWord offset ∧
      (pc : Int) + signedWord offset < 2 ^ 63 := by
    have hword := offset.toNat_lt
    unfold signedWord
    split <;> omega
  apply Agrees.guard_bind (addSigned_eq hbounds)
  unfold Exec.branch
  dsimp only
  split
  · exact Agrees.throw _
  · exact Agrees.safe _

def jump (pc : Nat) (i : Instruction) : GuardedExec Unit := do
  branch pc (← operand i 0)

theorem jump_agrees (hpc : pc ≤ lastPlace) (h₀ : i.operands[0]? = some w₀) :
    Agrees m (jump pc i) (execute pc (.jump (signedWord w₀))) :=
  operand_bind h₀ <| branch_agrees hpc w₀

def branchCompare (pc : Nat) (i : Instruction) : GuardedExec Unit := do
  let c ← safe (Exec.comparison pc i.flags)
  let a ← scalar (← operand i 1)
  let b ← scalar (← operand i 2)
  if c.holds a b then branch pc (← operand i 0) else pure ()

theorem branchCompare_agrees (hpc : pc ≤ lastPlace) (h₀ : i.operands[0]? = some w₀)
    (h₁ : i.operands[1]? = some w₁) (h₂ : i.operands[2]? = some w₂) :
    Agrees m (branchCompare pc i) (execute pc (.branchCompare i.flags (signedWord w₀) w₁ w₂)) := by
  apply (Agrees.safe _).bind
  intro c m' _
  apply operand_bind h₁
  apply (scalar_agrees m' w₁).bind
  intro a m' _
  apply operand_bind h₂
  apply (scalar_agrees m' w₂).bind
  intro b m' _
  split
  · exact operand_bind h₀ (branch_agrees hpc w₀)
  · exact Agrees.pure ()

def branchTest (pc : Nat) (i : Instruction) : GuardedExec Unit := do
  let c ← safe (Exec.comparison pc i.flags)
  let a ← scalar (← operand i 1)
  if c.holds a 0 then branch pc (← operand i 0) else pure ()

theorem branchTest_agrees (hpc : pc ≤ lastPlace) (h₀ : i.operands[0]? = some w₀)
    (h₁ : i.operands[1]? = some w₁) :
    Agrees m (branchTest pc i) (execute pc (.branchTest i.flags (signedWord w₀) w₁)) := by
  apply (Agrees.safe _).bind
  intro c m' _
  apply operand_bind h₁
  apply (scalar_agrees m' w₁).bind
  intro a m' _
  split
  · exact operand_bind h₀ (branch_agrees hpc w₀)
  · exact Agrees.pure ()

variable (pc)

def call (pc : Nat) (i : Instruction) : GuardedExec Unit := do
  let clump ← operand i 0
  let target ← safe (Exec.look (·.image.clumps[clump.toNat]?))
  match target with
  | none => throw (.unknownClump pc clump)
  | some c => do
    let slot ← operand i 1
    let caller ← safe (Exec.look (·.control.clump))
    setScalar slot (Int32.ofNat caller)
    safe (Exec.act fun m =>
      { m with
        control :=
          { m.control with
            pc := c.codeStart.toNat
            clump := clump.toNat
            callStack := m.control.pc :: m.control.callStack } })

theorem call_agrees (h₀ : i.operands[0]? = some w₀) (h₁ : i.operands[1]? = some w₁) :
    Agrees m (call pc i) (execute pc (.call w₀ w₁)) := by
  apply operand_bind h₀
  apply (Agrees.safe _).bind
  intro target m' _
  cases target with
  | none => exact Agrees.throw _
  | some c =>
      apply operand_bind h₁
      apply (Agrees.safe _).bind
      intro caller m' _
      exact (setScalar_agrees m' w₁ _).bind fun _ _ _ => Agrees.safe _

def ret (pc : Nat) (i : Instruction) : GuardedExec Unit := do
  let stack ← safe (Exec.look (·.control.callStack))
  match stack with
  | [] => throw (.returnWithoutCall pc)
  | address :: rest => do
    safe (Exec.act fun m =>
      { m with control := { m.control with pc := address, callStack := rest } })
    let caller ← scalar (← operand i 0)
    safe (Exec.act fun m =>
      { m with control := { m.control with clump := caller.toUInt32.toNat } })

theorem ret_agrees (h₀ : i.operands[0]? = some w₀) :
    Agrees m (ret pc i) (execute pc (.ret w₀)) := by
  apply (Agrees.safe _).bind
  intro stack m' _
  cases stack with
  | nil => exact Agrees.throw _
  | cons address rest =>
      apply (Agrees.safe _).bind
      intro _ m' _
      apply operand_bind h₀
      exact (scalar_agrees m' w₀).bind fun _ _ _ => Agrees.safe _

/-! ### The robot and the clock -/

def systemCall (id cluster : UInt16) : GuardedExec Unit := fun m =>
  ((GuardedCall.call id cluster.toNat).run (m.robot, m.memory)).map fun (result, robot, memory) =>
    (result.mapError .memory, { m with robot, memory })

theorem systemCall_agrees (m : Machine HeadlessRobot) (id cluster : UInt16) :
    Agrees m (systemCall id cluster) (Exec.syscall id cluster) := by
  have hcall : (GuardedCall.call id cluster.toNat).run (m.robot, m.memory) = .ok _ :=
    GuardedCall.call_agrees cluster.toNat_lt id (m.robot, m.memory)
  change ((GuardedCall.call id cluster.toNat).run (m.robot, m.memory)).map _ = _
  rw [hcall]
  rfl

def syscall (i : Instruction) : GuardedExec Unit := do
  let cluster ← operand i 1
  let id ← operand i 0
  systemCall id cluster

theorem syscall_agrees (h₀ : i.operands[0]? = some w₀) (h₁ : i.operands[1]? = some w₁) :
    Agrees m (syscall i) (execute pc (.syscall w₀ w₁)) :=
  operand_bind h₁ <| operand_bind h₀ <| systemCall_agrees m w₀ w₁

def setInput (i : Instruction) : GuardedExec Unit := do
  let v ← scalar (← operand i 0)
  let channel ← scalar (← operand i 1)
  let property ← operand i 2
  safe (Exec.act fun m => { m with robot := Robot.setInput m.robot channel property v })

theorem setInput_agrees (h₀ : i.operands[0]? = some w₀) (h₁ : i.operands[1]? = some w₁)
    (h₂ : i.operands[2]? = some w₂) :
    Agrees m (setInput i) (execute pc (.setInput w₀ w₁ w₂)) :=
  operand_bind h₀ <| (scalar_agrees m w₀).bind fun _ m _ =>
    operand_bind h₁ <| (scalar_agrees m w₁).bind fun _ _ _ => operand_bind h₂ <| Agrees.safe _

/-- The list in pieces of two; a last single element is left out. -/
def piecesOfTwo : List UInt16 → List (List UInt16)
  | a :: b :: rest => [a, b] :: piecesOfTwo rest
  | _ => []

def setChannel (channel : Int32) : List (List UInt16) → GuardedExec Unit
  | [] => pure ()
  | piece :: pieces => do
    let src ← guard (read piece 1)
    let v ← scalar src
    let property ← guard (read piece 0)
    safe (Exec.act fun m => { m with robot := Robot.setOutput m.robot channel property v })
    setChannel channel pieces

theorem setChannel_agrees (m : Machine HeadlessRobot) (channel : Int32) (ws : List UInt16) :
    Agrees m (setChannel channel (piecesOfTwo ws)) (Exec.setChannel channel (pairs ws)) := by
  induction ws using pairs.induct generalizing m with
  | case1 property src rest ih =>
      apply Agrees.guard_bind (b := src) rfl
      apply (scalar_agrees m src).bind
      intro v m' _
      apply Agrees.guard_bind (b := property) rfl
      apply (Agrees.safe _).bind
      intro _ m' _
      exact ih m'
  | case2 ws h =>
      rcases ws with _ | ⟨a, _ | ⟨b, rest⟩⟩
      · exact Agrees.pure ()
      · exact Agrees.pure ()
      · exact absurd rfl (h a b rest)

def setChannels (pieces : List (List UInt16)) : List Int32 → GuardedExec Unit
  | [] => pure ()
  | channel :: channels => do
    setChannel channel pieces
    setChannels pieces channels

theorem setChannels_agrees (m : Machine HeadlessRobot) (ws : List UInt16) (channels : List Int32) :
    Agrees m (setChannels (piecesOfTwo ws) channels) (Exec.setChannels (pairs ws) channels) := by
  induction channels generalizing m with
  | nil => exact Agrees.pure ()
  | cons channel channels ih => exact (setChannel_agrees m channel ws).bind fun _ m _ => ih m

def setOutput (i : Instruction) : GuardedExec Unit := do
  let channel ← operand i 1
  let settings ← payload i
  let channels ← ask (values · channel.toNat)
  setChannels (piecesOfTwo settings) channels

theorem setOutput_agrees {rest : List UInt16} (h : i.operands = w₀ :: w₁ :: rest) :
    Agrees m (setOutput i)
      (execute pc (.setOutput w₁ (pairs (rest.take (payloadLength w₀))))) := by
  have h₁ : i.operands[1]? = some w₁ := by
    rw [h]
    rfl
  exact operand_bind h₁ <| payload_bind h <|
    (ask_agrees (values_agrees m.memory (toNat_lt_entries w₁))).bind fun channels m _ =>
      setChannels_agrees m _ channels

def getProperty (side : HeadlessRobot → Int32 → UInt16 → Int32 × HeadlessRobot) (i : Instruction) :
    GuardedExec Unit := do
  let channel ← scalar (← operand i 1)
  let property ← operand i 2
  let v ← safe (Exec.consult (side · channel property))
  setScalar (← operand i 0) v

theorem getProperty_agrees (side : HeadlessRobot → Int32 → UInt16 → Int32 × HeadlessRobot)
    (h₀ : i.operands[0]? = some w₀) (h₁ : i.operands[1]? = some w₁)
    (h₂ : i.operands[2]? = some w₂) :
    Agrees m (getProperty side i) (do
      let channel ← Exec.scalar w₁
      let v ← Exec.consult (side · channel w₂)
      Exec.setScalar w₀ v) :=
  operand_bind h₁ <| (scalar_agrees m w₁).bind fun _ _ _ => operand_bind h₂ <|
    (Agrees.safe _).bind fun _ m _ => operand_bind h₀ <| setScalar_agrees m w₀ _

def wait (i : Instruction) : GuardedExec Unit := do
  let v ← scalar (← operand i 1)
  safe (Exec.act fun m =>
    { m with control := { m.control with resumeAt := m.clock.deadline v.toInt.toNat } })

theorem wait_agrees (h₁ : i.operands[1]? = some w₁) :
    Agrees m (wait i) (execute pc (.wait w₁)) :=
  operand_bind h₁ <| (scalar_agrees m w₁).bind fun _ _ _ => Agrees.safe _

def getTick (i : Instruction) : GuardedExec Unit := do
  let tick ← safe (Exec.look (·.clock.tick))
  setScalar (← operand i 0) tick.toInt32

theorem getTick_agrees (h₀ : i.operands[0]? = some w₀) :
    Agrees m (getTick i) (execute pc (.getTick w₀)) :=
  (Agrees.safe _).bind fun _ m _ => operand_bind h₀ <| setScalar_agrees m w₀ _

end Handlers

/-! ### All opcodes -/

def executeInstruction (pc : Nat) (i : Instruction) : GuardedExec Unit :=
  match i.opcode with
  | .add => binary i .add
  | .sub => binary i .sub
  | .mul => binary i .mul
  | .div => binary i .div
  | .mod => binary i .mod
  | .and => binary i .and
  | .or => binary i .or
  | .xor => binary i .xor
  | .neg => unary i .neg
  | .abs => unary i .abs
  | .sqrt => unary i .sqrt
  | .not => unary i .not
  | .cmp => compare pc i
  | .tst => test pc i
  | .index => elementOf i
  | .replace => replace i
  | .arrSize => arraySize i
  | .arrBuild => arrayBuild i
  | .arrSubset => arraySubset i
  | .arrInit => arrayInit i
  | .mov => move pc i
  | .set => set i
  | .flatten | .unflatten | .numToString | .stringToNum | .strCat | .strSubset | .strToByteArr
  | .byteArrToStr => safe (Exec.act (·.note ⟨pc, .unsupportedOpcode i.opcode⟩))
  | .jmp => jump pc i
  | .brCmp => branchCompare pc i
  | .brTst => branchTest pc i
  | .stop => throw (.stopped pc)
  | .finClump | .finClumpImmed | .acquire | .release => pure ()
  | .subCall => call pc i
  | .subRet => ret pc i
  | .syscall => syscall i
  | .setIn => setInput i
  | .setOut => setOutput i
  | .getIn => getProperty Robot.input i
  | .getOut => getProperty Robot.output i
  | .wait => wait i
  | .getTick => getTick i

theorem exists_one {ws : List UInt16} (h : 1 ≤ ws.length) : ∃ a rest, ws = a :: rest := by
  cases ws with
  | nil => cases h
  | cons a rest => exact ⟨a, rest, rfl⟩

theorem exists_two {ws : List UInt16} (h : 2 ≤ ws.length) : ∃ a b rest, ws = a :: b :: rest := by
  obtain ⟨a, rest, rfl⟩ := exists_one (Nat.le_of_succ_le h)
  obtain ⟨b, rest, rfl⟩ := exists_one (Nat.le_of_succ_le_succ h)
  exact ⟨a, b, rest, rfl⟩

theorem exists_three {ws : List UInt16} (h : 3 ≤ ws.length) :
    ∃ a b c rest, ws = a :: b :: c :: rest := by
  obtain ⟨a, b, rest, rfl⟩ := exists_two (Nat.le_of_succ_le h)
  obtain ⟨c, rest, rfl⟩ := exists_one (Nat.le_of_succ_le_succ (Nat.le_of_succ_le_succ h))
  exact ⟨a, b, c, rest, rfl⟩

theorem exists_four {ws : List UInt16} (h : 4 ≤ ws.length) :
    ∃ a b c d rest, ws = a :: b :: c :: d :: rest := by
  obtain ⟨a, rest, rfl⟩ := exists_one (Nat.le_trans (by decide) h)
  obtain ⟨b, c, d, rest, rfl⟩ := exists_three (Nat.le_of_succ_le_succ h)
  exact ⟨a, b, c, d, rest, rfl⟩

/-- An instruction with as many operands as its opcode needs stays within all bounds, if it stands
where branches do. -/
theorem executeInstruction_agrees {pc : Nat} (hmin : i.opcode.minOperands ≤ i.operands.length)
    (hpc : pc ≤ lastPlace) (m : Machine HeadlessRobot) :
    Agrees m (executeInstruction pc i) (Machine.executeInstruction pc i) := by
  obtain ⟨opcode, flags, length, operands, short⟩ := i
  dsimp only at hmin
  cases opcode with
  | add | sub | mul | div | mod | and | or | xor =>
      obtain ⟨a, b, c, rest, rfl⟩ := exists_three hmin
      exact binary_agrees pc rfl rfl rfl
  | neg | abs | sqrt | not =>
      obtain ⟨a, b, rest, rfl⟩ := exists_two hmin
      exact unary_agrees pc rfl rfl
  | cmp =>
      obtain ⟨a, b, c, rest, rfl⟩ := exists_three hmin
      exact compare_agrees pc rfl rfl rfl
  | tst =>
      obtain ⟨a, b, rest, rfl⟩ := exists_two hmin
      exact test_agrees pc rfl rfl
  | index =>
      obtain ⟨a, b, c, rest, rfl⟩ := exists_three hmin
      exact elementOf_agrees pc rfl rfl rfl
  | replace =>
      obtain ⟨a, b, c, d, rest, rfl⟩ := exists_four hmin
      exact replace_agrees pc rfl rfl rfl rfl
  | arrSize =>
      obtain ⟨a, b, rest, rfl⟩ := exists_two hmin
      exact arraySize_agrees pc rfl rfl
  | arrBuild =>
      obtain ⟨a, b, rest, rfl⟩ := exists_two hmin
      exact arrayBuild_agrees pc rfl
  | arrSubset =>
      obtain ⟨a, b, c, d, rest, rfl⟩ := exists_four hmin
      exact arraySubset_agrees pc rfl rfl rfl rfl
  | arrInit =>
      obtain ⟨a, b, c, rest, rfl⟩ := exists_three hmin
      exact arrayInit_agrees pc rfl rfl rfl
  | mov =>
      obtain ⟨a, b, rest, rfl⟩ := exists_two hmin
      exact move_agrees pc rfl rfl
  | set =>
      obtain ⟨a, b, rest, rfl⟩ := exists_two hmin
      exact set_agrees pc rfl rfl
  | flatten | unflatten | numToString | stringToNum | strCat | strSubset | strToByteArr
  | byteArrToStr => exact Agrees.safe _
  | jmp =>
      obtain ⟨a, rest, rfl⟩ := exists_one hmin
      exact jump_agrees hpc rfl
  | brCmp =>
      obtain ⟨a, b, c, rest, rfl⟩ := exists_three hmin
      exact branchCompare_agrees hpc rfl rfl rfl
  | brTst =>
      obtain ⟨a, b, rest, rfl⟩ := exists_two hmin
      exact branchTest_agrees hpc rfl rfl
  | stop => exact Agrees.throw _
  | finClump | finClumpImmed | acquire | release => exact Agrees.pure ()
  | subCall =>
      obtain ⟨a, b, rest, rfl⟩ := exists_two hmin
      exact call_agrees pc rfl rfl
  | subRet =>
      obtain ⟨a, rest, rfl⟩ := exists_one hmin
      exact ret_agrees pc rfl
  | syscall =>
      obtain ⟨a, b, rest, rfl⟩ := exists_two hmin
      exact syscall_agrees pc rfl rfl
  | setIn =>
      obtain ⟨a, b, c, rest, rfl⟩ := exists_three hmin
      exact setInput_agrees pc rfl rfl rfl
  | setOut =>
      obtain ⟨a, b, rest, rfl⟩ := exists_two hmin
      exact setOutput_agrees pc rfl
  | getIn =>
      obtain ⟨a, b, c, rest, rfl⟩ := exists_three hmin
      exact getProperty_agrees Robot.input rfl rfl rfl
  | getOut =>
      obtain ⟨a, b, c, rest, rfl⟩ := exists_three hmin
      exact getProperty_agrees Robot.output rfl rfl rfl
  | wait =>
      obtain ⟨a, b, rest, rfl⟩ := exists_two hmin
      exact wait_agrees pc rfl
  | getTick =>
      obtain ⟨a, rest, rfl⟩ := exists_one hmin
      exact getTick_agrees pc rfl

/-- Without the operands that its opcode needs, an instruction does breach its bounds. -/
example (m : Machine HeadlessRobot) :
    (executeInstruction 0 ⟨.jmp, 0, 1, [], false⟩).run m = .error (.index 0 0) := rfl

end GuardedExec

end BrickMachine
