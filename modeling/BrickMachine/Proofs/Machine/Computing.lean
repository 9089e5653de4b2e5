import BrickMachine.Proofs.Code.Operands
import BrickMachine.Proofs.Machine.Arithmetic
import BrickMachine.Proofs.Machine.Arrays
import BrickMachine.Proofs.Memory.Stores

/-!
# Instructions that compute a number

More than half of the instructions read some operands, compute one number from them and store it in
the slot that their first operand names. `Machine.Computes` says which number this is, in terms of
the machine before the step: destination and sources may overlap in any way, since all that is read
is read before the one store.

`storesOnly_of_step` says that a step with such an instruction changes nothing else. If the step
fails, memory is as it was.
-/

namespace BrickMachine

/-! ### Which number is computed -/

namespace Opcode

def binary? : Opcode → Option BinaryOp
  | add => some .add
  | sub => some .sub
  | mul => some .mul
  | div => some .div
  | mod => some .mod
  | and => some .and
  | or => some .or
  | xor => some .xor
  | _ => none

def unary? : Opcode → Option UnaryOp
  | neg => some .neg
  | abs => some .abs
  | sqrt => some .sqrt
  | not => some .not
  | _ => none

/-- Whether an instruction with this opcode computes one number. A move does so if it is one between
flat slots. -/
def computes : Opcode → Bool
  | add | sub | mul | div | mod | and | or | xor => true
  | neg | abs | sqrt | not => true
  | cmp | tst | index | arrSize | mov | set | getIn | getOut | getTick => true
  | _ => false

end Opcode

/-- A robot that reading its channels leaves as it is. -/
class SteadyRobot (R : Type) [Robot R] : Prop where
  input (r : R) (channel : Int32) (property : UInt16) : (Robot.input r channel property).2 = r
  output (r : R) (channel : Int32) (property : UInt16) : (Robot.output r channel property).2 = r

instance : SteadyRobot HeadlessRobot := ⟨fun _ _ _ => rfl, fun _ _ _ => rfl⟩

/-- The number that an instruction with the given opcode, flags and operand words computes on a
machine. The first word, which names the destination, has no part in it. -/
inductive Machine.Computes {R : Type} [Robot R] (m : Machine R) :
    Opcode → UInt8 → List UInt16 → Int32 → Prop
  | binary {code : Opcode} {op : BinaryOp} {flags : UInt8} {dst lhs rhs : UInt16}
      {rest : List UInt16} {a b v : Int32} :
      code.binary? = some op → m.memory.scalar lhs.toNat = .ok a →
      m.memory.scalar rhs.toNat = .ok b → op.Gives a b v →
      Computes m code flags (dst :: lhs :: rhs :: rest) v
  | unary {code : Opcode} {op : UnaryOp} {flags : UInt8} {dst src : UInt16}
      {rest : List UInt16} {a v : Int32} :
      code.unary? = some op → m.memory.scalar src.toNat = .ok a → op.Gives a v →
      Computes m code flags (dst :: src :: rest) v
  /-- One if the comparison that the flags select holds, and zero otherwise. -/
  | compare {c : Comparison} {dst lhs rhs : UInt16} {rest : List UInt16} {a b v : Int32} :
      m.memory.scalar lhs.toNat = .ok a → m.memory.scalar rhs.toNat = .ok b →
      (c.Relates a.toInt b.toInt ∧ v = 1 ∨ ¬ c.Relates a.toInt b.toInt ∧ v = 0) →
      Computes m .cmp c.flags (dst :: lhs :: rhs :: rest) v
  | test {c : Comparison} {dst src : UInt16} {rest : List UInt16} {a v : Int32} :
      m.memory.scalar src.toNat = .ok a →
      (c.Relates a.toInt 0 ∧ v = 1 ∨ ¬ c.Relates a.toInt 0 ∧ v = 0) →
      Computes m .tst c.flags (dst :: src :: rest) v
  /-- An element of an array, the first one if there is no index. -/
  | index {flags : UInt8} {dst array position : UInt16} {rest : List UInt16}
      {i : Option Nat} {v : Int32} :
      m.memory.index? position = .ok i → m.memory.element array.toNat (i.getD 0) = .ok v →
      Computes m .index flags (dst :: array :: position :: rest) v
  | arraySize {flags : UInt8} {dst array : UInt16} {rest : List UInt16} {n : Nat} :
      m.memory.arrayLength array.toNat = .ok n →
      Computes m .arrSize flags (dst :: array :: rest) (Int32.ofNat n)
  | move {flags : UInt8} {dst src : UInt16} {rest : List UInt16} {v : Int32} :
      m.memory.scalar src.toNat = .ok v → Computes m .mov flags (dst :: src :: rest) v
  /-- The literal is not negative. -/
  | set {flags : UInt8} {dst literal : UInt16} {rest : List UInt16} {v : Int32} :
      v.toInt = literal.toNat → Computes m .set flags (dst :: literal :: rest) v
  | getInput {flags : UInt8} {dst channel property : UInt16} {rest : List UInt16} {p : Int32} :
      m.memory.scalar channel.toNat = .ok p →
      Computes m .getIn flags (dst :: channel :: property :: rest)
        (Robot.input m.robot p property).1
  | getOutput {flags : UInt8} {dst channel property : UInt16} {rest : List UInt16} {p : Int32} :
      m.memory.scalar channel.toNat = .ok p →
      Computes m .getOut flags (dst :: channel :: property :: rest)
        (Robot.output m.robot p property).1
  | getTick {flags : UInt8} {dst : UInt16} {rest : List UInt16} :
      Computes m .getTick flags (dst :: rest) m.clock.tick.toInt32

/-! ### The operations -/

namespace Operation

variable {code : Opcode} {flags : UInt8} {words : List UInt16} {operation : Operation}

theorem of_one {f : UInt16 → Operation} (h : one f words = some operation) :
    ∃ a rest, words = a :: rest ∧ operation = f a := by
  rcases words with _ | ⟨a, rest⟩ <;> cases h
  exact ⟨a, rest, rfl, rfl⟩

theorem of_two {f : UInt16 → UInt16 → Operation} (h : two f words = some operation) :
    ∃ a b rest, words = a :: b :: rest ∧ operation = f a b := by
  rcases words with _ | ⟨a, _ | ⟨b, rest⟩⟩ <;> cases h
  exact ⟨a, b, rest, rfl, rfl⟩

theorem of_three {f : UInt16 → UInt16 → UInt16 → Operation} (h : three f words = some operation) :
    ∃ a b c rest, words = a :: b :: c :: rest ∧ operation = f a b c := by
  rcases words with _ | ⟨a, _ | ⟨b, _ | ⟨c, rest⟩⟩⟩ <;> cases h
  exact ⟨a, b, c, rest, rfl, rfl⟩

theorem of_sized {f : UInt16 → List UInt16 → Operation} (h : sized f words = some operation) :
    ∃ size a rest, words = size :: a :: rest ∧
      operation = f a (rest.take (payloadLength size)) := by
  rcases words with _ | ⟨size, _ | ⟨a, rest⟩⟩ <;> cases h
  exact ⟨size, a, rest, rfl, rfl⟩

theorem of?_binary {op : BinaryOp} (h : code.binary? = some op) :
    of? code flags words = three (.binary op) words := by
  cases code <;> cases h <;> rfl

theorem of?_unary {op : UnaryOp} (h : code.unary? = some op) :
    of? code flags words = two (.unary op) words := by
  cases code <;> cases h <;> rfl

end Operation

theorem Comparison.flags_of_ofFlags? {flags : UInt8} {c : Comparison}
    (h : ofFlags? flags = some c) : c.flags = flags := by
  unfold ofFlags? at h
  split at h <;> cases h <;> rfl

/-- The truth value of a comparison as a number. -/
theorem Comparison.ofBool_holds (c : Comparison) (a b : Int32) :
    c.Relates a.toInt b.toInt ∧ ofBool (c.holds a b) = 1 ∨
      ¬ c.Relates a.toInt b.toInt ∧ ofBool (c.holds a b) = 0 := by
  rw [← Comparison.holds_iff]
  cases c.holds a b <;> simp [ofBool]

namespace Exec

variable {R α : Type} {m : Machine R}

theorem of_run_comparison {pc : Nat} {flags : UInt8} {c : Comparison} {m' : Machine R}
    (h : (comparison pc flags).run m = (.ok c, m')) : c.flags = flags := by
  unfold comparison at h
  split at h
  case h_1 c' hflags =>
    cases h
    exact Comparison.flags_of_ofFlags? hflags
  case h_2 => cases h

/-- A question that leaves the robot as it is. -/
theorem run_consult {f : R → α × R} (hf : ∀ r, (f r).2 = r) :
    (consult f).run m = (.ok (f m.robot).1, m) := by
  change (Except.ok (f m.robot).1, { m with robot := (f m.robot).2 }) = _
  rw [hf m.robot]

theorem keeps_consult_of_steady {f : R → α × R} (hf : ∀ r, (f r).2 = r) :
    Keeps Eq (consult f) := fun m => by rw [run_consult hf]

variable [Robot R] {code : Opcode} {flags : UInt8} {words : List UInt16} {dst : UInt16}

def Stores (code : Opcode) (flags : UInt8) (words : List UInt16) (m m' : Machine R) : Prop :=
  ∃ dst v, words.head? = some dst ∧ m.Computes code flags words v ∧
    m.memory.setScalar dst.toNat v = .ok m'.memory ∧ m' = { m with memory := m'.memory }

theorem stores_setScalar {v : Int32} (hdst : words.head? = some dst)
    (hv : m.Computes code flags words v) :
    Atomic (setScalar dst v) m fun _ m' => Stores code flags words m m' :=
  (atomic_setScalar dst v).mono fun _ _ h => ⟨dst, v, hdst, hv, h⟩

theorem stores_move (pc : Nat) (dst src : UInt16) (rest : List UInt16)
    (hflat : ∀ w ∈ [dst, src], ∃ t, m.memory.slotType w.toNat = .ok t ∧ t.isFlat = true) :
    Atomic (move pc dst src) m fun _ m' => Stores .mov flags (dst :: src :: rest) m m' := by
  refine Atomic.bind_of_keeps (keeps_ask _) fun dstType hdst => ?_
  refine Atomic.bind_of_keeps (keeps_ask _) fun srcType hsrc => ?_
  obtain ⟨_, hdstType, hdstFlat⟩ := hflat dst (by simp)
  obtain ⟨_, hsrcType, hsrcFlat⟩ := hflat src (by simp)
  obtain rfl := Except.ok.inj (hdstType.symm.trans (of_run_ask hdst))
  obtain rfl := Except.ok.inj (hsrcType.symm.trans (of_run_ask hsrc))
  rw [if_neg, if_pos ⟨hdstFlat, hsrcFlat⟩]
  · refine Atomic.bind_of_keeps (keeps_scalar src) fun v hv => ?_
    exact stores_setScalar rfl (.move (of_run_ask hv))
  · -- an array is not flat
    rintro ⟨rfl, _⟩
    cases hdstFlat

/-- An instruction that computes reads its operands and then makes its one store. -/
theorem stores_execute [SteadyRobot R] {operation : Operation} (pc : Nat)
    (hcode : code.computes = true) (hop : Operation.of? code flags words = some operation)
    (hmove : code = .mov → ∀ w ∈ words.take 2, ∃ t, m.memory.slotType w.toNat = .ok t ∧
      t.isFlat = true) :
    Atomic (execute pc operation) m fun _ m' => Stores code flags words m m' := by
  cases hbinary : code.binary? with
  | some op =>
      rw [Operation.of?_binary hbinary] at hop
      obtain ⟨dst, lhs, rhs, rest, rfl, rfl⟩ := Operation.of_three hop
      refine Atomic.bind_of_keeps (keeps_scalar lhs) fun a ha => ?_
      refine Atomic.bind_of_keeps (keeps_scalar rhs) fun b hb => ?_
      exact stores_setScalar rfl
        (.binary hbinary (of_run_ask ha) (of_run_ask hb) (op.gives_apply a b))
  | none =>
  cases hunary : code.unary? with
  | some op =>
      rw [Operation.of?_unary hunary] at hop
      obtain ⟨dst, src, rest, rfl, rfl⟩ := Operation.of_two hop
      refine Atomic.bind_of_keeps (keeps_scalar src) fun a ha => ?_
      exact stores_setScalar rfl (.unary hunary (of_run_ask ha) (op.gives_apply a))
  | none =>
  cases code with
  | cmp =>
      obtain ⟨dst, lhs, rhs, rest, rfl, rfl⟩ := Operation.of_three hop
      refine Atomic.bind_of_keeps (keeps_comparison pc flags) fun c hc => ?_
      refine Atomic.bind_of_keeps (keeps_scalar lhs) fun a ha => ?_
      refine Atomic.bind_of_keeps (keeps_scalar rhs) fun b hb => ?_
      obtain rfl := of_run_comparison hc
      exact stores_setScalar rfl (.compare (of_run_ask ha) (of_run_ask hb) (c.ofBool_holds a b))
  | tst =>
      obtain ⟨dst, src, rest, rfl, rfl⟩ := Operation.of_two hop
      refine Atomic.bind_of_keeps (keeps_comparison pc flags) fun c hc => ?_
      refine Atomic.bind_of_keeps (keeps_scalar src) fun a ha => ?_
      obtain rfl := of_run_comparison hc
      exact stores_setScalar rfl (.test (of_run_ask ha) (c.ofBool_holds a 0))
  | index =>
      obtain ⟨dst, array, position, rest, rfl, rfl⟩ := Operation.of_three hop
      refine Atomic.bind_of_keeps (keeps_index position) fun i hi => ?_
      refine Atomic.bind_of_keeps (keeps_ask _) fun v hv => ?_
      obtain ⟨k, hk, rfl⟩ := of_run_index hi
      exact stores_setScalar rfl (.index hk (of_run_ask hv))
  | arrSize =>
      obtain ⟨dst, array, rest, rfl, rfl⟩ := Operation.of_two hop
      refine Atomic.bind_of_keeps (keeps_ask _) fun n hn => ?_
      exact stores_setScalar rfl (.arraySize (of_run_ask hn))
  | mov =>
      obtain ⟨dst, src, rest, rfl, rfl⟩ := Operation.of_two hop
      exact stores_move pc dst src rest (hmove rfl)
  | set =>
      obtain ⟨dst, literal, rest, rfl, rfl⟩ := Operation.of_two hop
      have hliteral := literal.toNat_lt
      exact stores_setScalar rfl (.set (Int32.toInt_ofNat_of_lt (by omega)))
  | getIn =>
      obtain ⟨dst, channel, property, rest, rfl, rfl⟩ := Operation.of_three hop
      refine Atomic.bind_of_keeps (keeps_scalar channel) fun p hp => ?_
      have hsteady (r : R) := SteadyRobot.input r p property
      refine Atomic.bind_of_keeps (keeps_consult_of_steady hsteady) fun v hv => ?_
      rw [run_consult hsteady] at hv
      cases hv
      exact stores_setScalar rfl (.getInput (of_run_ask hp))
  | getOut =>
      obtain ⟨dst, channel, property, rest, rfl, rfl⟩ := Operation.of_three hop
      refine Atomic.bind_of_keeps (keeps_scalar channel) fun p hp => ?_
      have hsteady (r : R) := SteadyRobot.output r p property
      refine Atomic.bind_of_keeps (keeps_consult_of_steady hsteady) fun v hv => ?_
      rw [run_consult hsteady] at hv
      cases hv
      exact stores_setScalar rfl (.getOutput (of_run_ask hp))
  | getTick =>
      obtain ⟨dst, rest, rfl, rfl⟩ := Operation.of_one hop
      refine Atomic.bind_of_keeps (keeps_look _) fun tick htick => ?_
      obtain ⟨rfl, _⟩ := run_look_ok_iff.1 htick
      exact stores_setScalar rfl .getTick
  | add | sub | mul | div | mod | and | or | xor => cases hbinary
  | neg | abs | sqrt | not => cases hunary
  | _ => cases hcode

end Exec

/-! ### Steps -/

namespace Machine

variable {R : Type} [Robot R] {m : Machine R} {i : Instruction}

theorem stores_executeInstruction [SteadyRobot R] (pc : Nat) (hcode : i.opcode.computes = true)
    (hmove : i.opcode = .mov → ∀ w ∈ i.operands.take 2, ∃ t, m.memory.slotType w.toNat = .ok t ∧
      t.isFlat = true) :
    Atomic (executeInstruction pc i) m fun _ m' =>
      Exec.Stores i.opcode i.flags i.operands m m' := by
  unfold executeInstruction
  split
  case h_1 op hop => exact Exec.stores_execute pc hcode hop hmove
  case h_2 => exact Or.inl ⟨_, rfl⟩

/-- The place in the code has no part in what is computed. -/
theorem Computes.of_behind {j : Instruction} {code : Opcode} {flags : UInt8} {words : List UInt16}
    {v : Int32} (h : (m.behind j).Computes code flags words v) : m.Computes code flags words v := by
  cases h with
  | binary hop ha hb hv => exact .binary hop ha hb hv
  | unary hop ha hv => exact .unary hop ha hv
  | compare ha hb hv => exact .compare ha hb hv
  | test ha hv => exact .test ha hv
  | index hi hv => exact .index hi hv
  | arraySize hn => exact .arraySize hn
  | move hv => exact .move hv
  | set hv => exact .set hv
  | getInput hp => exact .getInput hp
  | getOutput hp => exact .getOutput hp
  | getTick => exact .getTick

/-- A step with an instruction that computes a number stores it, truncated to the type of the
destination, or it fails. Either way the program counter moves on behind the instruction; apart from
that, nothing changes but the bytes of the destination, if the step succeeds, and nothing but that a
fatal error halts the machine, if it fails. -/
theorem storesOnly_of_step [SteadyRobot R]
    (hi : Instruction.decode m.image.code m.control.pc = .ok i)
    (hcode : i.opcode.computes = true)
    (hmove : i.opcode = .mov → ∀ w ∈ i.operands.take 2, ∃ t, m.memory.slotType w.toNat = .ok t ∧
      t.isFlat = true) :
    (∀ m', m.step = (.ok .executed, m') → ∃ dst v t,
      i.operands.head? = some dst ∧ m.Computes i.opcode i.flags i.operands v ∧
      m.memory.slotType dst.toNat = .ok t ∧ m'.memory.scalar dst.toNat = .ok (t.truncate v) ∧
      m.memory.StoresOnly dst.toNat m'.memory ∧ m' = { m.behind i with memory := m'.memory }) ∧
    ∀ e m', m.step = (.error e, m') →
      m'.memory = m.memory ∧ m' = { m.behind i with halted := e.isFatal } := by
  have hatomic := stores_executeInstruction (m := m.behind i) m.control.pc hcode hmove
  constructor
  · intro m' hstep
    obtain ⟨i', hi', hrun⟩ := of_step_executed hstep
    obtain rfl : i = i' := Except.ok.inj (hi.symm.trans hi')
    obtain ⟨dst, v, hdst, hv, hstore, hrest⟩ := hatomic.of_ok hrun
    obtain ⟨t, ht, hread⟩ := Memory.scalar_of_setScalar hstore
    exact ⟨dst, v, t, hdst, hv.of_behind, ht, hread, Memory.storesOnly_setScalar hstore, hrest⟩
  · intro e m' hstep
    obtain ⟨hrunning, ⟨_, hcause, _⟩ | ⟨i', m₁, hi', hrun, rfl⟩⟩ := of_step_error hstep
    · rw [hi] at hcause
      cases hcause
    obtain rfl : i = i' := Except.ok.inj (hi.symm.trans hi')
    obtain rfl : m₁ = m.behind i := hatomic.of_error hrun
    split
    case isTrue hfatal =>
      rw [hfatal]
      exact ⟨rfl, rfl⟩
    case isFalse hmild =>
      rw [Bool.eq_false_iff.2 hmild, ← hrunning]
      exact ⟨rfl, rfl⟩

/-- A machine that is about to divide the least number by -1 and to store the quotient in the upper
half of the dividend. -/
def leastQuotient : Machine HeadlessRobot :=
  running [.div 1 0 2]
    { toc := #[⟨.slong, 0, 0⟩, ⟨.sword, 0, 2⟩, ⟨.sbyte, 0, 4⟩]
      statics := #[0, 0, 0, 128, 255]
      blocks := #[⟨⟨0, 10, 1, 0, 0⟩, #[]⟩]
      slots := [0, 1, 2] }
    {}

/-- A machine with an array of three words and a statement about it. Entry 3 is the number one, and
entry 0 a signed byte. -/
def threeWords (s : Statement) : Machine HeadlessRobot :=
  running [s]
    { toc := #[⟨.sbyte, 0, 0⟩, ⟨.array, 0, 2⟩, ⟨.uword, 0, 0⟩, ⟨.ubyte, 0, 1⟩]
      statics := #[9, 1, 1, 0]
      blocks := #[⟨⟨0, 10, 2, 0, 0⟩, #[]⟩, ⟨⟨0, 2, 3, 0, 0⟩, #[5, 0, 200, 1, 7, 0]⟩]
      slots := [0, 1, 3] }
    {}

theorem storesOnly_of_leastQuotient :
    (∃ m', leastQuotient.step = (.ok .executed, m') ∧
      leastQuotient.Computes .div 0 [1, 0, 2] Int32.minValue ∧
      m'.memory.scalar 1 = .ok (SlotType.sword.truncate Int32.minValue) ∧
      leastQuotient.memory.StoresOnly 1 m'.memory ∧ m'.memory.statics = #[0, 0, 0, 0, 255]) ∧
    (∃ m', (threeWords (.index 0 1 3)).step = (.ok .executed, m') ∧
      m'.memory.scalar 0 = .ok (-56) ∧
      m'.memory.statics = #[200, 1, 1, 0]) ∧
    ∃ m', (threeWords (.arrSize 0 1)).step = (.ok .executed, m') ∧
      m'.memory.scalar 0 = .ok 3 ∧ m'.memory.statics = #[3, 1, 1, 0] := by
  refine ⟨?_, ?_, ?_⟩
  · have hi : Instruction.decode leastQuotient.image.code 0
        = .ok ⟨.div, 0, 4, [1, 0, 2], false⟩ := rfl
    have hresult : leastQuotient.step.1.toOption = some .executed := by decide +kernel
    have hstatics : leastQuotient.step.2.memory.statics = #[0, 0, 0, 0, 255] := by decide +kernel
    rcases hstep : leastQuotient.step with ⟨_ | outcome, m'⟩ <;> rw [hstep] at hresult hstatics <;>
      cases hresult
    obtain ⟨dst, v, t, hdst, hv, ht, hread, honly, _⟩ :=
      (storesOnly_of_step hi rfl nofun).1 m' hstep
    cases hdst
    cases ht
    have hleast : v = Int32.minValue := by
      cases hv with
      | binary hop ha hb hgives =>
          cases hop
          cases ha
          cases hb
          exact hgives
      | unary hop => cases hop
    rw [hleast] at hv hread
    exact ⟨m', rfl, hv, hread, honly, hstatics⟩
  · have hi : Instruction.decode (threeWords (.index 0 1 3)).image.code 0
        = .ok ⟨.index, 0, 4, [0, 1, 3], false⟩ := rfl
    obtain ⟨m', hstep⟩ : ∃ m', (threeWords (.index 0 1 3)).step = (.ok .executed, m') := ⟨_, rfl⟩
    have hstatics : (threeWords (.index 0 1 3)).step.2.memory.statics = #[200, 1, 1, 0] := rfl
    rw [hstep] at hstatics
    obtain ⟨dst, v, t, hdst, hv, ht, hread, _⟩ := (storesOnly_of_step hi rfl nofun).1 m' hstep
    cases hdst
    cases ht
    refine ⟨m', hstep, ?_, hstatics⟩
    cases hv with
    | binary hop => cases hop
    | unary hop => cases hop
    | index hposition helement =>
        cases hposition
        cases helement
        exact hread
  · have hi : Instruction.decode (threeWords (.arrSize 0 1)).image.code 0
        = .ok ⟨.arrSize, 0, 3, [0, 1], false⟩ := rfl
    obtain ⟨m', hstep⟩ : ∃ m', (threeWords (.arrSize 0 1)).step = (.ok .executed, m') := ⟨_, rfl⟩
    have hstatics : (threeWords (.arrSize 0 1)).step.2.memory.statics = #[3, 1, 1, 0] := rfl
    rw [hstep] at hstatics
    obtain ⟨dst, v, t, hdst, hv, ht, hread, _⟩ := (storesOnly_of_step hi rfl nofun).1 m' hstep
    cases hdst
    cases ht
    refine ⟨m', hstep, ?_, hstatics⟩
    cases hv with
    | unary hop => cases hop
    | arraySize hlength =>
        cases hlength
        exact hread

end Machine

end BrickMachine
