import BrickMachine.Image.Program
import BrickMachine.Proofs.Machine.Control
import BrickMachine.Proofs.Memory.Access

/-!
# A call and its return

A call puts the place behind it on the call stack, and it is over when the stack is as short as
before for the first time. Until then what was on the stack at the call stays there, with the place
behind the call on it, whatever other calls and returns, memory errors and changes from outside come
in between. So the step that ends the call is a return, and it goes back behind the call.

The number of the calling clump is not on the stack but in a slot. A return reads it from a slot of
its own choice, and if this still reads as the number that the call has stored, the clump is the
calling one again.
-/

namespace BrickMachine

variable {R : Type} [Robot R] {m m' : Machine R}

namespace Machine

def StaysDeeper (depth : Nat) (m : Machine R) : List (Interaction R) → Prop
  | [] => depth < m.control.callStack.length
  | a :: actions =>
    depth < m.control.callStack.length ∧ StaysDeeper depth (a.apply m) actions

instance decidableStaysDeeper (depth : Nat) :
    (m : Machine R) → (actions : List (Interaction R)) → Decidable (m.StaysDeeper depth actions)
  | m, [] => inferInstanceAs (Decidable (depth < m.control.callStack.length))
  | m, a :: actions =>
    have := decidableStaysDeeper depth (a.apply m) actions
    inferInstanceAs (Decidable (depth < _ ∧ StaysDeeper depth (a.apply m) actions))

/-- A call that goes on at `address` is active on top of the calls in `stack`. -/
def Calling (address : Nat) (stack : List Nat) (m : Machine R) : Prop :=
  ∃ top, m.control.callStack = top ++ address :: stack

variable {address depth : Nat} {stack : List Nat}

/-! ### The call -/

/-- What a SUBCALL leaves: the place behind it on the stack and the clump in its slot. -/
theorem of_subCall {i : Instruction} (h : m.step = (.ok .executed, m'))
    (hi : Instruction.decode m.image.code m.control.pc = .ok i) (hop : i.opcode = .subCall) :
    m'.control.callStack = (m.control.pc + i.length) :: m.control.callStack ∧
      ∃ slot t, i.operands[1]? = some slot ∧ m.memory.slotType slot.toNat = .ok t ∧
        m'.memory.scalar slot.toNat = .ok (t.truncate (Int32.ofNat m.control.clump)) := by
  obtain ⟨i', op, hi', hoperation, hsteers⟩ := steers_of_executed h
  obtain rfl : i' = i := Except.ok.inj (hi'.symm.trans hi)
  obtain ⟨clump, slot, hslot, rfl⟩ := Instruction.operation?_of_subCall hop hoperation
  obtain ⟨c, _, hstore, hcontrol⟩ := hsteers
  obtain ⟨t, ht, hread⟩ := Memory.scalar_of_setScalar hstore
  exact ⟨congrArg Control.callStack hcontrol, slot, t, hslot, ht, hread⟩

/-! ### While the call is active -/

theorem StaysDeeper.now {actions : List (Interaction R)} (h : m.StaysDeeper depth actions) :
    depth < m.control.callStack.length := by
  cases actions with
  | nil => exact h
  | cons a actions => exact h.1

theorem Calling.deeper {R : Type} {m : Machine R} (h : m.Calling address stack) :
    stack.length < m.control.callStack.length := by
  obtain ⟨top, htop⟩ := h
  rw [htop, List.length_append, List.length_cons]
  omega

/-- What comes off the stack is the place behind the call, or the call is still active. -/
theorem Calling.pop {R : Type} {m : Machine R} {c : Control} (h : m.Calling address stack)
    (hpop : m.control.callStack = c.pc :: c.callStack) :
    c.pc = address ∧ c.callStack = stack ∨ ∃ top, c.callStack = top ++ address :: stack := by
  obtain ⟨top, htop⟩ := h
  rw [htop] at hpop
  cases top with
  | nil =>
      obtain ⟨hpc, hrest⟩ := List.cons.inj hpop
      exact Or.inl ⟨hpc.symm, hrest.symm⟩
  | cons other top =>
      obtain ⟨_, hrest⟩ := List.cons.inj hpop
      exact Or.inr ⟨top, hrest.symm⟩

/-- A step that leaves the stack deep enough does not end the call. -/
theorem Calling.step (h : m.Calling address stack)
    (hdeep : stack.length < m.step.2.control.callStack.length) :
    m.step.2.Calling address stack := by
  cases m.callStep with
  | keeps hkept =>
      obtain ⟨top, htop⟩ := h
      exact ⟨top, hkept.1.trans htop⟩
  | pushes i hi hstack =>
      obtain ⟨top, htop⟩ := h
      refine ⟨(m.control.pc + i.length) :: top, ?_⟩
      rw [hstack, htop]
      rfl
  | pops i hi hop hstack =>
      rcases h.pop hstack with ⟨_, hrest⟩ | hactive
      · rw [hrest] at hdeep
        exact absurd hdeep (Nat.lt_irrefl _)
      · exact hactive

theorem Calling.apply {a : Interaction R} (h : m.Calling address stack)
    (hdeep : stack.length < (a.apply m).control.callStack.length) :
    (a.apply m).Calling address stack := by
  cases a with
  | step => exact h.step hdeep
  | changeClock | changeMemory | changeRobot | takeDiagnostics => exact h

theorem Calling.after {actions : List (Interaction R)} (h : m.Calling address stack)
    (hdeep : m.StaysDeeper stack.length actions) : (m.after actions).Calling address stack := by
  induction actions generalizing m with
  | nil => exact h
  | cons a actions ih => exact ih (h.apply hdeep.2.now) hdeep.2

/-! ### The end of the call -/

/-- What a SUBRET does that ends the call. -/
theorem Calling.return (h : m.Calling address stack)
    (hdepth : m.step.2.control.callStack.length ≤ stack.length) :
    ∃ i, Instruction.decode m.image.code m.control.pc = .ok i ∧ i.opcode = .subRet ∧
      m.step.2.control.pc = address ∧ m.step.2.control.callStack = stack := by
  have hdeep := h.deeper
  cases m.callStep with
  | keeps hkept =>
      rw [hkept.1] at hdepth
      omega
  | pushes i hi hstack =>
      rw [hstack, List.length_cons] at hdepth
      omega
  | pops i hi hop hstack =>
      refine ⟨i, hi, hop, ?_⟩
      rcases h.pop hstack with hend | hactive
      · exact hend
      · exact absurd hdepth (Nat.not_le.2 (Calling.deeper hactive))

/-- Nothing but a step ends a call. -/
theorem Calling.eq_step {a : Interaction R} (h : m.Calling address stack)
    (hdepth : (a.apply m).control.callStack.length ≤ stack.length) : a = .step := by
  cases a with
  | step => rfl
  | changeClock | changeMemory | changeRobot | takeDiagnostics =>
      exact absurd hdepth (Nat.not_le.2 h.deeper)

/-- A return that reads a number from its slot goes back to the clump of that number. -/
theorem clump_of_subRet {i : Instruction} {slot : UInt16} {clump : Nat}
    (h : m.step = (.ok .executed, m'))
    (hi : Instruction.decode m.image.code m.control.pc = .ok i) (hop : i.opcode = .subRet)
    (hslot : i.operands[0]? = some slot) (hclump : clump < 2 ^ 32)
    (hread : m.memory.scalar slot.toNat = .ok (Int32.ofNat clump)) : m'.control.clump = clump := by
  obtain ⟨i', op, hi', hoperation, hsteers⟩ := steers_of_executed h
  obtain rfl : i' = i := Except.ok.inj (hi'.symm.trans hi)
  obtain ⟨slot', hslot', rfl⟩ := Instruction.operation?_of_subRet hop hoperation
  obtain rfl : slot' = slot := Option.some.inj (hslot'.symm.trans hslot)
  obtain ⟨v, hv, _, hcontrol⟩ := hsteers
  obtain rfl : v = Int32.ofNat clump := Except.ok.inj (hv.symm.trans hread)
  rw [hcontrol]
  change (Int32.ofNat clump).toUInt32.toNat = clump
  rw [Int32.toUInt32_ofNat', UInt32.toNat_ofNat_of_lt' hclump]

/-- A call on a reachable machine. While the call stack is deeper than before the call, its oldest
part is the one before the call with the place behind the call on top. What makes the stack as
short again is a SUBRET: it goes back behind the call and leaves exactly the stack from before, and
if its slot reads as the number that the call has stored, the clump is the calling one. No return
address of a reachable machine lies beyond the code. -/
theorem returns_behind_call (hm : m.Reachable) :
    (∀ address ∈ m.control.callStack, address ≤ m.image.code.size) ∧
    ∀ i m', m.step = (.ok .executed, m') →
      Instruction.decode m.image.code m.control.pc = .ok i → i.opcode = .subCall →
      (m'.control.callStack = (m.control.pc + i.length) :: m.control.callStack ∧
        ∃ slot t, i.operands[1]? = some slot ∧ m.memory.slotType slot.toNat = .ok t ∧
          m'.memory.scalar slot.toNat = .ok (t.truncate (Int32.ofNat m.control.clump))) ∧
      ∀ between, m'.StaysDeeper m.control.callStack.length between →
        (∃ top, (m'.after between).control.callStack
          = top ++ (m.control.pc + i.length) :: m.control.callStack) ∧
        ∀ a : Interaction R,
          (a.apply (m'.after between)).control.callStack.length ≤ m.control.callStack.length →
          a = .step ∧ ∃ j,
            Instruction.decode (m'.after between).image.code (m'.after between).control.pc
              = .ok j ∧
            j.opcode = .subRet ∧
            (m'.after between).step.2.control.pc = m.control.pc + i.length ∧
            (m'.after between).step.2.control.callStack = m.control.callStack ∧
            ∀ slot, j.operands[0]? = some slot →
              (m'.after between).step.1 = .ok .executed →
              (m'.after between).memory.scalar slot.toNat = .ok (Int32.ofNat m.control.clump) →
              (m'.after between).step.2.control.clump = m.control.clump := by
  refine ⟨hm.placed.addresses, ?_⟩
  intro i m' hstep hi hop
  have hcall := of_subCall hstep hi hop
  refine ⟨hcall, ?_⟩
  intro between hdeeper
  have hcalling : m'.Calling (m.control.pc + i.length) m.control.callStack := ⟨[], hcall.1⟩
  have hactive := hcalling.after hdeeper
  refine ⟨hactive, ?_⟩
  intro a hdepth
  obtain rfl := hactive.eq_step hdepth
  obtain ⟨j, hj, hret, hpc, hstack⟩ := hactive.return hdepth
  refine ⟨rfl, j, hj, hret, hpc, hstack, ?_⟩
  intro slot hslot hok hread
  exact clump_of_subRet (Prod.ext hok rfl) hj hret hslot hm.placed.clump hread

/-- A program with three calls inside each other. The innermost returns with an entry that does not
exist. -/
def nestedCalls : Program :=
  (((({ dataspace := (({} : Dataspace).scalar .uword 0).scalar .uword 0 } : Program)
    |>.addClump (assemble [.subCall 1 0, .stop]) [] 0)
    |>.addClump (assemble [.subCall 2 1, .subRet 0]) [] 0)
    |>.addClump (assemble [.subCall 3 0, .subRet 1]) [] 0)
    |>.addClump (assemble [.subRet 9]) [] 0

def startOfNestedCalls : Machine HeadlessRobot where
  image := nestedCalls.toImage
  memory := ⟨nestedCalls.toImage.toc, #[0, 0, 0, 0], #[⟨⟨4, 10, 1, 0, 0xFFFF⟩, #[]⟩], [0, 1]⟩
  control := {}
  halted := false
  robot := .ofSensors []
  clock := .driven 0
  diagnostics := #[]
  seen := []

/-- The second of the calls comes back to the first one, over the failing return of the third. -/
theorem nestedCalls_return :
    Reachable (startOfNestedCalls.after [.step]) ∧
    (startOfNestedCalls.after [.step, .step, .step]).control.callStack = [13, 8, 3] ∧
    let last := startOfNestedCalls.after [.step, .step, .step, .changeClock (·.put 7), .step]
    last.step.2.control.pc = 8 ∧ last.step.2.control.callStack = [3] ∧
      last.step.2.control.clump = 1 := by
  have hreachable : Reachable (startOfNestedCalls.after [.step]) :=
    ⟨nestedCalls.toImage, .ofSensors [], .driven 0, startOfNestedCalls, [.step], rfl, rfl⟩
  refine ⟨hreachable, rfl, ?_⟩
  obtain ⟨_, hcalls⟩ := returns_behind_call hreachable
  obtain ⟨_, hbetween⟩ :=
    hcalls ⟨.subCall, 0, 3, [2, 1], false⟩ (startOfNestedCalls.after [.step, .step]) rfl rfl rfl
  obtain ⟨_, hend⟩ := hbetween [.step, .changeClock (·.put 7), .step] (by decide)
  obtain ⟨_, j, hj, _, hpc, hstack, hclump⟩ := hend .step (by decide)
  have hslot : j.operands[0]? = some 1 := by
    cases hj
    rfl
  exact ⟨hpc, hstack, hclump 1 hslot rfl rfl⟩

end Machine

end BrickMachine
