import BrickMachine.Code.Operation
import BrickMachine.Proofs.Code.Encodings

/-!
# The operands of a decoded instruction

What decodes as an instruction has passed all the tests of its form, and one of them is that there
are as many operands as the opcode asks for. So a decoded instruction always has an operation. The
short forms have no such test; they are only there for opcodes that need no more operands than the
form gives.
-/

namespace BrickMachine

namespace Instruction

variable {code : Array UInt16} {pc : Nat} {i : Instruction}

theorem minOperands_of_isOneWord {op : Opcode} (h : isOneWord op = true) : op.minOperands = 0 := by
  cases op <;> first | rfl | cases h

theorem minOperands_of_ofShortCode? {op : Opcode} {n : UInt8}
    (h : Opcode.ofShortCode? n = some op) : op.minOperands ≤ 2 := by
  unfold Opcode.ofShortCode? at h
  split at h <;> first | (cases h; decide) | cases h

/-- A decoded instruction has the operands that its opcode needs. -/
theorem minOperands_le_of_decode (h : decode code pc = .ok i) :
    i.opcode.minOperands ≤ i.operands.length := by
  cases encodedAt_of_decode h with
  | single _ _ _ hone =>
      exact Nat.le_trans (Nat.le_of_eq (minOperands_of_isOneWord hone)) (Nat.zero_le _)
  | pair _ _ hop => exact minOperands_of_ofShortCode? hop
  | long _ _ _ _ _ hcut _ hmin =>
      simp only [Array.length_toList, Array.size_extract]
      omega

/-- A decoded instruction can be carried out. -/
theorem exists_operation?_of_decode (h : decode code pc = .ok i) :
    ∃ op, i.operation? = some op := by
  rw [← Option.ne_none_iff_exists']
  intro hnone
  have hfew : i.operands.length < i.opcode.minOperands := Operation.of?_eq_none_iff.1 hnone
  exact absurd (minOperands_le_of_decode h) (Nat.not_le.2 hfew)

end Instruction

end BrickMachine
