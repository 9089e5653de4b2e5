import BrickMachine.Proofs.Code.Encodings

/-!
# Where an instruction lies

An instruction lies inside the code that it is decoded from, so the place behind it is at most the
end of the code. Code in front of it plays no part: behind any other words the same code decodes to
the same instructions, or fails to decode for the same reasons.
-/

namespace BrickMachine

namespace Instruction

variable {code : Array UInt16} {pc : Nat} {i : Instruction}

/-- An instruction does not reach beyond the end of the code. -/
theorem extent_of_decode (h : decode code pc = .ok i) : pc + i.length ≤ code.size := by
  cases encodedAt_of_decode h with
  | single hw =>
      obtain ⟨hlt, _⟩ := Array.getElem?_eq_some_iff.1 hw
      exact hlt
  | pair _ _ _ _ hnext =>
      obtain ⟨hlt, _⟩ := Array.getElem?_eq_some_iff.1 hnext
      exact hlt
  | long _ _ _ _ _ hcut => exact hcut

/-! ### Code behind other code -/

theorem getElem?_behind (before code : Array UInt16) (pc : Nat) :
    (before ++ code)[pc + before.size]? = code[pc]? := by
  rw [Array.getElem?_append_right (Nat.le_add_left _ _), Nat.add_sub_cancel]

theorem sizeAt?_behind (before code : Array UInt16) (pc : Nat) (w : UInt16) :
    sizeAt? (before ++ code) (pc + before.size) w = sizeAt? code pc w := by
  have hnext : (before ++ code)[pc + before.size + 1]? = code[pc + 1]? := by
    rw [Nat.add_right_comm, getElem?_behind]
  rw [sizeAt?, sizeAt?, hnext]

theorem decodeShort_behind (before code : Array UInt16) (pc : Nat) (w : UInt16) :
    decodeShort (before ++ code) (pc + before.size) w = decodeShort code pc w := by
  have hnext : (before ++ code)[pc + before.size + 1]? = code[pc + 1]? := by
    rw [Nat.add_right_comm, getElem?_behind]
  rw [decodeShort, decodeShort, hnext]

theorem decodeLong_behind (before code : Array UInt16) (pc : Nat) (w : UInt16) :
    decodeLong (before ++ code) (pc + before.size) w = decodeLong code pc w := by
  have hcut (length : Nat) : (before ++ code).size < pc + before.size + length
      ↔ code.size < pc + length := by
    rw [Array.size_append]
    omega
  have hoperands (length : Nat) :
      (before ++ code).extract (pc + before.size + 1) (pc + before.size + length)
        = code.extract (pc + 1) (pc + length) := by
    rw [Array.extract_append, Array.extract_eq_empty_of_le (by omega), Array.empty_append]
    congr 1 <;> omega
  simp only [decodeLong, sizeAt?_behind, hcut, hoperands]

/-- Code behind other code decodes as it does alone. -/
theorem decode_behind (before code : Array UInt16) (pc : Nat) :
    decode (before ++ code) (pc + before.size) = decode code pc := by
  simp only [decode, getElem?_behind, decodeShort_behind, decodeLong_behind]

end Instruction

end BrickMachine
