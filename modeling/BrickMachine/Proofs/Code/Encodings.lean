import BrickMachine.Code.Instruction

/-!
# The encodings of an instruction

`EncodedAt code pc i` says that the words of `code` from `pc` on encode the instruction `i`, with
one rule for each encoding: a short instruction of a single word, a short one with a second word,
and a long one. Decoding succeeds exactly where an instruction is encoded (`decode_eq_ok_iff`), so
what is true of all decoded instructions is proved by cases on the encoding.
-/

namespace BrickMachine

namespace Instruction

/-- The words of the code from `pc` on encode the instruction. -/
inductive EncodedAt (code : Array UInt16) (pc : Nat) : Instruction → Prop where
  | single {w : UInt16} {op : Opcode} (hw : code[pc]? = some w)
      (hshort : FirstWord.isShort w = true)
      (hop : Opcode.ofShortCode? (FirstWord.shortCode w) = some op) (hone : isOneWord op = true) :
      EncodedAt code pc ⟨op, 0, 1, [FirstWord.difference w], true⟩
  | pair {w next : UInt16} {op : Opcode} (hw : code[pc]? = some w)
      (hshort : FirstWord.isShort w = true)
      (hop : Opcode.ofShortCode? (FirstWord.shortCode w) = some op) (htwo : isOneWord op = false)
      (hnext : code[pc + 1]? = some next) :
      EncodedAt code pc ⟨op, 0, 2, [next + FirstWord.difference w, next], true⟩
  | long {w : UInt16} {size n : Nat} {op : Opcode} (hw : code[pc]? = some w)
      (hlong : FirstWord.isShort w = false) (hsize : sizeAt? code pc w = some size)
      (hhalf : size / 2 = n) (hpos : 0 < n) (hcut : pc + n ≤ code.size)
      (hop : Opcode.ofByte? (FirstWord.opcodeByte w) = some op) (hmin : op.minOperands ≤ n - 1) :
      EncodedAt code pc
        ⟨op, FirstWord.flags w, n, (code.extract (pc + 1) (pc + n)).toList, false⟩

variable {code : Array UInt16} {pc : Nat} {w : UInt16} {i : Instruction}

theorem encodedAt_of_decodeShort (hw : code[pc]? = some w) (hshort : FirstWord.isShort w = true)
    (h : decodeShort code pc w = .ok i) : EncodedAt code pc i := by
  unfold decodeShort at h
  split at h
  · cases h
  case h_2 op hop =>
    dsimp only at h
    split at h
    case isTrue hone =>
      cases h
      exact .single hw hshort hop hone
    case isFalse htwo =>
      split at h
      · cases h
      case h_2 next hnext =>
        cases h
        exact .pair hw hshort hop (eq_false_of_ne_true htwo) hnext

theorem encodedAt_of_decodeLong (hw : code[pc]? = some w) (hlong : FirstWord.isShort w = false)
    (h : decodeLong code pc w = .ok i) : EncodedAt code pc i := by
  unfold decodeLong at h
  split at h
  · cases h
  case h_2 size hsize =>
    dsimp only at h
    split at h
    · cases h
    case isFalse hempty =>
      split at h
      · cases h
      case isFalse hcut =>
        split at h
        · cases h
        case h_2 op hop =>
          split at h
          · cases h
          case isFalse hfew =>
            cases h
            exact .long hw hlong hsize rfl (Nat.pos_of_ne_zero hempty) (Nat.le_of_not_lt hcut) hop
              (Nat.le_of_not_lt hfew)

theorem encodedAt_of_decode (h : decode code pc = .ok i) : EncodedAt code pc i := by
  unfold decode at h
  split at h
  · cases h
  case h_2 w hw =>
    split at h
    case isTrue hshort => exact encodedAt_of_decodeShort hw hshort h
    case isFalse hlong => exact encodedAt_of_decodeLong hw (eq_false_of_ne_true hlong) h

theorem EncodedAt.decode_eq (h : EncodedAt code pc i) : decode code pc = .ok i := by
  cases h with
  | single hw hshort hop hone =>
      simp only [decode, hw, hshort, if_true, decodeShort, hop, hone]
  | pair hw hshort hop htwo hnext =>
      simp only [decode, hw, hshort, if_true, decodeShort, hop, htwo, Bool.false_eq_true, if_false,
        hnext]
  | long hw hlong hsize hhalf hpos hcut hop hmin =>
      simp only [decode, hw, hlong, Bool.false_eq_true, if_false, decodeLong, hsize, hhalf, hop]
      rw [if_neg (Nat.ne_of_gt hpos), if_neg (Nat.not_lt_of_le hcut),
        if_neg (Nat.not_lt_of_le hmin)]

/-- An instruction is decoded exactly where it is encoded. -/
theorem decode_eq_ok_iff : decode code pc = .ok i ↔ EncodedAt code pc i :=
  ⟨encodedAt_of_decode, EncodedAt.decode_eq⟩

end Instruction

end BrickMachine
