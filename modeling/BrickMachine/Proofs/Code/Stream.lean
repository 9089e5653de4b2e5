import BrickMachine.Code.Assembly
import BrickMachine.Proofs.Code.Encodings
import Mathlib.Data.List.Forall2

/-!
# Decoding assembled code

`Statement.Means s i` says that the statement `s` stands for the instruction `i`: which opcode,
flags and operands it is meant to have. Statements with flags, operands or differences that their
encoding has no room for stand for nothing.

`decodeFrom` decodes one instruction after the other. On the words of statements that stand for
instructions it finds these instructions, in this order, and ends where the words end. The step is
`Means.decode_words`: at the words of one statement, whatever stands before and after them,
`decode` finds its instruction and takes all of its words.
-/

namespace BrickMachine

namespace Instruction

/-- The instructions from `pc` on, each right behind the one before, and the place behind the last
of them. -/
def decodeFrom (code : Array UInt16) (pc : Nat) : Except DecodeError (List Instruction × Nat) :=
  if pc < code.size then
    match _h : decode code pc with
    | .ok i => (decodeFrom code (pc + i.length)).map fun (is, stop) => (i :: is, stop)
    | .error cause => .error cause
  else
    .ok ([], pc)
termination_by code.size - pc
decreasing_by
  have := length_pos_of_decode _h
  omega

theorem decodeFrom_end (code : Array UInt16) : decodeFrom code code.size = .ok ([], code.size) := by
  rw [decodeFrom, if_neg (Nat.lt_irrefl _)]

theorem decodeFrom_cons {code : Array UInt16} {pc stop : Nat} {i : Instruction}
    {is : List Instruction} (hi : decode code pc = .ok i)
    (his : decodeFrom code (pc + i.length) = .ok (is, stop)) (hpc : pc < code.size) :
    decodeFrom code pc = .ok (i :: is, stop) := by
  rw [decodeFrom, if_pos hpc]
  split
  case h_1 j hj =>
    cases hi.symm.trans hj
    rw [his]
    rfl
  case h_2 cause hcause => cases hi.symm.trans hcause

/-- The parts that a long instruction is made of. -/
theorem decode_eq_of_long {code : Array UInt16} {pc n : Nat} {w : UInt16} {op : Opcode}
    (hw : code[pc]? = some w) (hlong : FirstWord.isShort w = false)
    (hsize : sizeAt? code pc w = some (2 * n)) (hpos : 0 < n) (hcut : pc + n ≤ code.size)
    (hop : Opcode.ofByte? (FirstWord.opcodeByte w) = some op) (hmin : op.minOperands ≤ n - 1) :
    decode code pc
      = .ok ⟨op, FirstWord.flags w, n, (code.extract (pc + 1) (pc + n)).toList, false⟩ := by
  have hhalf : 2 * n / 2 = n := by omega
  exact (EncodedAt.long hw hlong hsize hhalf hpos hcut hop hmin).decode_eq

theorem getElem?_middle {α : Type} (pre post : List α) (x : α) (xs : List α) :
    (pre ++ x :: xs ++ post).toArray[pre.length]? = some x := by
  simp

theorem extract_middle {α : Type} (pre post : List α) (x : α) (xs : List α) {n : Nat}
    (hn : n = xs.length + 1) :
    ((pre ++ x :: xs ++ post).toArray.extract (pre.length + 1) (pre.length + n)).toList = xs := by
  have hdrop : (pre ++ x :: xs ++ post).drop (pre.length + 1) = xs ++ post := by
    simp [List.drop_append]
  have hlen : pre.length + n - (pre.length + 1) = xs.length := by omega
  rw [List.extract_toArray, List.extract_eq_take_drop, hdrop, hlen, List.take_left]

end Instruction

namespace Statement

def extendDifference (difference : UInt8) : UInt16 := difference.toInt8.toInt16.toUInt16

def sizeOperand (n : Nat) : UInt16 := UInt16.ofNat (2 * n)

/-- What a statement stands for. The first four rules are those of the three encodings, the
others say what the named statements are. -/
inductive Means : Statement → Instruction → Prop where
  | long {op : Opcode} {flags : UInt8} {operands : List UInt16} (hflags : flags ≤ 7)
      (hmin : op.minOperands ≤ operands.length) (hmax : operands.length ≤ 5) :
      Means (.long op flags operands) ⟨op, flags, operands.length + 1, operands, false⟩
  | sized {op : Opcode} {operands : List UInt16} (hmin : op.minOperands ≤ operands.length + 1)
      (hmax : operands.length ≤ 32765) :
      Means (.sized op operands)
        ⟨op, 0, operands.length + 2, sizeOperand (operands.length + 2) :: operands, false⟩
  | shortPair {op : Opcode} (hop : op = .mov ∨ op = .subCall) (difference : UInt8)
      (next : UInt16) :
      Means (.short op difference (some next))
        ⟨op, 0, 2, [next + extendDifference difference, next], true⟩
  | shortSingle {op : Opcode} (hop : op = .acquire ∨ op = .release) (difference : UInt8) :
      Means (.short op difference none) ⟨op, 0, 1, [extendDifference difference], true⟩
  | add (dst a b : UInt16) : Means (add dst a b) ⟨.add, 0, 4, [dst, a, b], false⟩
  | sub (dst a b : UInt16) : Means (sub dst a b) ⟨.sub, 0, 4, [dst, a, b], false⟩
  | mul (dst a b : UInt16) : Means (mul dst a b) ⟨.mul, 0, 4, [dst, a, b], false⟩
  | div (dst a b : UInt16) : Means (div dst a b) ⟨.div, 0, 4, [dst, a, b], false⟩
  | mod (dst a b : UInt16) : Means (mod dst a b) ⟨.mod, 0, 4, [dst, a, b], false⟩
  | and (dst a b : UInt16) : Means (and dst a b) ⟨.and, 0, 4, [dst, a, b], false⟩
  | or (dst a b : UInt16) : Means (or dst a b) ⟨.or, 0, 4, [dst, a, b], false⟩
  | xor (dst a b : UInt16) : Means (xor dst a b) ⟨.xor, 0, 4, [dst, a, b], false⟩
  | neg (dst src : UInt16) : Means (neg dst src) ⟨.neg, 0, 3, [dst, src], false⟩
  | not (dst src : UInt16) : Means (not dst src) ⟨.not, 0, 3, [dst, src], false⟩
  | abs (dst src : UInt16) : Means (abs dst src) ⟨.abs, 0, 3, [dst, src], false⟩
  | sqrt (dst src : UInt16) : Means (sqrt dst src) ⟨.sqrt, 0, 3, [dst, src], false⟩
  | cmp (c : Comparison) (dst a b : UInt16) :
      Means (cmp c dst a b) ⟨.cmp, c.flags, 4, [dst, a, b], false⟩
  | tst (c : Comparison) (dst a : UInt16) : Means (tst c dst a) ⟨.tst, c.flags, 3, [dst, a], false⟩
  | set (dst literal : UInt16) : Means (set dst literal) ⟨.set, 0, 3, [dst, literal], false⟩
  | mov (dst src : UInt16) : Means (mov dst src) ⟨.mov, 0, 3, [dst, src], false⟩
  | movShort (dst src : UInt16) (hlow : -128 ≤ signedWord (dst - src))
      (hhigh : signedWord (dst - src) ≤ 127) :
      Means (movShort dst src) ⟨.mov, 0, 2, [dst, src], true⟩
  | index (dst array position : UInt16) :
      Means (index dst array position) ⟨.index, 0, 4, [dst, array, position], false⟩
  | replace (dst src position new : UInt16) :
      Means (replace dst src position new) ⟨.replace, 0, 5, [dst, src, position, new], false⟩
  | arrSize (dst array : UInt16) : Means (arrSize dst array) ⟨.arrSize, 0, 3, [dst, array], false⟩
  | arrBuild (dst : UInt16) (sources : List UInt16) (hmax : sources.length + 1 ≤ 32765) :
      Means (arrBuild dst sources)
        ⟨.arrBuild, 0, sources.length + 3, sizeOperand (sources.length + 3) :: dst :: sources,
         false⟩
  | arrSubset (dst src position length : UInt16) :
      Means (arrSubset dst src position length)
        ⟨.arrSubset, 0, 5, [dst, src, position, length], false⟩
  | arrInit (dst value count : UInt16) :
      Means (arrInit dst value count) ⟨.arrInit, 0, 4, [dst, value, count], false⟩
  | jmp (offset : UInt16) : Means (jmp offset) ⟨.jmp, 0, 2, [offset], false⟩
  | brCmp (c : Comparison) (offset a b : UInt16) :
      Means (brCmp c offset a b) ⟨.brCmp, c.flags, 4, [offset, a, b], false⟩
  | brTst (c : Comparison) (offset a : UInt16) :
      Means (brTst c offset a) ⟨.brTst, c.flags, 3, [offset, a], false⟩
  | stop : Means stop ⟨.stop, 0, 2, [noEntry], false⟩
  | finClump : Means finClump ⟨.finClump, 0, 3, [noEntry, noEntry], false⟩
  | finClumpImmed (clump : UInt16) :
      Means (finClumpImmed clump) ⟨.finClumpImmed, 0, 2, [clump], false⟩
  | acquire (mutex : UInt16) : Means (acquire mutex) ⟨.acquire, 0, 2, [mutex], false⟩
  | release (mutex : UInt16) : Means (release mutex) ⟨.release, 0, 2, [mutex], false⟩
  | subCall (clump slot : UInt16) :
      Means (subCall clump slot) ⟨.subCall, 0, 3, [clump, slot], false⟩
  | subRet (slot : UInt16) : Means (subRet slot) ⟨.subRet, 0, 2, [slot], false⟩
  | syscall (id cluster : UInt16) :
      Means (syscall id cluster) ⟨.syscall, 0, 3, [id, cluster], false⟩
  | setIn (src channel property : UInt16) :
      Means (setIn src channel property) ⟨.setIn, 0, 4, [src, channel, property], false⟩
  | setOut (channel : UInt16) (settings : List (UInt16 × UInt16))
      (hmax : 2 * settings.length + 1 ≤ 32765) :
      Means (setOut channel settings)
        ⟨.setOut, 0, 2 * settings.length + 3,
         sizeOperand (2 * settings.length + 3) :: channel :: settings.flatMap (fun s => [s.1, s.2]),
         false⟩
  | getIn (dst channel property : UInt16) :
      Means (getIn dst channel property) ⟨.getIn, 0, 4, [dst, channel, property], false⟩
  | getOut (dst channel property : UInt16) :
      Means (getOut dst channel property) ⟨.getOut, 0, 4, [dst, channel, property], false⟩
  | wait (duration : UInt16) : Means (wait duration) ⟨.wait, 0, 3, [noEntry, duration], false⟩
  | getTick (dst : UInt16) : Means (getTick dst) ⟨.getTick, 0, 2, [dst], false⟩

/-! ### First words -/

theorem toNat_longWord {size : Nat} {flags : UInt8} (op : Opcode) (hsize : size < 16)
    (hflags : flags ≤ 7) :
    (longWord size flags op).toNat = size * 0x1000 + flags.toNat * 0x100 + op.byte.toNat := by
  have hflags : flags.toNat ≤ 7 := hflags
  have hbyte := op.byte.toNat_lt
  rw [longWord, UInt16.toNat_ofNat', Nat.mod_eq_of_lt hsize, Nat.mod_eq_of_lt (by omega)]
  omega

theorem isShort_longWord {size : Nat} {flags : UInt8} (op : Opcode) (hsize : size < 16)
    (hflags : flags ≤ 7) : FirstWord.isShort (longWord size flags op) = false := by
  have hflags' : flags.toNat ≤ 7 := hflags
  have hbyte := op.byte.toNat_lt
  rw [FirstWord.isShort, toNat_longWord op hsize hflags, beq_eq_false_iff_ne]
  omega

theorem sizeField_longWord {size : Nat} {flags : UInt8} (op : Opcode) (hsize : size < 16)
    (hflags : flags ≤ 7) : FirstWord.sizeField (longWord size flags op) = size := by
  have hflags' : flags.toNat ≤ 7 := hflags
  have hbyte := op.byte.toNat_lt
  rw [FirstWord.sizeField, toNat_longWord op hsize hflags]
  omega

theorem opcodeByte_longWord {size : Nat} {flags : UInt8} (op : Opcode) (hsize : size < 16)
    (hflags : flags ≤ 7) : FirstWord.opcodeByte (longWord size flags op) = op.byte := by
  have hbyte := op.byte.toNat_lt
  have hlow : (size * 0x1000 + flags.toNat * 0x100 + op.byte.toNat) % 0x100 = op.byte.toNat := by
    omega
  rw [FirstWord.opcodeByte, toNat_longWord op hsize hflags, hlow, UInt8.ofNat_toNat]

theorem flags_longWord {size : Nat} {flags : UInt8} (op : Opcode) (hsize : size < 16)
    (hflags : flags ≤ 7) : FirstWord.flags (longWord size flags op) = flags := by
  have hflags' : flags.toNat ≤ 7 := hflags
  have hbyte := op.byte.toNat_lt
  have hmid : (size * 0x1000 + flags.toNat * 0x100 + op.byte.toNat) / 0x100 % 16
      = flags.toNat := by
    omega
  rw [FirstWord.flags, toNat_longWord op hsize hflags, hmid, UInt8.ofNat_toNat]

theorem decode_long_words {op : Opcode} {flags : UInt8} {operands : List UInt16}
    (hflags : flags ≤ 7) (hmin : op.minOperands ≤ operands.length) (hmax : operands.length ≤ 5)
    (pre post : List UInt16) :
    Instruction.decode (pre ++ (long op flags operands).words ++ post).toArray pre.length
      = .ok ⟨op, flags, operands.length + 1, operands, false⟩ := by
  have hbound : 2 * (operands.length + 1) < 16 := by omega
  have hfield := sizeField_longWord op hbound hflags
  have hhere : FirstWord.sizeField (longWord (2 * (operands.length + 1)) flags op)
      ≠ FirstWord.sizeFollows := by
    rw [hfield, FirstWord.sizeFollows]
    omega
  have hop := opcodeByte_longWord op hbound hflags
  rw [words]
  refine (Instruction.decode_eq_of_long (n := operands.length + 1)
    (Instruction.getElem?_middle _ _ _ _) (isShort_longWord op hbound hflags) ?_
    (Nat.succ_pos _) (by simp) (hop ▸ Opcode.ofByte?_byte op) hmin).trans ?_
  · rw [Instruction.sizeAt?, if_neg hhere, hfield]
  · rw [flags_longWord op hbound hflags, Instruction.extract_middle _ _ _ _ rfl]

theorem decode_sized_words {op : Opcode} {operands : List UInt16}
    (hmin : op.minOperands ≤ operands.length + 1) (hmax : operands.length ≤ 32765)
    (pre post : List UInt16) :
    Instruction.decode (pre ++ (sized op operands).words ++ post).toArray pre.length
      = .ok ⟨op, 0, operands.length + 2, sizeOperand (operands.length + 2) :: operands, false⟩ := by
  have hbound : FirstWord.sizeFollows < 16 := by decide
  have hflags : (0 : UInt8) ≤ 7 := by decide
  have hsize : (sizeOperand (operands.length + 2)).toNat = 2 * (operands.length + 2) := by
    rw [sizeOperand, UInt16.toNat_ofNat', Nat.mod_eq_of_lt (by omega)]
  have hop := opcodeByte_longWord op hbound hflags
  change Instruction.decode (pre ++ longWord FirstWord.sizeFollows 0 op ::
    (sizeOperand (operands.length + 2) :: operands) ++ post).toArray pre.length = _
  refine (Instruction.decode_eq_of_long (n := operands.length + 2)
    (Instruction.getElem?_middle _ _ _ _) (isShort_longWord op hbound hflags) ?_
    (Nat.succ_pos _) (by simp) (hop ▸ Opcode.ofByte?_byte op) hmin).trans ?_
  · rw [Instruction.sizeAt?, if_pos (sizeField_longWord op hbound hflags)]
    simp [hsize]
  · rw [flags_longWord op hbound hflags,
      Instruction.extract_middle (n := operands.length + 2) _ _ _ _ rfl]

/-! ### Short forms -/

theorem toNat_extendDifference (difference : UInt8) :
    (extendDifference difference).toNat
      = if difference.toNat < 0x80 then difference.toNat else difference.toNat + 0xFF00 := by
  have hd := difference.toNat_lt
  change (difference.toBitVec.signExtend 16).toNat = _
  rw [BitVec.toNat_signExtend, BitVec.msb_eq_decide]
  simp only [BitVec.toNat_setWidth, UInt8.toNat_toBitVec, decide_eq_true_eq]
  split <;> split <;> omega

theorem toNat_shortWord {op : Opcode} {n : UInt8} (hop : op.shortCode? = some n)
    (difference : UInt8) :
    n.toNat < 8 ∧
      (shortWord op difference).toNat = 0x800 + n.toNat * 0x100 + difference.toNat := by
  have hd := difference.toNat_lt
  have hn : n.toNat < 8 := by
    cases op <;> cases hop <;> decide
  refine ⟨hn, ?_⟩
  rw [shortWord, hop, Option.getD_some, UInt16.toNat_ofNat', Nat.mod_eq_of_lt (by omega)]

theorem isShort_shortWord {op : Opcode} {n : UInt8} (hop : op.shortCode? = some n)
    (difference : UInt8) : FirstWord.isShort (shortWord op difference) = true := by
  obtain ⟨hn, hword⟩ := toNat_shortWord hop difference
  have hd := difference.toNat_lt
  rw [FirstWord.isShort, hword, beq_iff_eq]
  omega

theorem shortCode_shortWord {op : Opcode} {n : UInt8} (hop : op.shortCode? = some n)
    (difference : UInt8) :
    Opcode.ofShortCode? (FirstWord.shortCode (shortWord op difference)) = some op := by
  obtain ⟨hn, hword⟩ := toNat_shortWord hop difference
  have hd := difference.toNat_lt
  have hmid : (0x800 + n.toNat * 0x100 + difference.toNat) / 0x100 % 8 = n.toNat := by omega
  rw [FirstWord.shortCode, hword, hmid, UInt8.ofNat_toNat]
  exact Opcode.ofShortCode?_of_shortCode? hop

theorem difference_shortWord {op : Opcode} {n : UInt8} (hop : op.shortCode? = some n)
    (difference : UInt8) :
    FirstWord.difference (shortWord op difference) = extendDifference difference := by
  obtain ⟨hn, hword⟩ := toNat_shortWord hop difference
  have hd := difference.toNat_lt
  have hlow : (0x800 + n.toNat * 0x100 + difference.toNat) % 0x100 = difference.toNat := by omega
  apply UInt16.toNat_inj.1
  rw [FirstWord.difference, hword, hlow, toNat_extendDifference, UInt16.toNat_ofNat']
  split <;> omega

theorem decode_short_pair {op : Opcode} (hop : op = .mov ∨ op = .subCall) (difference : UInt8)
    (next : UInt16) (pre post : List UInt16) :
    Instruction.decode (pre ++ (short op difference (some next)).words ++ post).toArray pre.length
      = .ok ⟨op, 0, 2, [next + extendDifference difference, next], true⟩ := by
  obtain ⟨n, hcode, hlong⟩ : ∃ n, op.shortCode? = some n ∧ Instruction.isOneWord op = false := by
    rcases hop with rfl | rfl
    · exact ⟨0, rfl, rfl⟩
    · exact ⟨3, rfl, rfl⟩
  have hfirst := Instruction.getElem?_middle pre post (shortWord op difference) [next]
  simp only [words, Option.toList_some, Instruction.decode, hfirst,
    isShort_shortWord hcode difference, if_true, Instruction.decodeShort,
    shortCode_shortWord hcode difference, difference_shortWord hcode difference, hlong]
  simp

theorem decode_short_single {op : Opcode} (hop : op = .acquire ∨ op = .release)
    (difference : UInt8) (pre post : List UInt16) :
    Instruction.decode (pre ++ (short op difference none).words ++ post).toArray pre.length
      = .ok ⟨op, 0, 1, [extendDifference difference], true⟩ := by
  obtain ⟨n, hcode, hsingle⟩ : ∃ n, op.shortCode? = some n ∧ Instruction.isOneWord op = true := by
    rcases hop with rfl | rfl
    · exact ⟨1, rfl, rfl⟩
    · exact ⟨2, rfl, rfl⟩
  have hfirst := Instruction.getElem?_middle pre post (shortWord op difference) []
  simp only [words, Option.toList_none, Instruction.decode, hfirst,
    isShort_shortWord hcode difference, if_true, Instruction.decodeShort,
    shortCode_shortWord hcode difference, difference_shortWord hcode difference, hsingle]

/-- A word that is a signed byte is given back by its low byte. -/
theorem extendDifference_toUInt8 {w : UInt16} (hlow : -128 ≤ signedWord w)
    (hhigh : signedWord w ≤ 127) : extendDifference w.toUInt8 = w := by
  have hw := w.toNat_lt
  apply UInt16.toNat_inj.1
  rw [toNat_extendDifference, UInt16.toNat_toUInt8]
  unfold signedWord at hlow hhigh
  split at hlow <;> split <;> omega

/-! ### Statements in code -/

/-- The operands that SETOUT takes for its settings. -/
theorem length_settings (settings : List (UInt16 × UInt16)) :
    (settings.flatMap (fun s => [s.1, s.2])).length = 2 * settings.length := by
  induction settings with
  | nil => rfl
  | cons s settings ih =>
      rw [List.flatMap_cons, List.length_append, ih, List.length_cons]
      exact Nat.add_comm 2 _

namespace Means

theorem length_words {s : Statement} {i : Instruction} (h : Means s i) :
    s.words.length = i.length := by
  cases h with
  | setOut channel settings _ =>
      exact congrArg (· + 3) (length_settings settings)
  | _ => rfl

theorem length_pos {s : Statement} {i : Instruction} (h : Means s i) : 0 < i.length := by
  cases h <;> exact Nat.succ_pos _

/-- The words of a statement that stands for an instruction are decoded as this instruction,
whatever comes before and after them. -/
theorem decode_words {s : Statement} {i : Instruction} (h : Means s i) (pre post : List UInt16) :
    Instruction.decode (pre ++ s.words ++ post).toArray pre.length = .ok i := by
  have hzero : (0 : UInt8) ≤ 7 := by decide
  have hcomparison (c : Comparison) : c.flags ≤ 7 := by cases c <;> decide
  cases h with
  | long hflags hmin hmax => exact decode_long_words hflags hmin hmax pre post
  | sized hmin hmax => exact decode_sized_words hmin hmax pre post
  | shortPair hop difference next => exact decode_short_pair hop difference next pre post
  | shortSingle hop difference => exact decode_short_single hop difference pre post
  | movShort dst src hlow hhigh =>
      have hpair := decode_short_pair (Or.inl rfl) (dst - src).toUInt8 src pre post
      rw [extendDifference_toUInt8 hlow hhigh, UInt16.add_comm, UInt16.sub_add_cancel] at hpair
      exact hpair
  | arrBuild dst sources hmax =>
      exact @decode_sized_words .arrBuild (dst :: sources) (Nat.le_add_left 2 _) hmax pre post
  | setOut channel settings hmax =>
      have hlen := length_settings settings
      rw [← hlen] at hmax ⊢
      exact @decode_sized_words .setOut (channel :: _) (Nat.le_add_left 2 _) hmax pre post
  | cmp c | tst c | brCmp c | brTst c =>
      exact decode_long_words (hcomparison c) (by simp [Opcode.minOperands]) (by simp) pre post
  | _ => exact decode_long_words hzero (by simp [Opcode.minOperands]) (by simp) pre post

end Means

end Statement

open Statement

/-- Code is decoded statement by statement, from wherever its words start. -/
theorem decodeFrom_assemble {ss : List Statement} {is : List Instruction}
    (h : List.Forall₂ Means ss is) (pre : List UInt16) :
    Instruction.decodeFrom (pre ++ assemble ss).toArray pre.length
      = .ok (is, pre.length + (assemble ss).length) := by
  induction h generalizing pre with
  | nil =>
      have hend := Instruction.decodeFrom_end (pre ++ assemble []).toArray
      simpa using hend
  | @cons s i ss is hs _ ih =>
      have hdecode := hs.decode_words pre (assemble ss)
      have hrest := ih (pre ++ s.words)
      have hlen := hs.length_words
      rw [List.length_append, hlen] at hrest
      rw [assemble_cons, ← List.append_assoc, List.length_append, hlen, ← Nat.add_assoc]
      refine Instruction.decodeFrom_cons hdecode hrest ?_
      have hpos := hs.length_pos
      simp [hlen]
      omega

theorem payloadLength_sizeOperand {n : Nat} (h : n ≤ 32764) :
    payloadLength (sizeOperand (n + 3)) = n := by
  rw [payloadLength, sizeOperand, UInt16.toNat_ofNat', Nat.mod_eq_of_lt (by omega)]
  omega

theorem pairs_settings (settings : List (UInt16 × UInt16)) :
    pairs (settings.flatMap (fun s => [s.1, s.2])) = settings := by
  induction settings with
  | nil => rfl
  | cons s settings ih =>
      change s :: pairs (settings.flatMap (fun s => [s.1, s.2])) = _
      rw [ih]

/-- Code that is put down as statements is decoded as the instructions that these stand for, one
for each statement and in their order, and ends with its last word. ARRBUILD and SETOUT carry a
size from which the machine finds the number of their sources again. -/
theorem decodeFrom_assemble_zero {ss : List Statement} {is : List Instruction}
    (h : List.Forall₂ Means ss is) :
    Instruction.decodeFrom (assemble ss).toArray 0 = .ok (is, (assemble ss).length) ∧
    (∀ (dst : UInt16) (sources : List UInt16), sources.length + 1 ≤ 32765 →
      ∃ first size, (arrBuild dst sources).words = first :: size :: dst :: sources ∧
        payloadLength size = sources.length ∧
        Operation.of? .arrBuild 0 (size :: dst :: sources) = some (.arrayBuild dst sources)) ∧
    (∀ (channel : UInt16) (settings : List (UInt16 × UInt16)), 2 * settings.length + 1 ≤ 32765 →
      ∃ first size payload, (setOut channel settings).words = first :: size :: channel :: payload ∧
        payload.length = 2 * settings.length ∧ payloadLength size = payload.length ∧
        Operation.of? .setOut 0 (size :: channel :: payload)
          = some (.setOutput channel settings)) := by
  refine ⟨?_, ?_, ?_⟩
  · have hstream := decodeFrom_assemble h []
    simpa using hstream
  · intro dst sources hmax
    have hcount := payloadLength_sizeOperand (Nat.le_of_succ_le_succ hmax)
    refine ⟨_, _, rfl, hcount, ?_⟩
    change some (Operation.arrayBuild dst
      (sources.take (payloadLength (sizeOperand (sources.length + 3))))) = _
    rw [hcount, List.take_length]
  · intro channel settings hmax
    have hlen := length_settings settings
    have hpairs := pairs_settings settings
    have hcount := payloadLength_sizeOperand (Nat.le_of_succ_le_succ (hlen ▸ hmax))
    refine ⟨_, _, _, rfl, hlen, hcount, ?_⟩
    change some (Operation.setOutput channel (pairs (List.take (payloadLength
      (sizeOperand ((settings.flatMap (fun s => [s.1, s.2])).length + 3))) _))) = _
    rw [hcount, List.take_length, hpairs]

def mixedStatements : List Statement :=
  [arrBuild 9 [1, 2, 3], movShort 3 5, short .acquire 0xFF none, brCmp .notEqual 0xFFFE 3 9,
   long .stop 7 []]

def mixedInstructions : List Instruction :=
  [⟨.arrBuild, 0, 6, [12, 9, 1, 2, 3], false⟩, ⟨.mov, 0, 2, [3, 5], true⟩,
   ⟨.acquire, 0, 1, [0xFFFF], true⟩, ⟨.brCmp, 5, 4, [0xFFFE, 3, 9], false⟩,
   ⟨.stop, 7, 1, [], false⟩]

theorem decodeFrom_mixedStatements :
    List.Forall₂ Means mixedStatements mixedInstructions ∧
      Instruction.decodeFrom (assemble mixedStatements).toArray 0 =
        .ok (mixedInstructions, 14) := by
  have h : List.Forall₂ Means mixedStatements mixedInstructions :=
    .cons (.arrBuild 9 [1, 2, 3] (by decide)) <|
      .cons (.movShort 3 5 (by decide) (by decide)) <|
      .cons (.shortSingle (Or.inl rfl) 0xFF) <|
      .cons (.brCmp .notEqual 0xFFFE 3 9) <|
      .cons (.long (by decide) (by decide) (by decide)) .nil
  exact ⟨h, (decodeFrom_assemble_zero h).1⟩

end BrickMachine
