import BrickMachine.Proofs.Code.Locality
import BrickMachine.Proofs.Code.Operands

/-!
# What the words of an instruction settle

Decoding reads the words of the instruction that it finds and no others, so an instruction is the
same wherever its words stand, with one exception. A long instruction whose size stands in the next
word is as long as this size says, also where the size is that of a single word. The size is then
not one of the instruction's words (`SizeApart`): the instruction is not decoded without it, but it
is not the first operand, and it is where the code goes on.

`EncodedAt.congr` is the general statement: an instruction is encoded wherever code has the same
words as its own, and also the same next word if the size is apart.
-/

namespace BrickMachine

def FirstWord.hasSizeWord (w : UInt16) : Bool := !isShort w && sizeField w == sizeFollows

theorem FirstWord.hasSizeWord_iff {w : UInt16} :
    hasSizeWord w = true ↔ isShort w = false ∧ sizeField w = sizeFollows := by
  simp [hasSizeWord]

namespace Instruction

/-- The instruction is a single word, and its size stands in the word behind it. -/
def SizeApart (code : Array UInt16) (pc : Nat) (i : Instruction) : Prop :=
  i.length = 1 ∧ ∃ w, code[pc]? = some w ∧ FirstWord.hasSizeWord w = true

/-- The words of the instruction are decoded as this instruction, whatever comes before and
after them. -/
def DecodesAnywhere (code : Array UInt16) (pc : Nat) (i : Instruction) : Prop :=
  ∀ before after : Array UInt16,
    decode (before ++ code.extract pc (pc + i.length) ++ after) before.size = .ok i

/-- If the size stands in a word of its own, this word is the first operand. -/
def SizeIsOperand (code : Array UInt16) (pc : Nat) (i : Instruction) : Prop :=
  ∀ w, code[pc]? = some w → FirstWord.hasSizeWord w = true →
    ∃ size rest, code[pc + 1]? = some size ∧ i.operands = size :: rest

variable {code code' : Array UInt16} {pc pc' n : Nat} {w : UInt16} {i : Instruction}

/-! ### Code with the same words -/

theorem extract_congr (h : ∀ k < n, code'[pc' + k]? = code[pc + k]?) (hcut : pc + n ≤ code.size)
    (hcut' : pc' + n ≤ code'.size) :
    code'.extract (pc' + 1) (pc' + n) = code.extract (pc + 1) (pc + n) := by
  apply Array.ext_getElem?
  intro k
  rw [Array.getElem?_extract, Array.getElem?_extract, Nat.min_eq_left hcut, Nat.min_eq_left hcut',
    Nat.add_sub_add_left, Nat.add_sub_add_left, Nat.add_assoc, Nat.add_assoc]
  split
  · exact h (1 + k) (by omega)
  · rfl

theorem EncodedAt.congr (h : EncodedAt code pc i)
    (hown : ∀ k < i.length, code'[pc' + k]? = code[pc + k]?)
    (hnext : SizeApart code pc i → code'[pc' + 1]? = code[pc + 1]?) : EncodedAt code' pc' i := by
  cases h with
  | single hw hshort hop hone => exact .single ((hown 0 Nat.one_pos).trans hw) hshort hop hone
  | pair hw hshort hop htwo hsecond =>
      exact .pair ((hown 0 Nat.two_pos).trans hw) hshort hop htwo
        ((hown 1 Nat.one_lt_two).trans hsecond)
  | @long w size n op hw hlong hsize hhalf hpos hcut hop hmin =>
      have hcut' : pc' + n ≤ code'.size := by
        have hin : pc + (n - 1) < code.size := by omega
        have hlast := hown (n - 1) (Nat.sub_lt hpos Nat.one_pos)
        rw [Array.getElem?_eq_getElem hin] at hlast
        obtain ⟨hlt, _⟩ := Array.getElem?_eq_some_iff.1 hlast
        omega
      have hsize' : sizeAt? code' pc' w = some size := by
        rw [← hsize, sizeAt?, sizeAt?]
        split
        case isTrue hfollows =>
          -- The next word is one of the instruction's own, unless there is only one of these.
          by_cases hone : n = 1
          · rw [hnext ⟨hone, w, hw, FirstWord.hasSizeWord_iff.2 ⟨hlong, hfollows⟩⟩]
          · rw [hown 1 (by omega : 1 < n)]
        case isFalse => rfl
      rw [← extract_congr hown hcut hcut']
      exact .long ((hown 0 hpos).trans hw) hlong hsize' hhalf hpos hcut' hop hmin

theorem getElem?_copied (before after : Array UInt16) (hcut : pc + n ≤ code.size) {k : Nat}
    (hk : k < n) :
    (before ++ code.extract pc (pc + n) ++ after)[before.size + k]? = code[pc + k]? := by
  have hsize : (code.extract pc (pc + n)).size = n := by
    rw [Array.size_extract, Nat.min_eq_left hcut, Nat.add_sub_cancel_left]
  rw [Array.append_assoc, Array.getElem?_append_right (Nat.le_add_right _ _),
    Nat.add_sub_cancel_left, Array.getElem?_append_left (Nat.lt_of_lt_of_eq hk hsize.symm),
    Array.getElem?_extract, Nat.min_eq_left hcut, Nat.add_sub_cancel_left, if_pos hk]

/-- A copy of the instruction's words, and of the next word if the size is apart, is decoded as
the same instruction. -/
theorem decode_copied (h : decode code pc = .ok i) (hown : i.length ≤ n)
    (hcut : pc + n ≤ code.size) (hsize : SizeApart code pc i → 1 < n)
    (before after : Array UInt16) :
    decode (before ++ code.extract pc (pc + n) ++ after) before.size = .ok i := by
  refine ((encodedAt_of_decode h).congr ?_ ?_).decode_eq
  · intro k hk
    exact getElem?_copied before after hcut (Nat.lt_of_lt_of_le hk hown)
  · intro hapart
    exact getElem?_copied before after hcut (hsize hapart)

/-! ### Where the size stands -/

/-- A long instruction whose size stands in the next word has as many words as the size says. -/
theorem EncodedAt.sized (h : EncodedAt code pc i) (hw : code[pc]? = some w)
    (hsized : FirstWord.hasSizeWord w = true) :
    ∃ size, code[pc + 1]? = some size ∧ size.toNat / 2 = i.length ∧
      i.operands = (code.extract (pc + 1) (pc + i.length)).toList := by
  obtain ⟨hlong, hfollows⟩ := FirstWord.hasSizeWord_iff.1 hsized
  cases h with
  | single hfirst hshort | pair hfirst hshort =>
      cases hw.symm.trans hfirst
      cases hlong.symm.trans hshort
  | long hfirst _ hsize hhalf =>
      cases hw.symm.trans hfirst
      rw [sizeAt?, if_pos hfollows] at hsize
      obtain ⟨size, hnext, rfl⟩ := Option.map_eq_some_iff.1 hsize
      exact ⟨size, hnext, hhalf, rfl⟩

theorem toList_extract_cons {stop : Nat} {first : UInt16} (hfirst : code[pc]? = some first)
    (hstop : pc < stop) :
    (code.extract pc stop).toList = first :: (code.extract (pc + 1) stop).toList := by
  obtain ⟨hlt, rfl⟩ := Array.getElem?_eq_some_iff.1 hfirst
  have hcount : stop - pc = stop - (pc + 1) + 1 := by omega
  rw [Array.toList_extract, Array.toList_extract, List.extract_eq_take_drop,
    List.extract_eq_take_drop, List.drop_eq_getElem_cons hlt, hcount, List.take_succ_cons,
    Array.getElem_toList]

theorem sizeIsOperand_of_not_sizeApart (h : decode code pc = .ok i)
    (hwithin : ¬ SizeApart code pc i) : SizeIsOperand code pc i := by
  intro w hw hsized
  obtain ⟨size, hnext, _, hoperands⟩ := (encodedAt_of_decode h).sized hw hsized
  have hpos := length_pos_of_decode h
  have hone : i.length ≠ 1 := fun hone => hwithin ⟨hone, w, hw, hsized⟩
  exact ⟨size, _, hnext, hoperands.trans (toList_extract_cons hnext (by omega))⟩

/-- Where less than 2 ^ 11 stands there is no instruction: the word is a long instruction of
size 0. -/
theorem decode_of_lt (hw : code[pc]? = some w) (hlt : w.toNat < 0x800) :
    decode code pc = .error (.malformed .emptyInstruction) := by
  have hlong : FirstWord.isShort w = false := by
    rw [FirstWord.isShort, Nat.div_eq_of_lt hlt]
    rfl
  have hzero : FirstWord.sizeField w = 0 := Nat.div_eq_of_lt (by omega)
  simp [decode, hw, hlong, decodeLong, sizeAt?, hzero, FirstWord.sizeFollows]

theorem decode_singleton (hsized : FirstWord.hasSizeWord w = true) :
    decode #[w] 0 = .error (.malformed .sizeCut) := by
  obtain ⟨hlong, hfollows⟩ := FirstWord.hasSizeWord_iff.1 hsized
  simp [decode, hlong, decodeLong, sizeAt?, hfollows]

namespace SizeApart

theorem not_decodesAnywhere (h : SizeApart code pc i) : ¬ DecodesAnywhere code pc i := by
  obtain ⟨hone, w, hw, hsized⟩ := h
  intro hany
  have hown : code.extract pc (pc + i.length) = #[w] := by
    apply Array.toList_inj.1
    rw [hone, toList_extract_cons hw (Nat.lt_succ_self pc)]
    simp
  have halone := hany #[] #[]
  rw [hown, Array.append_empty, Array.empty_append] at halone
  cases (decode_singleton hsized).symm.trans halone

theorem operands_eq_nil (hapart : SizeApart code pc i) (h : decode code pc = .ok i) :
    i.operands = [] := by
  obtain ⟨hone, w, hw, hsized⟩ := hapart
  obtain ⟨_, _, _, hoperands⟩ := (encodedAt_of_decode h).sized hw hsized
  rw [hoperands, hone]
  simp

theorem not_sizeIsOperand (hapart : SizeApart code pc i) (h : decode code pc = .ok i) :
    ¬ SizeIsOperand code pc i := by
  intro hfirst
  have hnil := hapart.operands_eq_nil h
  obtain ⟨_, w, hw, hsized⟩ := hapart
  obtain ⟨size, rest, _, hoperands⟩ := hfirst w hw hsized
  cases hnil.symm.trans hoperands

/-- What comes next is the size, and it is no instruction. -/
theorem decode_next (hapart : SizeApart code pc i) (h : decode code pc = .ok i) :
    ∃ size, code[pc + i.length]? = some size ∧ size.toNat / 2 = 1 ∧
      decode code (pc + i.length) = .error (.malformed .emptyInstruction) := by
  obtain ⟨hone, w, hw, hsized⟩ := hapart
  obtain ⟨size, hnext, hlength, _⟩ := (encodedAt_of_decode h).sized hw hsized
  rw [hone] at hlength ⊢
  exact ⟨size, hnext, hlength, decode_of_lt hnext (by omega)⟩

end SizeApart

/-- A decoded instruction is at least one word long, lies inside the code and has the operands that
its opcode needs. Its own words settle which instruction it is, and a size word is its first
operand, unless the size is apart. In that case the opcode needs no operands and the instruction has
none, its word and the size together settle which instruction it is, and the code goes on at the
size, where nothing is decoded. -/
theorem decodesAnywhere_iff_not_sizeApart (h : decode code pc = .ok i) :
    (1 ≤ i.length ∧ pc + i.length ≤ code.size ∧ i.opcode.minOperands ≤ i.operands.length) ∧
    (DecodesAnywhere code pc i ↔ ¬ SizeApart code pc i) ∧
    (SizeIsOperand code pc i ↔ ¬ SizeApart code pc i) ∧
    (SizeApart code pc i →
      i.opcode.minOperands = 0 ∧ i.operands = [] ∧
      (∃ size, code[pc + i.length]? = some size ∧ size.toNat / 2 = 1 ∧
        decode code (pc + i.length) = .error (.malformed .emptyInstruction)) ∧
      ∀ before after : Array UInt16,
        decode (before ++ code.extract pc (pc + 2) ++ after) before.size = .ok i) := by
  have hinside := extent_of_decode h
  have hoperands := minOperands_le_of_decode h
  refine ⟨⟨length_pos_of_decode h, hinside, hoperands⟩, ⟨?_, ?_⟩, ⟨?_, ?_⟩, ?_⟩
  · intro hany hapart
    exact hapart.not_decodesAnywhere hany
  · intro hwithin
    exact decode_copied h (Nat.le_refl _) hinside fun hapart => absurd hapart hwithin
  · intro hfirst hapart
    exact hapart.not_sizeIsOperand h hfirst
  · exact sizeIsOperand_of_not_sizeApart h
  · intro hapart
    have hnil := hapart.operands_eq_nil h
    have hnext := hapart.decode_next h
    have hcut : pc + 2 ≤ code.size := by
      obtain ⟨_, hsize, _, _⟩ := hnext
      obtain ⟨hlt, _⟩ := Array.getElem?_eq_some_iff.1 hsize
      rw [hapart.1] at hlt
      exact hlt
    rw [hnil] at hoperands
    have hshort : i.length ≤ 2 := by
      rw [hapart.1]
      exact Nat.le_succ 1
    exact ⟨Nat.eq_zero_of_le_zero hoperands, hnil, hnext,
      decode_copied h hshort hcut fun _ => Nat.one_lt_two⟩

def oddSizedCode : Array UInt16 := #[0x2029, 0xE018, 13, 9, 1, 2, 3, 0x2029]

def oddSizedBuild : Instruction := ⟨.arrBuild, 0, 6, [13, 9, 1, 2, 3], false⟩

theorem oddSizedBuild_decodesAnywhere :
    decode oddSizedCode 1 = .ok oddSizedBuild ∧ DecodesAnywhere oddSizedCode 1 oddSizedBuild ∧
      SizeIsOperand oddSizedCode 1 oddSizedBuild := by
  have h : decode oddSizedCode 1 = .ok oddSizedBuild := rfl
  have hwithin : ¬ SizeApart oddSizedCode 1 oddSizedBuild := fun hapart =>
    absurd hapart.1 (by decide)
  obtain ⟨_, hany, hfirst, _⟩ := decodesAnywhere_iff_not_sizeApart h
  exact ⟨h, hany.2 hwithin, hfirst.2 hwithin⟩

/-- A STOP whose size, a single word, is apart: nothing is decoded from its own word, and the size
is not its operand. -/
theorem stop_not_decodesAnywhere :
    decode #[0xE029, 2] 0 = .ok ⟨.stop, 0, 1, [], false⟩ ∧
      ¬ DecodesAnywhere #[0xE029, 2] 0 ⟨.stop, 0, 1, [], false⟩ ∧
      ¬ SizeIsOperand #[0xE029, 2] 0 ⟨.stop, 0, 1, [], false⟩ := by
  have h : decode #[0xE029, 2] 0 = .ok ⟨.stop, 0, 1, [], false⟩ := rfl
  have hapart : SizeApart #[0xE029, 2] 0 ⟨.stop, 0, 1, [], false⟩ := ⟨rfl, 0xE029, rfl, rfl⟩
  exact ⟨h, hapart.not_decodesAnywhere, hapart.not_sizeIsOperand h⟩

end Instruction

end BrickMachine
