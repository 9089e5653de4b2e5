import BrickMachine.Code.Listing
import BrickMachine.Proofs.Code.Locality
import Mathlib.Algebra.Ring.Nat

/-!
# What a listing covers

A listing goes through the code from its first word to its last and leaves nothing out. A line
takes the words of the instruction at its place, or a single word if there is none, and the next
line begins right behind it. `Sweeps code pc lines` says that the lines do this from `pc` on.

What a line shows of its content is an instruction's comparison and branch target, or the reason why
there is no instruction.
-/

namespace BrickMachine

namespace Line

def error? (l : Line) : Option String :=
  match l.content with
  | .ok _ => none
  | .error cause => some (cause.message l.pc)

def comparison? (l : Line) : Option String := l.content.toOption.bind (·.comparisonSymbol?)

def target? (l : Line) : Option Int := l.content.toOption.bind (·.branchTarget? l.pc)

/-- These are the fields that the line has in structured output. -/
theorem toJson_eq (l : Line) :
    l.toJson = .object
      ([("pc", .nat l.pc), ("words", .list (Json.nat ·.toNat) l.words),
          ("opcode", (l.content.toOption.map (Json.string ·.opcode.name)).getD .null),
          ("short", .bool ((l.content.toOption.map (·.short)).getD false))]
        ++ (l.comparison?.map fun s => ("mode", Json.string s)).toList
        ++ [("operands",
          .list OperandView.toJson ((l.content.toOption.map (·.operandViews)).getD []))]
        ++ (l.target?.map fun t => ("target", Json.int t)).toList
        ++ (l.error?.map fun text => ("error", Json.string text)).toList) := by
  obtain ⟨pc, words, content⟩ := l
  cases content with
  | error cause => rfl
  | ok i =>
      simp [toJson, comparison?, target?, error?, Except.toOption]

def extent (l : Line) : Nat :=
  match l.content with
  | .ok i => i.length
  | .error _ => 1

/-- The line is the one for the code at its place. -/
structure Shows (code : Array UInt16) (l : Line) : Prop where
  inside : l.pc < code.size
  content : l.content = Instruction.decode code l.pc
  words : l.words = (code.extract l.pc (l.pc + l.extent)).toList

namespace Shows

variable {code : Array UInt16} {l : Line}

theorem extent_pos (h : l.Shows code) : 0 < l.extent := by
  unfold extent
  cases hcontent : l.content with
  | error cause => exact Nat.one_pos
  | ok i => exact Instruction.length_pos_of_decode (h.content.symm.trans hcontent)

theorem extent_le (h : l.Shows code) : l.pc + l.extent ≤ code.size := by
  unfold extent
  cases hcontent : l.content with
  | error cause => exact h.inside
  | ok i => exact Instruction.extent_of_decode (h.content.symm.trans hcontent)

theorem length_words (h : l.Shows code) : l.words.length = l.extent := by
  have hle := h.extent_le
  rw [h.words, Array.length_toList, Array.size_extract]
  omega

/-- The words of a line are the next words of the code. -/
theorem drop_eq (h : l.Shows code) :
    code.toList.drop l.pc = l.words ++ code.toList.drop (l.pc + l.words.length) := by
  have hwords : l.words = (code.toList.drop l.pc).take l.words.length := by
    rw [h.length_words, h.words, Array.toList_extract, List.extract_eq_take_drop,
      Nat.add_sub_cancel_left]
  calc code.toList.drop l.pc
      = (code.toList.drop l.pc).take l.words.length
          ++ (code.toList.drop l.pc).drop l.words.length := (List.take_append_drop _ _).symm
    _ = l.words ++ code.toList.drop (l.pc + l.words.length) := by rw [← hwords, List.drop_drop]

end Shows

end Line

/-! ### The sweep -/

/-- Lines that show the code from `pc` to its end, one behind the other. -/
inductive Sweeps (code : Array UInt16) : Nat → List Line → Prop where
  | done {pc : Nat} (h : code.size ≤ pc) : Sweeps code pc []
  | line {l : Line} {lines : List Line} (h : l.Shows code)
      (rest : Sweeps code (l.pc + l.words.length) lines) : Sweeps code l.pc (l :: lines)

theorem sweeps_listingFrom (code : Array UInt16) (pc : Nat) :
    Sweeps code pc (listingFrom code pc) := by
  induction pc using listingFrom.induct code with
  | case1 pc hpc i hi ih =>
      have hshows : Line.Shows code ⟨pc, (code.extract pc (pc + i.length)).toList, .ok i⟩ :=
        ⟨hpc, hi.symm, rfl⟩
      rw [listingFrom, if_pos hpc]
      split
      case h_1 i' hi' =>
        cases hi.symm.trans hi'
        apply Sweeps.line hshows
        rw [hshows.length_words]
        exact ih
      case h_2 cause hcause => cases hi.symm.trans hcause
  | case2 pc hpc cause hcause ih =>
      have hshows : Line.Shows code ⟨pc, (code.extract pc (pc + 1)).toList, .error cause⟩ :=
        ⟨hpc, hcause.symm, rfl⟩
      rw [listingFrom, if_pos hpc]
      split
      case h_1 i hi => cases hcause.symm.trans hi
      case h_2 cause' hcause' =>
        cases hcause.symm.trans hcause'
        apply Sweeps.line hshows
        rw [hshows.length_words]
        exact ih
  | case3 pc hpc =>
      rw [listingFrom, if_neg hpc]
      exact Sweeps.done (Nat.le_of_not_lt hpc)

namespace Sweeps

variable {code : Array UInt16} {pc : Nat} {lines before after : List Line} {l : Line}

theorem flatMap_words (h : Sweeps code pc lines) :
    lines.flatMap Line.words = code.toList.drop pc := by
  induction h with
  | done h => exact (List.drop_eq_nil_of_le h).symm
  | line h _ ih => rw [List.flatMap_cons, ih, h.drop_eq]

theorem shows_of_mem (h : Sweeps code pc lines) (hl : l ∈ lines) : l.Shows code := by
  induction h with
  | done => cases hl
  | line h _ ih =>
      rcases List.mem_cons.1 hl with rfl | hl
      · exact h
      · exact ih hl

/-- A line is as far from the first one as the lines between have words. -/
theorem pc_eq (h : Sweeps code pc lines) (hlines : lines = before ++ l :: after) :
    l.pc = pc + (before.map (·.words.length)).sum := by
  induction h generalizing before with
  | done => simp at hlines
  | @line first rest h _ ih =>
      cases before with
      | nil =>
          cases hlines
          rfl
      | cons b before =>
          obtain ⟨rfl, hrest⟩ := List.cons.inj hlines
          rw [ih hrest, List.map_cons, List.sum_cons, Nat.add_assoc]

end Sweeps

theorem sweeps_listing (code : Array UInt16) : Sweeps code 0 (listing code) :=
  sweeps_listingFrom code 0

end BrickMachine
