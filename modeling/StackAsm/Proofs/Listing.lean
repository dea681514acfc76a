import StackAsm.Listing
import StackAsm.Proofs.PrintedText

/-!
# StackAsm.Proofs.Listing

Where a listing shows a question mark.

It stands for what cannot be named: a register that does not exist, or a label that has no record.
Numbers are written in digits, and the fixed texts are made of letters, digits and a few signs. So
no other character is ever said about a unit (`Image.IsForeign.mem_instruction_iff`), and there is a
question mark in the listing exactly if some unit of the code is of that kind
(`Image.question_mem_listing`).
-/

namespace StackAsm

/-! ### Units -/

namespace Image

/-- Whether a unit refers to a register that does not exist, or to a label without a record. -/
def Dangling (image : Image) : Instruction → Prop
  | .known .rgw w | .known .rgr w => Register.ofIndex? w = none
  | .known .llbl id => image.addressOf? id = none
  | _ => False

/-- A character that is no letter, no digit, and no sign that belongs to a kind of unit. -/
def IsForeign (c : Char) : Prop := c.isAlphanum = false ∧ c ∉ [' ', '#', '.', '-', '>']

instance (c : Char) : Decidable (IsForeign c) := inferInstanceAs (Decidable (_ ∧ _))

namespace IsForeign

variable {c : Char} (h : IsForeign c)

include h

theorem not_mem {text : String} (htext : text.toList.all fun d => ¬ IsForeign d) :
    c ∉ text.toList :=
  fun hc => of_decide_eq_true (List.all_eq_true.mp htext c hc) h

theorem mem_iff {text : String} (hmark : '?' ∈ text.toList)
    (htext : text.toList.all fun d => IsForeign d → d = '?') : c ∈ text.toList ↔ c = '?' :=
  ⟨fun hc => of_decide_eq_true (List.all_eq_true.mp htext c hc) h, fun hc => hc ▸ hmark⟩

theorem not_mem_name (op : Opcode) : c ∉ op.name.toList :=
  h.not_mem (by cases op <;> decide)

theorem not_mem_register (r : Register) : c ∉ r.name.toList :=
  h.not_mem (by cases r <;> decide)

theorem isDigit_eq : c.isDigit = false := by
  have hkind : (c.isAlpha || c.isDigit) = false := h.1
  exact (Bool.or_eq_false_iff.mp hkind).2

theorem isUpper_eq : c.isUpper = false := by
  have hkind : (c.isUpper || c.isLower || c.isDigit) = false := h.1
  exact (Bool.or_eq_false_iff.mp (Bool.or_eq_false_iff.mp hkind).1).1

theorem not_mem_hexWord (n : Nat) : c ∉ (Text.hexWord n).toList := by
  refine Text.not_mem_hexWord h.isDigit_eq h.isUpper_eq ?_ n
  rintro rfl
  exact absurd h.1 (by decide)

theorem not_mem_hexBytes (raw : List UInt8) : c ∉ (Text.hexBytes raw).toList := by
  refine Text.not_mem_hexBytes h.isDigit_eq h.isUpper_eq ?_ raw
  rintro rfl
  exact h.2 (by decide)

/-- Of these characters, only a question mark is ever said about a unit. -/
theorem mem_instruction_iff (image : Image) (i : Instruction) :
    c ∈ i.render.toList ∨ c ∈ (image.targetText i).toList ↔ c = '?' ∧ image.Dangling i := by
  have hempty : c ∉ "".toList := h.not_mem (by decide)
  have hspace : c ∉ " ".toList := h.not_mem (by decide)
  cases i with
  | unknown value operand =>
    have hunit : c ∉ ".unit ".toList := h.not_mem (by decide)
    simp only [Instruction.render, targetText, Dangling, String.toList_append, List.mem_append,
      hunit, hspace, h.not_mem_hexWord, hempty, or_self, and_false]
  | trailing raw =>
    have hbytes : c ∉ ".bytes ".toList := h.not_mem (by decide)
    simp only [Instruction.render, targetText, Dangling, String.toList_append, List.mem_append,
      hbytes, h.not_mem_hexBytes, hempty, or_self, and_false]
  | known op operand =>
    simp only [Instruction.render]
    cases op with
    | rgw | rgr =>
      have hmark : c ∈ " ?".toList ↔ c = '?' := h.mem_iff (by decide) (by decide)
      simp only [Instruction.renderKnown, targetText, Dangling]
      cases Register.ofIndex? operand with
      | none =>
        simp only [String.toList_append, List.mem_append, h.not_mem_name, hmark,
          h.not_mem_hexWord, hempty, false_or, or_false, and_true]
      | some r =>
        simp only [String.toList_append, List.mem_append, h.not_mem_name, hspace,
          h.not_mem_register, hempty, or_self, reduceCtorEq, and_false]
    | llbl =>
      have hid : c ∉ " #".toList := h.not_mem (by decide)
      have hdecimal := Text.not_mem_decimal h.isDigit_eq operand.toNat
      have harrow : c ∉ "  -> ".toList := h.not_mem (by decide)
      have hmark : c ∈ "  -> ?".toList ↔ c = '?' := h.mem_iff (by decide) (by decide)
      simp only [Instruction.renderKnown, targetText, Dangling]
      cases image.addressOf? operand with
      | none =>
        simp only [String.toList_append, List.mem_append, h.not_mem_name, hid, hdecimal, hmark,
          false_or, and_true]
      | some address =>
        simp only [String.toList_append, List.mem_append, h.not_mem_name, hid, hdecimal, harrow,
          h.not_mem_hexWord, or_self, reduceCtorEq, and_false]
    | add =>
      simp only [Instruction.renderKnown, targetText, Dangling]
      split <;>
        simp only [String.toList_append, List.mem_append, h.not_mem_name, hspace,
          h.not_mem_hexWord, hempty, or_self, and_false]
    | _ =>
      simp only [Instruction.renderKnown, targetText, Dangling, String.toList_append,
        List.mem_append, h.not_mem_name, hspace, h.not_mem_hexWord, hempty, or_self, and_false]

theorem not_mem_instruction (hc : c ≠ '?') (image : Image) (i : Instruction) :
    c ∉ i.render.toList ∧ c ∉ (image.targetText i).toList :=
  not_or.mp fun hmem => hc ((h.mem_instruction_iff image i).mp hmem).1

end IsForeign

theorem question_mem_instruction (image : Image) (i : Instruction) :
    '?' ∈ i.render.toList ∨ '?' ∈ (image.targetText i).toList ↔ image.Dangling i := by
  rw [IsForeign.mem_instruction_iff (by decide), and_iff_right rfl]

theorem question_mem_unitLine (image : Image) (unit : DisassembledUnit) :
    '?' ∈ (image.unitLine unit).toList ↔ image.Dangling unit.instruction := by
  rw [← question_mem_instruction]
  simp [unitLine]

/-! ### The whole text -/

theorem question_not_mem_headerLine (h : Header) : '?' ∉ (headerLine h).toList := by
  unfold headerLine
  split <;> simp

theorem question_not_mem_recordLine (r : LabelRecord) : '?' ∉ (recordLine r).toList := by
  simp [recordLine]

theorem question_mem_unitLines (image : Image) (unit : DisassembledUnit) :
    '?' ∈ (image.unitLines unit).flatMap String.toList ↔ image.Dangling unit.instruction := by
  rw [← question_mem_unitLine]
  simp [unitLines, List.flatMap_map]

/-- A listing has a question mark in it exactly if there is a unit that refers to nothing. -/
theorem question_mem_listing (image : Image) :
    '?' ∈ image.listing.toList ↔
      ∃ unit ∈ disassemble image.code, image.Dangling unit.instruction := by
  have hlines : '?' ∈ image.listing.toList ↔ '?' ∈ image.listingLines.flatMap String.toList := by
    simp [listing, String.toList_join, List.flatMap_map]
  have hunits : '?' ∈ (disassemble image.code).flatMap
        (fun unit => (image.unitLines unit).flatMap String.toList) ↔
      ∃ unit ∈ disassemble image.code, image.Dangling unit.instruction := by
    simp only [List.mem_flatMap (b := '?') (l := disassemble image.code), question_mem_unitLines]
  rw [hlines, ← hunits]
  simp [listingLines, List.flatMap_map, List.flatMap_assoc, question_not_mem_headerLine,
    question_not_mem_recordLine]

end Image

end StackAsm
