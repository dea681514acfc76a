import Mathlib.Data.List.DropRight
import StackAsm.Source.Line

/-!
# StackAsm.Proofs.LineForms

The forms of lines, as conditions on their text.

What is left of a text after trimming has no blank at either end (`Text.trimmed_trimChars`), and
nothing is taken from such a text (`Text.Trimmed.trimChars_eq`). On texts of this kind, a rule of
the classification is a condition on the text (`Line.ofTrimmed_eq_label`,
`Line.ofTrimmed_eq_instruction`), so that what a line says can be traced back to how it is spelled.
-/

namespace StackAsm

namespace Text

/-- A text without a blank at either end. -/
structure Trimmed (cs : List Char) : Prop where
  head : ∀ c ∈ cs.head?, isBlank c = false
  last : ∀ c ∈ cs.getLast?, isBlank c = false

theorem trimEnd_eq_rdropWhile (cs : List Char) : trimEnd cs = cs.rdropWhile isBlank := rfl

theorem trimEnd_eq_self {cs : List Char} (h : ∀ c ∈ cs.getLast?, isBlank c = false) :
    trimEnd cs = cs := by
  rw [trimEnd_eq_rdropWhile, List.rdropWhile_eq_self_iff]
  intro hne
  simp [h _ (List.getLast?_eq_some_getLast hne)]

theorem head?_trimStart {cs : List Char} {c : Char} (h : c ∈ (trimStart cs).head?) :
    isBlank c = false := by
  have hnot := List.head?_dropWhile_not isBlank cs
  rw [show (cs.dropWhile isBlank).head? = some c from h] at hnot
  exact hnot

theorem getLast?_trimEnd {cs : List Char} {c : Char} (h : c ∈ (trimEnd cs).getLast?) :
    isBlank c = false := by
  obtain ⟨hne, rfl⟩ := List.mem_getLast?_eq_getLast h
  exact Bool.eq_false_iff.mpr (List.rdropWhile_last_not isBlank cs hne)

theorem trimmed_trimChars (cs : List Char) : Trimmed (trimChars cs) where
  head c hc := by
    -- dropping blanks at the end keeps the first character, as long as there is one
    obtain ⟨rest, hrest⟩ := List.rdropWhile_prefix isBlank (trimStart cs)
    have hstart : c ∈ (trimStart cs).head? := by
      rw [← hrest]
      exact List.mem_head?_append_of_mem_head? hc
    exact head?_trimStart hstart
  last c hc := getLast?_trimEnd hc

theorem Trimmed.trimChars_eq {cs : List Char} (h : Trimmed cs) : trimChars cs = cs := by
  have hstart : trimStart cs = cs := by
    cases cs with
    | nil => rfl
    | cons c cs => exact List.dropWhile_cons_of_neg (by simp [h.head c rfl])
  rw [trimChars, hstart, trimEnd_eq_self h.last]

/-- A text is another one with the blanks at both ends taken off. -/
structure TrimsTo (cs t : List Char) : Prop where
  trimmed : Trimmed t
  around : ∃ front back, (∀ c ∈ front, isBlank c = true) ∧ (∀ c ∈ back, isBlank c = true) ∧
    cs = front ++ t ++ back

/-- Trimming takes off blanks, and all that there are. -/
theorem trimsTo_trimChars (cs : List Char) : TrimsTo cs (trimChars cs) := by
  refine ⟨trimmed_trimChars cs, cs.takeWhile isBlank, (trimStart cs).rtakeWhile isBlank, ?_, ?_, ?_⟩
  · intro c hc
    exact List.mem_takeWhile_imp hc
  · intro c hc
    exact List.mem_rtakeWhile_imp hc
  · rw [trimChars, trimEnd_eq_rdropWhile, List.append_assoc, List.rdropWhile_append_rtakeWhile]
    exact List.takeWhile_append_dropWhile.symm

/-- A text is a word and the rest, which starts with the blank at which the word ends. -/
theorem splitWord_eq_iff {cs w o : List Char} :
    splitWord cs = (w, o) ↔ (∀ c ∈ w, isBlank c = false) ∧
      ∃ rest, cs = w ++ rest ∧ (∀ c ∈ rest.head?, isBlank c = true) ∧ o = trimChars rest := by
  constructor
  · intro h
    obtain ⟨rfl, rfl⟩ := Prod.mk.inj h
    refine ⟨?_, cs.dropWhile fun c => !isBlank c, List.takeWhile_append_dropWhile.symm, ?_, rfl⟩
    · intro c hc
      simpa using List.mem_takeWhile_imp hc
    · intro c hc
      have hnot := List.head?_dropWhile_not (fun c => !isBlank c) cs
      rw [show (cs.dropWhile fun c => !isBlank c).head? = some c from hc] at hnot
      simpa using hnot
  · rintro ⟨hw, rest, rfl, hhead, rfl⟩
    have hword : ∀ c ∈ w, (!isBlank c) = true := by
      intro c hc
      simp [hw c hc]
    unfold splitWord
    rw [List.takeWhile_append_of_pos hword, List.dropWhile_append_of_pos hword]
    cases rest with
    | nil => simp
    | cons blank rest =>
      have hblank : isBlank blank = true := hhead blank rfl
      rw [List.takeWhile_cons_of_neg (by simp [hblank]),
        List.dropWhile_cons_of_neg (by simp [hblank]), List.append_nil]

/-- A word, blanks and a text without outer blanks are taken apart again. -/
theorem splitWord_append {w gap o : List Char} (hw : ∀ c ∈ w, isBlank c = false) (hne : gap ≠ [])
    (hgap : ∀ c ∈ gap, isBlank c = true) (ho : Trimmed o) :
    splitWord (w ++ (gap ++ o)) = (w, o) := by
  have hrest : trimChars (gap ++ o) = trimChars o := by
    unfold trimChars trimStart
    rw [List.dropWhile_append_of_pos hgap]
  refine splitWord_eq_iff.mpr ⟨hw, gap ++ o, rfl, ?_, ?_⟩
  · intro c hc
    rw [List.head?_append_of_ne_nil _ hne] at hc
    exact hgap c (List.mem_of_mem_head? hc)
  · rw [hrest, ho.trimChars_eq]

theorem getLast?_of_suffix {xs cs : List Char} (h : xs <:+ cs) (hne : xs ≠ []) :
    xs.getLast? = cs.getLast? := by
  obtain ⟨pre, rfl⟩ := h
  exact (List.getLast?_append_of_ne_nil pre hne).symm

/-- What follows the first word ends as the whole text does. -/
theorem Trimmed.getLast?_splitWord {cs : List Char} (h : Trimmed cs)
    (ho : (splitWord cs).2 ≠ []) : (splitWord cs).2.getLast? = cs.getLast? := by
  let rest := trimStart (cs.dropWhile fun c => !isBlank c)
  have hsuffix : rest <:+ cs := (List.dropWhile_suffix _).trans (List.dropWhile_suffix _)
  have hne : rest ≠ [] := by
    intro hnil
    exact ho (congrArg trimEnd hnil)
  have hlast : rest.getLast? = cs.getLast? := getLast?_of_suffix hsuffix hne
  have hrest : (splitWord cs).2 = rest := trimEnd_eq_self (hlast ▸ h.last)
  rw [hrest, hlast]

end Text

namespace Line

open Text

variable {cs : List Char} {name mnemonic operand : String}

/-- Whether none of the first three rules applies. -/
def IsItemText (cs : List Char) : Prop :=
  cs ≠ [] ∧ ['/', '/'].isPrefixOf cs = false ∧ ['#'].isPrefixOf cs = false

/-- The last two rules decide what else a line can be. -/
theorem ofTrimmed_eq_item {line : Line} (hblank : line ≠ .blank) (hcomment : line ≠ .comment)
    (hdirective : line ≠ .directive) :
    ofTrimmed cs = line ↔ IsItemText cs ∧
      (if cs.getLast? = some ':' then .label (String.ofList cs.dropLast)
        else .instruction (String.ofList (splitWord cs).1) (String.ofList (splitWord cs).2)) =
          line := by
  unfold ofTrimmed IsItemText
  by_cases hnil : cs = []
  · simp [hnil, hblank.symm]
  · by_cases hslashes : ['/', '/'].isPrefixOf cs = true
    · simp [hnil, hslashes, hcomment.symm]
    · by_cases hhash : ['#'].isPrefixOf cs = true
      · simp [hnil, hslashes, hhash, hdirective.symm]
      · simp [hnil, hslashes, hhash]

/-- A declaration is a name with a colon. -/
theorem ofTrimmed_eq_label :
    ofTrimmed cs = .label name ↔ IsItemText cs ∧ cs = name.toList ++ [':'] := by
  rw [ofTrimmed_eq_item (by simp) (by simp) (by simp)]
  refine and_congr_right fun _ => ?_
  constructor
  · intro h
    split at h
    · rename_i hcolon
      obtain rfl := Line.label.inj h
      rw [String.toList_ofList, List.dropLast_append_getLast? _ hcolon]
    · cases h
  · rintro rfl
    simp

/-- An instruction is a word and an operand, and does not end in a colon. -/
theorem ofTrimmed_eq_instruction :
    ofTrimmed cs = .instruction mnemonic operand ↔ IsItemText cs ∧ cs.getLast? ≠ some ':' ∧
      splitWord cs = (mnemonic.toList, operand.toList) := by
  rw [ofTrimmed_eq_item (by simp) (by simp) (by simp)]
  refine and_congr_right fun _ => ?_
  constructor
  · intro h
    split at h
    · cases h
    · rename_i hcolon
      obtain ⟨rfl, rfl⟩ := Line.instruction.inj h
      rw [String.toList_ofList, String.toList_ofList]
      exact ⟨hcolon, rfl⟩
  · rintro ⟨hcolon, hsplit⟩
    simp [hcolon, hsplit]

/-- A word and an operand without outer blanks are read as they are written. -/
theorem classify_word_operand (hmnemonic : mnemonic ≠ "")
    (hword : ∀ c ∈ mnemonic.toList, isBlank c = false) (hoperand : operand ≠ "")
    (htrimmed : Trimmed operand.toList) (hcolon : operand.toList.getLast? ≠ some ':')
    (hitem : IsItemText (mnemonic.toList ++ ' ' :: operand.toList)) :
    classify (mnemonic ++ " " ++ operand) = .instruction mnemonic operand := by
  have hchars : (mnemonic ++ " " ++ operand).toList =
      mnemonic.toList ++ ' ' :: operand.toList := by simp
  have hlast : (mnemonic.toList ++ ' ' :: operand.toList).getLast? =
      operand.toList.getLast? := by
    have hsuffix : operand.toList <:+ mnemonic.toList ++ ' ' :: operand.toList :=
      ⟨mnemonic.toList ++ [' '], by simp⟩
    exact (getLast?_of_suffix hsuffix (by simpa using hoperand)).symm
  have houter : Trimmed (mnemonic.toList ++ ' ' :: operand.toList) := by
    refine ⟨?_, hlast ▸ htrimmed.last⟩
    intro c hc
    rw [List.head?_append_of_ne_nil _ (by simpa using hmnemonic)] at hc
    exact hword c (List.mem_of_mem_head? hc)
  have hsplit : splitWord (mnemonic.toList ++ ([' '] ++ operand.toList)) =
      (mnemonic.toList, operand.toList) :=
    splitWord_append hword (by simp) (by simp [isBlank]) htrimmed
  unfold classify
  rw [hchars, houter.trimChars_eq, ofTrimmed_eq_instruction]
  exact ⟨hitem, hlast ▸ hcolon, hsplit⟩

end Line

end StackAsm
