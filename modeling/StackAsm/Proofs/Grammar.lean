import StackAsm.Proofs.LineForms

/-!
# StackAsm.Proofs.Grammar

The grammar of lines, and lines printed back.

`Line.HasForm` is the grammar: which texts without outer blanks are lines of which form. It says of
an instruction that it *can* be taken apart in a certain way (`Line.IsSplit`), and not how. A text
is classified as what it is by this grammar, and as nothing else (`Line.ofTrimmed_eq_iff`). In
particular there is only one way to take it apart.

A line that was read can be written again: a declaration as its name and a colon, an instruction as
its mnemonic and its operand with one blank between them, however they were spaced before.
-/

namespace StackAsm

namespace Line

open Text

/-! ### Taking apart -/

/-- What follows the first word of a text without outer blanks is made of blanks and an operand. -/
theorem exists_gap {t : List Char} (ht : Trimmed t)
    (hrest : t.dropWhile (fun c => !isBlank c) ≠ []) :
    ∃ gap, gap ≠ [] ∧ (∀ c ∈ gap, isBlank c = true) ∧ (splitWord t).2 ≠ [] ∧
      t = (splitWord t).1 ++ (gap ++ (splitWord t).2) := by
  let rest := t.dropWhile fun c => !isBlank c
  have hsuffix : rest <:+ t := List.dropWhile_suffix _
  have hlast : ∀ c ∈ rest.getLast?, isBlank c = false := by
    rw [getLast?_of_suffix hsuffix hrest]
    exact ht.last
  -- the rest starts with a blank, where the word ended
  obtain ⟨blank, blanks, hblanks⟩ := List.exists_cons_of_ne_nil hrest
  have hblank : isBlank blank = true := by
    have hnot := List.head?_dropWhile_not (fun c => !isBlank c) t
    rw [hblanks] at hnot
    simpa using hnot
  -- and does not end with one
  have hoperand : trimStart rest ≠ [] := by
    intro hnil
    have hall : ∀ c ∈ rest, isBlank c = true := List.dropWhile_eq_nil_iff.mp hnil
    have hend := List.getLast?_eq_some_getLast hrest
    exact absurd (hall _ (List.mem_of_getLast? hend)) (by simp [hlast _ hend])
  have hend : (trimStart rest).getLast? = rest.getLast? :=
    getLast?_of_suffix (List.dropWhile_suffix isBlank) hoperand
  have htrim : (splitWord t).2 = trimStart rest := trimEnd_eq_self (hend ▸ hlast)
  refine ⟨rest.takeWhile isBlank, ?_, ?_, ?_, ?_⟩
  · rw [show rest = blank :: blanks from hblanks, List.takeWhile_cons_of_pos hblank]
    simp
  · intro c hc
    exact List.mem_takeWhile_imp hc
  · rw [htrim]
    exact hoperand
  · rw [htrim, trimStart, List.takeWhile_append_dropWhile]
    exact List.takeWhile_append_dropWhile.symm

/-- A text is a word, or a word and an operand with blanks between them. -/
structure IsSplit (t : List Char) (mnemonic operand : String) : Prop where
  nonempty : mnemonic ≠ ""
  word : ∀ c ∈ mnemonic.toList, isBlank c = false
  trimmed : Trimmed operand.toList
  parts : (t = mnemonic.toList ∧ operand = "") ∨
    (operand ≠ "" ∧ ∃ gap, gap ≠ [] ∧ (∀ c ∈ gap, isBlank c = true) ∧
      t = mnemonic.toList ++ (gap ++ operand.toList))

variable {t : List Char} {mnemonic operand : String}

/-- Whatever way there is to take a text apart, it is the way in which it is done. -/
theorem IsSplit.splitWord_eq (h : IsSplit t mnemonic operand) :
    splitWord t = (mnemonic.toList, operand.toList) := by
  rcases h.parts with ⟨rfl, rfl⟩ | ⟨-, gap, hne, hgap, rfl⟩
  · exact splitWord_eq_iff.mpr ⟨h.word, [], by simp, by simp, by simp⟩
  · exact splitWord_append h.word hne hgap h.trimmed

theorem IsSplit.unique {mnemonic' operand' : String} (h : IsSplit t mnemonic operand)
    (h' : IsSplit t mnemonic' operand') : mnemonic = mnemonic' ∧ operand = operand' := by
  obtain ⟨hword, hoperand⟩ := Prod.mk.inj (h.splitWord_eq.symm.trans h'.splitWord_eq)
  exact ⟨String.toList_inj.mp hword, String.toList_inj.mp hoperand⟩

/-- A text without outer blanks can be taken apart. -/
theorem isSplit_of_splitWord (ht : Trimmed t) (hne : t ≠ [])
    (h : splitWord t = (mnemonic.toList, operand.toList)) : IsSplit t mnemonic operand := by
  obtain ⟨hword, hoperand⟩ := Prod.mk.inj h
  have hfirst : mnemonic.toList ≠ [] := by
    obtain ⟨c, cs, rfl⟩ := List.exists_cons_of_ne_nil hne
    rw [← hword, List.takeWhile_cons_of_pos (by simp [ht.head c rfl])]
    simp
  refine ⟨by simpa using hfirst, ?_, ?_, ?_⟩
  · intro c hc
    rw [← hword] at hc
    simpa using List.mem_takeWhile_imp hc
  · rw [← hoperand]
    exact trimmed_trimChars _
  · by_cases hrest : t.dropWhile (fun c => !isBlank c) = []
    · left
      rw [hrest, trimChars_nil] at hoperand
      refine ⟨?_, by simpa using hoperand.symm⟩
      rw [← hword]
      exact (List.takeWhile_eq_self_iff.mpr (List.dropWhile_eq_nil_iff.mp hrest)).symm
    · right
      obtain ⟨gap, hgap, hblank, ho, ht⟩ := exists_gap ht hrest
      rw [h] at ho ht
      exact ⟨by simpa using ho, gap, hgap, hblank, ht⟩

/-! ### The grammar -/

/-- What a text without outer blanks is. -/
inductive HasForm (t : List Char) : Line → Prop
  | blank : t = [] → HasForm t .blank
  | comment : ['/', '/'] <+: t → HasForm t .comment
  | directive : ['#'] <+: t → HasForm t .directive
  | label {name : String} : IsItemText t → t = name.toList ++ [':'] → HasForm t (.label name)
  | instruction {mnemonic operand : String} : IsItemText t → (∀ name, t ≠ name ++ [':']) →
      IsSplit t mnemonic operand → HasForm t (.instruction mnemonic operand)

/-- A text has the form that it is given. -/
theorem hasForm_ofTrimmed (ht : Trimmed t) : HasForm t (ofTrimmed t) := by
  unfold ofTrimmed
  split
  · rename_i hnil
    exact .blank hnil
  · rename_i hne
    split
    · rename_i hslashes
      exact .comment (List.isPrefixOf_iff_prefix.mp hslashes)
    · rename_i hslashes
      split
      · rename_i hhash
        exact .directive (List.isPrefixOf_iff_prefix.mp hhash)
      · rename_i hhash
        have hitem : IsItemText t :=
          ⟨hne, Bool.eq_false_iff.mpr hslashes, Bool.eq_false_iff.mpr hhash⟩
        split
        · rename_i hcolon
          refine .label hitem ?_
          rw [String.toList_ofList, List.dropLast_append_getLast? _ hcolon]
        · rename_i hcolon
          refine .instruction hitem ?_ (isSplit_of_splitWord ht hne ?_)
          · intro name hname
            exact hcolon (by simp [hname])
          · rw [String.toList_ofList, String.toList_ofList]
            rfl

/-- It has no other form. -/
theorem HasForm.ofTrimmed_eq {line : Line} (h : HasForm t line) : ofTrimmed t = line := by
  cases h with
  | blank hnil => rw [ofTrimmed, if_pos hnil]
  | comment hprefix =>
    obtain ⟨rest, rfl⟩ := hprefix
    rfl
  | directive hprefix =>
    obtain ⟨rest, rfl⟩ := hprefix
    rfl
  | label hitem hname => exact ofTrimmed_eq_label.mpr ⟨hitem, hname⟩
  | instruction hitem hcolon hsplit =>
    refine ofTrimmed_eq_instruction.mpr ⟨hitem, ?_, hsplit.splitWord_eq⟩
    intro hlast
    obtain ⟨name, hname⟩ := List.getLast?_eq_some_iff.mp hlast
    exact hcolon name hname

theorem ofTrimmed_eq_iff (ht : Trimmed t) {line : Line} : ofTrimmed t = line ↔ HasForm t line := by
  constructor
  · intro h
    exact h ▸ hasForm_ofTrimmed ht
  · intro h
    exact h.ofTrimmed_eq

/-! ### Printing back -/

/-- With one blank after the mnemonic, a line is none of the first three forms if it was none. -/
theorem IsItemText.print {word rest rest' : List Char} (hword : word ≠ [])
    (h : IsItemText (word ++ rest)) : IsItemText (word ++ ' ' :: rest') := by
  obtain ⟨c, cs, rfl⟩ := List.exists_cons_of_ne_nil hword
  obtain ⟨-, hslashes, hhash⟩ := h
  refine ⟨by simp, ?_, by simpa [List.isPrefixOf] using hhash⟩
  cases cs with
  | nil => simp [List.isPrefixOf]
  | cons c' cs => simpa [List.isPrefixOf] using hslashes

theorem classify_print {text : String} (h : classify text = .instruction mnemonic operand)
    (hoperand : operand ≠ "") :
    classify (mnemonic ++ " " ++ operand) = .instruction mnemonic operand := by
  have hform := (ofTrimmed_eq_iff (trimmed_trimChars text.toList)).mp h
  cases hform with
  | instruction hitem hcolon hsplit =>
    rcases hsplit.parts with ⟨-, hempty⟩ | ⟨-, gap, -, -, htext⟩
    · exact absurd hempty hoperand
    · rw [htext] at hitem hcolon
      refine classify_word_operand hsplit.nonempty hsplit.word hoperand hsplit.trimmed ?_
        (hitem.print (by simpa using hsplit.nonempty))
      intro hlast
      obtain ⟨name, hname⟩ := List.getLast?_eq_some_iff.mp hlast
      exact hcolon (mnemonic.toList ++ (gap ++ name)) (by simp [hname])

theorem classify_print_label {text name : String} (h : classify text = .label name) :
    classify (name ++ ":") = .label name := by
  obtain ⟨hitem, htext⟩ := ofTrimmed_eq_label.mp h
  have hchars : (name ++ ":").toList = trimChars text.toList := by simp [htext]
  rw [classify, hchars, (trimmed_trimChars text.toList).trimChars_eq]
  exact h

/-- **Lines are read by their grammar, and can be written back.** Let `t` be the text of a line
without the blanks around it. The line is classified as what `t` is by the grammar of lines, and as
nothing else; if `t` can be taken apart as an instruction, then in one way only. The parts of an
instruction with an operand, printed with one blank between them, are read as the same instruction,
and a declared name with a colon as the same declaration. -/
theorem classify_grammar (text : String) :
    ∃ t, TrimsTo text.toList t ∧ (∀ line, classify text = line ↔ HasForm t line) ∧
      (∀ mnemonic operand mnemonic' operand', IsSplit t mnemonic operand →
        IsSplit t mnemonic' operand' → mnemonic = mnemonic' ∧ operand = operand') ∧
      (∀ mnemonic operand, classify text = .instruction mnemonic operand → operand ≠ "" →
        classify (mnemonic ++ " " ++ operand) = .instruction mnemonic operand) ∧
      ∀ name, classify text = .label name → classify (name ++ ":") = .label name := by
  have htrims := trimsTo_trimChars text.toList
  refine ⟨_, htrims, fun line => ofTrimmed_eq_iff htrims.trimmed, ?_, ?_, ?_⟩
  · intro mnemonic operand mnemonic' operand' h h'
    exact h.unique h'
  · intro mnemonic operand h hoperand
    exact classify_print h hoperand
  · intro name h
    exact classify_print_label h

end Line

end StackAsm
