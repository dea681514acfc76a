import StackAsm.Proofs.Acceptance
import StackAsm.Proofs.Layout
import StackAsm.Proofs.LineForms

/-!
# StackAsm.Proofs.LabelNames

Which labels can be referred to.

A declaration takes as name all that stands before its colon, inner and final blanks and colons
included. An operand has no blanks at its ends, and a line that ends in a colon is never an
instruction. So a label whose name ends in a blank or in a colon can be declared, but nothing can
refer to it; these are the only ones (`label_referable_iff`).
-/

namespace StackAsm

namespace Line

open Text

variable {text name : String}

/-- A name that ends neither in a blank nor in a colon. -/
def Referable (name : String) : Prop := ∀ c ∈ name.toList.getLast?, isBlank c = false ∧ c ≠ ':'

-- Named, since the search finds a way through all characters first.
instance (name : String) : Decidable (Referable name) := Option.decidableForallMem _

/-- A declared name does not start with a blank. -/
theorem head_of_classify_label (h : classify text = .label name) :
    ∀ c ∈ name.toList.head?, isBlank c = false := by
  obtain ⟨-, htext⟩ := ofTrimmed_eq_label.mp h
  intro c hc
  refine (trimmed_trimChars text.toList).head c ?_
  rw [htext]
  exact List.mem_head?_append_of_mem_head? hc

/-- All operands are of this kind. -/
theorem referable_of_classify_instruction {mnemonic : String}
    (h : classify text = .instruction mnemonic name) (hname : name ≠ "") : Referable name := by
  obtain ⟨-, hcolon, hsplit⟩ := ofTrimmed_eq_instruction.mp h
  have htrimmed := trimmed_trimChars text.toList
  have hoperand : (splitWord (trimChars text.toList)).2 = name.toList := by rw [hsplit]
  have hlast : name.toList.getLast? = (trimChars text.toList).getLast? := by
    rw [← hoperand]
    exact htrimmed.getLast?_splitWord (by simpa [hoperand] using hname)
  intro c hc
  rw [hlast] at hc
  refine ⟨htrimmed.last c hc, ?_⟩
  rintro rfl
  exact hcolon hc

/-- Written after any of the three mnemonics that take a label, such a name is the operand. -/
theorem classify_reference (h : classify text = .label name) (hname : name ≠ "")
    (href : Referable name) {mnemonic : String} (hm : mnemonic ∈ ["llbl", "jmpl", "jmpr"]) :
    classify (mnemonic ++ " " ++ name) = .instruction mnemonic name := by
  have htrimmed : Trimmed name.toList :=
    ⟨head_of_classify_label h, fun c hc => (href c hc).1⟩
  have hcolon : name.toList.getLast? ≠ some ':' := fun hc => (href ':' hc).2 rfl
  simp only [List.mem_cons, List.not_mem_nil, or_false] at hm
  rcases hm with rfl | rfl | rfl
  all_goals
    exact classify_word_operand (by decide) (by simp [isBlank]) hname htrimmed hcolon
      ⟨by simp, rfl, rfl⟩

end Line

/-! ### Reference and declaration together -/

/-- An instruction that takes a label takes any but the empty one. -/
theorem Mnemonic.exists_code_of_takesLabel {m : Mnemonic} (hm : m.takesLabel = true)
    {label : String} (hlabel : label ≠ "") :
    ∃ code, m.encode label = .ok code ∧ Segment.totalWidth code.segments ≤ 20 := by
  have hoperand : Operand.label label = .ok label := if_neg hlabel
  cases m with
  | llbl | jmpl | jmpr =>
    simp only [encode, hoperand]
    exact ⟨_, rfl, Nat.le_of_ble_eq_true rfl⟩
  | _ => cases hm

theorem Mnemonic.exists_ofName? {mnemonic : String} (h : mnemonic ∈ ["llbl", "jmpl", "jmpr"]) :
    ∃ m, ofName? mnemonic = some m ∧ m.takesLabel = true := by
  simp only [List.mem_cons, List.not_mem_nil, or_false] at h
  rcases h with rfl | rfl | rfl
  · exact ⟨.llbl, ofName?_name .llbl, rfl⟩
  · exact ⟨.jmpl, ofName?_name .jmpl, rfl⟩
  · exact ⟨.jmpr, ofName?_name .jmpr, rfl⟩

/-- A declaration, followed by a reference to it. -/
def Program.pair (loc loc' : Location) (mnemonic name : String) : Program :=
  [⟨loc, .label name⟩, ⟨loc', .instruction mnemonic name⟩]

namespace Program

variable {loc loc' : Location} {mnemonic name : String}

theorem declarations_pair : declarations (pair loc loc' mnemonic name) = [⟨name, loc, 0⟩] := rfl

theorem accepted_pair {opts : Options} (hentry : opts.entryPoint = name) (hname : name ≠ "")
    (hm : mnemonic ∈ ["llbl", "jmpl", "jmpr"]) : Accepted opts (pair loc loc' mnemonic name) := by
  obtain ⟨m, hofName, htakes⟩ := Mnemonic.exists_ofName? hm
  obtain ⟨code, hencode, hwidth⟩ := Mnemonic.exists_code_of_takesLabel htakes hname
  have hcode : (Line.instruction mnemonic name).code? = some code :=
    Line.code?_instruction.mpr ⟨m, hofName, hencode⟩
  have hfirst : Scannable opts [⟨loc, .label name⟩] :=
    scannable_nil.snoc (fault?_label_eq_none.mpr ⟨hname, by decide⟩)
  have hfits : width [⟨loc, .label name⟩] + Segment.totalWidth code.segments < UInt32.size := by
    have hzero : width [⟨loc, .label name⟩] = 0 := rfl
    have hsize : UInt32.size = 4294967296 := rfl
    omega
  have hboth : Scannable opts (pair loc loc' mnemonic name) :=
    hfirst.snoc (fault?_instruction_eq_none.mpr ⟨nofun, code, hcode, hfits⟩)
  have hdeclares : (pair loc loc' mnemonic name).Declares name :=
    ⟨⟨name, loc, 0⟩, by simp [declarations_pair], rfl⟩
  refine { hboth with entry := hentry ▸ hdeclares, resolved := ?_ }
  intro line hline label href
  simp only [pair, List.mem_cons, List.not_mem_nil, or_false] at hline
  rcases hline with rfl | rfl
  · cases href
  · obtain rfl : name = label := by simpa [Line.reference?, hm] using href
    exact hdeclares

/-- The image of the two lines has one label, the declared one. -/
theorem IsImage.labels_pair {opts : Options} {image : Image}
    (h : IsImage opts (pair loc loc' mnemonic name) image) : image.labels = [⟨0, 0⟩] := by
  have hlast : Declaration.last? [⟨name, loc, 0⟩] name = some (⟨name, loc, 0⟩, 0) := by
    rw [← List.nil_append [_], Declaration.last?_append_singleton, if_pos rfl]
    rfl
  have hlabels := h.labels
  rw [declarations_pair, show Declaration.names [⟨name, loc, 0⟩] = [name] from rfl] at hlabels
  obtain ⟨record, rest, ⟨d, hrecord, haddress⟩, hrest, himage⟩ :=
    List.forall₂_cons_left_iff.mp hlabels
  cases hrest
  rw [hlast] at hrecord
  obtain ⟨rfl, hid⟩ := Prod.mk.inj (Option.some.inj hrecord)
  rw [himage, List.cons.injEq]
  refine ⟨?_, rfl⟩
  obtain ⟨id, address⟩ := record
  rw [LabelRecord.mk.injEq]
  exact ⟨UInt16.toNat.inj hid.symm, UInt32.toNat.inj haddress⟩

end Program

/-- A declaration and a reference to it are assembled, the label being the entry point. -/
theorem exists_assembly_of_pair (load : Loader) (opts : Options) {name mnemonic : String}
    (hname : name ≠ "") (hm : mnemonic ∈ ["llbl", "jmpl", "jmpr"])
    {declaration reference : Located String}
    (hdeclaration : Line.classify declaration.val = .label name)
    (hreference : Line.classify reference.val = .instruction mnemonic name) :
    ∃ assembly, (assembleLines load { opts with entryPoint := name }
        [declaration, reference]).result = .ok assembly ∧
      assembly.image.labels = [⟨0, 0⟩] := by
  have hprogram : Program.ofLines [declaration, reference] =
      Program.pair declaration.loc reference.loc mnemonic name := by
    simp [Program.ofLines, Program.pair, hdeclaration, hreference]
  have hplain : ∀ line ∈ [declaration, reference], Line.classify line.val ≠ .directive := by
    simp [hdeclaration, hreference]
  have haccepted : (Program.ofLines [declaration, reference]).Accepted
      { opts with entryPoint := name } := by
    rw [hprogram]
    exact Program.accepted_pair rfl hname hm
  rcases assembleLines_of_plain load hplain with
    ⟨scan, hp, hscan, hresult⟩ | ⟨line, e, hfault, -⟩
  · rcases hscan.accepted_or_fails hp with ⟨assembly, hok, -⟩ | ⟨e, -, hfails⟩
    · have himage := hscan.isImage hp hok
      rw [hprogram] at himage
      exact ⟨assembly, hresult.trans hok, himage.labels_pair⟩
    · exact absurd hfails haccepted.not_failsWith
  · exact absurd haccepted.toScannable hfault.not_scannable

/-- **Which labels can be referred to.** A label that is declared can be the operand of an
instruction if and only if its name does not end in a blank or in a colon. Then all three
instructions that take a label can refer to it, and resolve to its declaration. -/
theorem label_referable_iff (text name : String) (hlabel : Line.classify text = .label name)
    (hname : name ≠ "") :
    ((∃ reference, Line.classify reference = .instruction "llbl" name) ↔ Line.Referable name) ∧
    (Line.Referable name → ∀ mnemonic ∈ ["llbl", "jmpl", "jmpr"],
      Line.classify (mnemonic ++ " " ++ name) = .instruction mnemonic name ∧
      ∀ (load : Loader) (opts : Options) (loc loc' : Location), ∃ assembly,
        (assembleLines load { opts with entryPoint := name }
          [⟨loc, text⟩, ⟨loc', mnemonic ++ " " ++ name⟩]).result = .ok assembly ∧
        assembly.image.labels = [⟨0, 0⟩]) := by
  refine ⟨⟨?_, ?_⟩, ?_⟩
  · rintro ⟨reference, hline⟩
    exact Line.referable_of_classify_instruction hline hname
  · intro href
    exact ⟨_, Line.classify_reference hlabel hname href (by simp)⟩
  · intro href mnemonic hm
    have hline := Line.classify_reference hlabel hname href hm
    refine ⟨hline, ?_⟩
    intro load opts loc loc'
    exact exists_assembly_of_pair load opts hname hm hlabel hline

/-- A name with a blank and a colon inside can be referred to. -/
theorem innerColon_referable :
    Line.classify " a: b: " = .label "a: b" ∧
    (∃ reference, Line.classify reference = .instruction "llbl" "a: b") ∧
    ∃ assembly, (assembleLines (fun _ => .error .notFound) { entryPoint := "a: b" }
        [⟨⟨"f", 1⟩, " a: b: "⟩, ⟨⟨"f", 2⟩, "jmpr a: b"⟩]).result = .ok assembly ∧
      assembly.image.labels = [⟨0, 0⟩] := by
  have hlabel : Line.classify " a: b: " = .label "a: b" := by decide
  have href : Line.Referable "a: b" := by decide
  obtain ⟨hiff, hall⟩ := label_referable_iff " a: b: " "a: b" hlabel (by decide)
  obtain ⟨-, hassembled⟩ := hall href "jmpr" (by simp)
  exact ⟨hlabel, hiff.mpr href, hassembled _ {} _ _⟩

/-- Names that end in a colon or in a blank can be declared, but not referred to. -/
theorem finalColon_not_referable :
    (Line.classify "x::" = .label "x:" ∧
      ¬ ∃ reference, Line.classify reference = .instruction "llbl" "x:") ∧
    Line.classify "x :" = .label "x " ∧
      ¬ ∃ reference, Line.classify reference = .instruction "llbl" "x " := by
  have hcolon : ¬ Line.Referable "x:" := by decide
  have hblank : ¬ Line.Referable "x " := by decide
  refine ⟨⟨by decide, ?_⟩, by decide, ?_⟩
  · rintro ⟨reference, hline⟩
    exact hcolon (Line.referable_of_classify_instruction hline (by decide))
  · rintro ⟨reference, hline⟩
    exact hblank (Line.referable_of_classify_instruction hline (by decide))

end StackAsm
