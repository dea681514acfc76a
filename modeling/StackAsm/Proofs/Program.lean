import Mathlib.Algebra.GroupWithZero.Nat
import Mathlib.Data.List.Basic
import StackAsm.Proofs.Declarations
import StackAsm.Proofs.Step

/-!
# StackAsm.Proofs.Program

What a program without directives declares and what its code is made of, read off its lines.

Nothing here follows the assembler: the address of a label is the width of all code before it, and
the declarations are the label lines in order, after the automatic one if an instruction comes
before every label. How these readings change when a line is added at the end is what ties them to
the first pass (`declarations_append_singleton`, `width_append`, `segments_append`).
-/

namespace StackAsm

namespace Line

def isInstruction : Line → Bool
  | instruction .. => true
  | _ => false

/-- Whether a line declares a label or stands for code. -/
def isItem : Line → Bool
  | label _ => true
  | instruction .. => true
  | _ => false

/-- The code of an instruction whose mnemonic is known and takes the operand. -/
def code? : Line → Option Encoded
  | instruction mnemonic operand =>
    (Mnemonic.ofName? mnemonic).bind fun m => (m.encode operand).toOption
  | _ => none

/-- The segments of that code. -/
def segments (line : Line) : List Segment := (line.code?.map Encoded.segments).getD []

/-- The label that an instruction refers to. -/
def reference? : Line → Option String
  | instruction mnemonic operand =>
    if mnemonic ∈ ["llbl", "jmpl", "jmpr"] then some operand else none
  | _ => none

@[simp] theorem isInstruction_instruction (mnemonic operand : String) :
    (instruction mnemonic operand).isInstruction = true := rfl

@[simp] theorem isInstruction_label (name : String) : (label name).isInstruction = false := rfl

theorem isItem_of_isInstruction {line : Line} (h : line.isInstruction = true) :
    line.isItem = true := by
  cases line <;> simp_all [isInstruction, isItem]

theorem isInstruction_of_not_isItem {line : Line} (h : line.isItem = false) :
    line.isInstruction = false := by
  cases line <;> simp_all [isInstruction, isItem]

theorem segments_of_not_isInstruction {line : Line} (h : line.isInstruction = false) :
    line.segments = [] := by
  cases line <;> simp_all [segments, code?]

theorem segments_of_code? {line : Line} {code : Encoded} (h : line.code? = some code) :
    line.segments = code.segments := by
  simp [segments, h]

theorem code?_instruction {mnemonic operand : String} {code : Encoded} :
    (instruction mnemonic operand).code? = some code ↔
      ∃ m, Mnemonic.ofName? mnemonic = some m ∧ m.encode operand = .ok code := by
  simp only [code?, Option.bind_eq_some_iff]
  refine exists_congr fun m => and_congr_right fun _ => ?_
  cases m.encode operand <;> simp [Except.toOption]

/-- Under which label an instruction stands does not matter for its code. -/
theorem encodeInstruction_eq_ok_iff_code? {mnemonic operand label : String} {code : Encoded} :
    encodeInstruction mnemonic operand label = .ok code ↔
      (instruction mnemonic operand).code? = some code :=
  encodeInstruction_eq_ok_iff.trans code?_instruction.symm

theorem takesLabel_iff {mnemonic : String} {m : Mnemonic} (h : Mnemonic.ofName? mnemonic = some m) :
    m.takesLabel = true ↔ mnemonic ∈ ["llbl", "jmpl", "jmpr"] := by
  obtain rfl : m.name = mnemonic := by
    simpa using List.find?_some h
  cases m <;> simp [Mnemonic.takesLabel, Mnemonic.name]

/-- The code of a line refers to the label that the line refers to, and to nothing else. -/
theorem references_segments {line : Line} (h : line.isInstruction = true → line.code?.isSome) :
    Segment.references line.segments = line.reference?.toList := by
  cases line with
  | instruction mnemonic operand =>
    obtain ⟨code, hcode⟩ := Option.isSome_iff_exists.mp (h rfl)
    obtain ⟨m, hm, hencode⟩ := code?_instruction.mp hcode
    rw [segments_of_code? hcode, Mnemonic.references_encode hencode]
    by_cases htakes : m.takesLabel = true
    · rw [if_pos htakes, reference?, if_pos ((takesLabel_iff hm).mp htakes)]
      rfl
    · rw [if_neg htakes, reference?, if_neg (mt (takesLabel_iff hm).mpr htakes)]
      rfl
  | _ => rfl

end Line

/-- A program without includes: its lines by form, each with its place. -/
abbrev Program := List (Located Line)

namespace Program

def ofLines (lines : List (Located String)) : Program :=
  lines.map fun line => ⟨line.loc, Line.classify line.val⟩

/-- The code of all instructions in order, label ids still open. -/
def segments (p : Program) : List (Located Segment) :=
  p.flatMap fun line => line.val.segments.map (Located.mk line.loc)

/-- The bytes that the code of all instructions takes. -/
def width (p : Program) : Nat := (p.map fun line => Segment.totalWidth line.val.segments).sum

/-- What a line declares after the lines `before`. -/
def declaration? (before : Program) (line : Located Line) : Option Declaration :=
  match line.val with
  | .label name => some ⟨name, line.loc, width before⟩
  | _ => none

/-- The declarations that are written out, each at the width of the code before it. -/
def labels (p : Program) : List Declaration :=
  p.zipIdx.filterMap fun (line, i) => declaration? (p.take i) line

/-- The first instruction, if it comes before every label. -/
def bareStart? (p : Program) : Option (Located Line) :=
  (p.find? fun line => line.val.isItem).filter fun line => line.val.isInstruction

/-- All declarations: the written ones, after the automatic one if there is need of it. -/
def declarations (p : Program) : List Declaration :=
  ((bareStart? p).map fun line => ⟨Scanner.automaticMain, line.loc, 0⟩).toList ++ labels p

/-! ### Code -/

theorem segments_append (p q : Program) : segments (p ++ q) = segments p ++ segments q :=
  List.flatMap_append

theorem segments_singleton (line : Located Line) :
    segments [line] = line.val.segments.map (Located.mk line.loc) := by
  simp [segments]

theorem width_append (p q : Program) : width (p ++ q) = width p + width q := by
  simp [width]

theorem width_singleton (line : Located Line) :
    width [line] = Segment.totalWidth line.val.segments := by
  simp [width]

theorem width_eq_totalWidth (p : Program) :
    p.width = Segment.totalWidth (p.flatMap fun line => line.val.segments) := by
  induction p with
  | nil => rfl
  | cons line p ih =>
    rw [List.flatMap_cons, Segment.totalWidth_append, ← ih, ← width_singleton, ← width_append,
      List.singleton_append]

/-- Only instructions take space. -/
theorem width_eq_zero_of_not_isInstruction {p : Program}
    (h : ∀ line ∈ p, line.val.isInstruction = false) : width p = 0 := by
  have hzero : p.map (fun line => Segment.totalWidth line.val.segments) = p.map fun _ => 0 := by
    refine List.map_congr_left fun line hline => ?_
    rw [Line.segments_of_not_isInstruction (h line hline), Segment.totalWidth_nil]
  rw [width, hzero]
  simp

theorem width_eq_zero {p : Program} (h : ∀ line ∈ p, line.val.isItem = false) : width p = 0 :=
  width_eq_zero_of_not_isInstruction fun line hline =>
    Line.isInstruction_of_not_isItem (h line hline)

/-! ### Declarations -/

theorem labels_append_singleton (p : Program) (line : Located Line) :
    labels (p ++ [line]) = labels p ++ (declaration? p line).toList := by
  unfold labels
  rw [List.zipIdx_append, List.filterMap_append]
  congr 1
  · -- the lines before a line of `p` are the same in the longer program
    refine List.filterMap_congr fun ⟨other, i⟩ hmem => ?_
    have hi : i ≤ p.length := by
      have := List.mem_zipIdx hmem
      omega
    simp only [List.take_append_of_le_length hi]
  · cases h : declaration? p line <;> simp [h]

theorem labels_eq_nil {p : Program} (h : ∀ line ∈ p, line.val.isItem = false) : labels p = [] := by
  unfold labels
  rw [List.filterMap_eq_nil_iff]
  intro x hx
  have hitem := h x.1 (List.fst_mem_of_mem_zipIdx hx)
  unfold declaration?
  cases hline : x.1.val <;> simp_all [Line.isItem]

theorem labels_ne_nil {p : Program} {line : Located Line} {name : String} (hmem : line ∈ p)
    (hline : line.val = .label name) : labels p ≠ [] := by
  obtain ⟨i, hi, rfl⟩ := List.mem_iff_getElem.mp hmem
  have hdeclared : ⟨name, p[i].loc, width (p.take i)⟩ ∈ labels p := by
    refine List.mem_filterMap.mpr ⟨(p[i], i), ?_, ?_⟩
    · simp [List.mem_zipIdx_iff_getElem?, hi]
    · simp [declaration?, hline]
  exact List.ne_nil_of_mem hdeclared

/-- Nothing is declared only before the first label and the first instruction. -/
theorem declarations_eq_nil_iff {p : Program} :
    declarations p = [] ↔ ∀ line ∈ p, line.val.isItem = false := by
  cases hfind : p.find? fun line => line.val.isItem with
  | none =>
    have hnone : ∀ line ∈ p, line.val.isItem = false := by simpa using hfind
    refine iff_of_true ?_ hnone
    simp [declarations, bareStart?, hfind, labels_eq_nil hnone]
  | some first =>
    have hmem : first ∈ p := List.mem_of_find?_eq_some hfind
    have hitem : first.val.isItem = true := by simpa using List.find?_some hfind
    refine iff_of_false ?_ fun hnone => by simp [hnone first hmem] at hitem
    cases hline : first.val with
    | label name => simp [declarations, labels_ne_nil hmem hline]
    | instruction mnemonic operand =>
      simp [declarations, bareStart?, hfind, hline]
    | blank | comment | directive => simp [hline, Line.isItem] at hitem

theorem bareStart?_append_singleton (p : Program) (line : Located Line) :
    bareStart? (p ++ [line]) =
      if declarations p = [] ∧ line.val.isInstruction then some line else bareStart? p := by
  unfold bareStart?
  rw [List.find?_append]
  cases hfind : p.find? fun line => line.val.isItem with
  | none =>
    -- the new line is the first that can count
    have hnil : declarations p = [] := declarations_eq_nil_iff.mpr (by simpa using hfind)
    by_cases hline : line.val.isInstruction = true
    · simp [hnil, hline, Line.isItem_of_isInstruction hline]
    · by_cases hitem : line.val.isItem = true
      · simp [hline, hitem]
      · simp [hline, hitem]
  | some first =>
    have hsome : declarations p ≠ [] := by
      intro hnil
      have hitem : first.val.isItem = true := by simpa using List.find?_some hfind
      simp [declarations_eq_nil_iff.mp hnil first (List.mem_of_find?_eq_some hfind)] at hitem
    simp [hsome]

/-- What a line adds to the declarations of the lines `before`. -/
def declaredAfter (before : Program) (line : Located Line) : List Declaration :=
  match line.val with
  | .label name => [⟨name, line.loc, width before⟩]
  | .instruction .. =>
    if declarations before = [] then [⟨Scanner.automaticMain, line.loc, width before⟩] else []
  | _ => []

theorem declarations_append_singleton (p : Program) (line : Located Line) :
    declarations (p ++ [line]) = declarations p ++ declaredAfter p line := by
  rw [declarations, bareStart?_append_singleton, labels_append_singleton]
  cases hline : line.val with
  | instruction mnemonic operand =>
    by_cases hnil : declarations p = []
    · have hnone := declarations_eq_nil_iff.mp hnil
      simp [declaredAfter, declaration?, hline, hnil, labels_eq_nil hnone, width_eq_zero hnone]
    · rw [if_neg fun h => hnil h.1]
      simp only [declaredAfter, declaration?, hline, hnil, if_false, Option.toList_none,
        List.append_nil]
      rfl
  | label name =>
    simp [declaredAfter, declaration?, hline, declarations]
  | blank | comment | directive =>
    simp [declaredAfter, declaration?, hline, Line.isInstruction, declarations]

end Program

end StackAsm
