import StackAsm.Proofs.Acceptance
import StackAsm.Proofs.Assembled

/-!
# StackAsm.Proofs.Interleaving

Code does not depend on where labels stand.

A program that begins with a label is an interleaving of two sequences: the names it declares, and
its instructions. Everything that decides whether it can be assembled, and every byte of its code,
is read off one sequence or the other. Only addresses depend on how the two are woven together, so
that moving labels among the instructions turns references forward into references back without
touching the code (`assembleLines_rearranged`).
-/

namespace StackAsm

namespace Line

/-- The name that a line declares. -/
def labelName? : Line → Option String
  | label name => some name
  | _ => none

/-- The mnemonic and the operand of an instruction. -/
def instruction? : Line → Option (String × String)
  | instruction mnemonic operand => some (mnemonic, operand)
  | _ => none

theorem labelName?_eq_some {line : Line} {name : String} :
    line.labelName? = some name ↔ line = .label name := by
  cases line <;> simp [labelName?]

theorem instruction?_eq_some {line : Line} {i : String × String} :
    line.instruction? = some i ↔ line = .instruction i.1 i.2 := by
  obtain ⟨mnemonic, operand⟩ := i
  cases line <;> simp [instruction?]

theorem instruction?_eq_none {line : Line} :
    line.instruction? = none ↔ line.isInstruction = false := by
  cases line <;> simp [instruction?, isInstruction]

theorem isItem_of_reference? {line : Line} {label : String} (h : line.reference? = some label) :
    line.isItem = true := by
  cases line <;> simp_all [reference?, isItem]

end Line

namespace Program

/-- The names that a program declares, in order. -/
def labelNames (p : Program) : List String := p.filterMap fun line => line.val.labelName?

/-- The instructions of a program, in order. -/
def instructions (p : Program) : List (String × String) :=
  p.filterMap fun line => line.val.instruction?

/-- The first line that counts declares a label. -/
def StartsWithLabel (p : Program) : Prop :=
  ∃ first name, p.find? (fun line => line.val.isItem) = some first ∧ first.val = .label name

/-- Two programs that begin with a label, and differ in nothing but how labels and instructions are
interleaved. -/
structure Rearranged (p q : Program) : Prop where
  left : p.StartsWithLabel
  right : q.StartsWithLabel
  labels : p.labelNames = q.labelNames
  instructions : p.instructions = q.instructions

variable {p q : Program} {opts : Options}

theorem mem_labelNames {name : String} :
    name ∈ p.labelNames ↔ ∃ line ∈ p, line.val = .label name := by
  simp [labelNames, Line.labelName?_eq_some]

theorem mem_instructions {mnemonic operand : String} :
    (mnemonic, operand) ∈ p.instructions ↔
      ∃ line ∈ p, line.val = .instruction mnemonic operand := by
  simp [instructions, Line.instruction?_eq_some]

theorem Rearranged.symm (h : Rearranged p q) : Rearranged q p :=
  ⟨h.right, h.left, h.labels.symm, h.instructions.symm⟩

/-- The lines that count are the same, whatever their order. -/
theorem Rearranged.exists_line (h : Rearranged p q) {line : Located Line} (hline : line ∈ q)
    (hitem : line.val.isItem = true) : ∃ other ∈ p, other.val = line.val := by
  cases hval : line.val with
  | label name =>
    have hname : name ∈ q.labelNames := mem_labelNames.mpr ⟨line, hline, hval⟩
    rw [← h.labels] at hname
    exact mem_labelNames.mp hname
  | instruction mnemonic operand =>
    have hinstruction : (mnemonic, operand) ∈ q.instructions :=
      mem_instructions.mpr ⟨line, hline, hval⟩
    rw [← h.instructions] at hinstruction
    exact mem_instructions.mp hinstruction
  | blank | comment | directive => simp [hval, Line.isItem] at hitem

/-! ### What instructions decide -/

theorem instructions_cons (line : Located Line) (p : Program) :
    instructions (line :: p) = line.val.instruction?.toList ++ instructions p := by
  unfold instructions
  rw [List.filterMap_cons]
  cases line.val.instruction? <;> rfl

theorem flatMap_segments_eq (p : Program) :
    (p.flatMap fun line => line.val.segments) =
      p.instructions.flatMap fun i => (Line.instruction i.1 i.2).segments := by
  induction p with
  | nil => rfl
  | cons line p ih =>
    rw [List.flatMap_cons, ih, instructions_cons, List.flatMap_append]
    congr 1
    cases hsome : line.val.instruction? with
    | none => exact Line.segments_of_not_isInstruction (Line.instruction?_eq_none.mp hsome)
    | some i => simp [Line.instruction?_eq_some.mp hsome]

theorem Rearranged.flatMap_segments (h : Rearranged p q) :
    (p.flatMap fun line => line.val.segments) = q.flatMap fun line => line.val.segments := by
  rw [flatMap_segments_eq, h.instructions, ← flatMap_segments_eq]

theorem Rearranged.width (h : Rearranged p q) : p.width = q.width := by
  rw [width_eq_totalWidth, h.flatMap_segments, ← width_eq_totalWidth]

/-! ### What labels decide -/

theorem map_name_labels (p : Program) : p.labels.map Declaration.name = p.labelNames := by
  induction p using List.reverseRecOn with
  | nil => rfl
  | append_singleton p line ih =>
    rw [labels_append_singleton, List.map_append, ih, labelNames, labelNames, List.filterMap_append]
    congr 1
    cases hline : line.val <;> simp [declaration?, Line.labelName?, hline]

theorem StartsWithLabel.map_name_declarations (h : p.StartsWithLabel) :
    p.declarations.map Declaration.name = p.labelNames := by
  obtain ⟨first, name, hfind, hfirst⟩ := h
  -- nothing comes before the first label, so that none is declared automatically
  have hbare : bareStart? p = none := by simp [bareStart?, hfind, hfirst]
  rw [declarations, hbare, ← map_name_labels]
  rfl

theorem Rearranged.map_name_declarations (h : Rearranged p q) :
    p.declarations.map Declaration.name = q.declarations.map Declaration.name := by
  rw [h.left.map_name_declarations, h.labels, h.right.map_name_declarations]

theorem Rearranged.names_declarations (h : Rearranged p q) :
    Declaration.names p.declarations = Declaration.names q.declarations := by
  rw [Declaration.names, h.map_name_declarations, Declaration.names]

theorem Rearranged.length_declarations (h : Rearranged p q) :
    p.declarations.length = q.declarations.length := by
  rw [← List.length_map, h.map_name_declarations, List.length_map]

theorem Rearranged.declares (h : Rearranged p q) (label : String) :
    p.Declares label ↔ q.Declares label := by
  rw [Declares, ← Declaration.mem_names, h.names_declarations, Declaration.mem_names, Declares]

/-- Whether a program can be assembled does not depend on the interleaving. -/
theorem Accepted.rearranged (hp : p.Accepted opts) (h : Rearranged p q) : q.Accepted opts where
  named := by
    intro line hline hempty
    obtain ⟨other, hother, hval⟩ := h.exists_line hline (by rw [hempty]; rfl)
    exact hp.named other hother (hval.trans hempty)
  started := .inl h.right
  counted := h.length_declarations ▸ hp.counted
  encodable := by
    intro line hline hinstruction
    obtain ⟨other, hother, hval⟩ := h.exists_line hline (Line.isItem_of_isInstruction hinstruction)
    rw [← hval] at hinstruction ⊢
    exact hp.encodable other hother hinstruction
  fits := h.width ▸ hp.fits
  entry := (h.declares _).mp hp.entry
  resolved := by
    intro line hline label href
    obtain ⟨other, hother, hval⟩ := h.exists_line hline (Line.isItem_of_reference? href)
    rw [← hval] at href
    exact (h.declares label).mp (hp.resolved other hother label href)

end Program

/-! ### Ids -/

namespace Declaration

/-- The names alone decide which declaration of a label is the last one. -/
theorem map_last? (ds : List Declaration) (label : String) :
    (last? ds label).map (fun d => (d.1.name, d.2)) =
      ((ds.map name).zipIdx.filter fun d => d.1 = label).getLast? := by
  unfold last?
  rw [← List.getLast?_map, List.zipIdx_map, List.filter_map]
  rfl

end Declaration

namespace Program

variable {p q : Program} {opts : Options}

/-- A label keeps its id. -/
theorem Rearranged.index_eq (h : Rearranged p q) (label : String) :
    (Declaration.last? p.declarations label).map Prod.snd =
      (Declaration.last? q.declarations label).map Prod.snd := by
  have hlast : (Declaration.last? p.declarations label).map (fun d => (d.1.name, d.2)) =
      (Declaration.last? q.declarations label).map fun d => (d.1.name, d.2) := by
    rw [Declaration.map_last?, h.map_name_declarations, ← Declaration.map_last?]
  simpa [Function.comp_def] using congrArg (Option.map Prod.snd) hlast

theorem Rearranged.fill_eq (h : Rearranged p q) : p.fill = q.fill := by
  funext segment
  cases segment with
  | bytes raw => rfl
  | label name =>
    -- of the last declaration only its index goes into the code, and not its address
    have hindex := h.index_eq name
    rw [fill, fill]
    cases hp : Declaration.last? p.declarations name <;>
      cases hq : Declaration.last? q.declarations name <;> simp_all

variable {image₁ image₂ : Image}

/-- The bytes of the code stay. -/
theorem IsImage.code_eq (h₁ : p.IsImage opts image₁) (h₂ : q.IsImage opts image₂)
    (h : Rearranged p q) : image₁.code = image₂.code := by
  rw [h₁.code, h₂.code, ← List.flatMap_assoc, ← List.flatMap_assoc, h.flatMap_segments, h.fill_eq]

/-- The ids in the label table are the indices of last declarations. -/
theorem IsImage.map_ids (h : p.IsImage opts image₁) :
    ((image₁.labels.map LabelRecord.id).map fun id => some id.toNat) =
      (Declaration.names p.declarations).map fun label =>
        (Declaration.last? p.declarations label).map Prod.snd := by
  have hall : List.Forall₂ (· = ·)
      ((image₁.labels.map LabelRecord.id).map fun id => some id.toNat)
      ((Declaration.names p.declarations).map fun label =>
        (Declaration.last? p.declarations label).map Prod.snd) := by
    rw [List.map_map, List.forall₂_map_left_iff, List.forall₂_map_right_iff]
    refine h.labels.flip.imp fun r label hr => ?_
    obtain ⟨d, hlast, -⟩ := hr
    rw [hlast]
    rfl
  rwa [List.forall₂_eq_eq_eq] at hall

/-- So they stay too. -/
theorem IsImage.ids_eq (h₁ : p.IsImage opts image₁) (h₂ : q.IsImage opts image₂)
    (h : Rearranged p q) :
    image₁.labels.map LabelRecord.id = image₂.labels.map LabelRecord.id := by
  have hinjective : Function.Injective fun id : LabelId => some id.toNat := by
    intro id id' hid
    exact UInt16.toNat.inj (Option.some.inj hid)
  refine List.map_injective_iff.mpr hinjective ?_
  rw [h₁.map_ids, h₂.map_ids, h.names_declarations]
  exact List.map_congr_left fun label _ => h.index_eq label

end Program

/-! ### Both assemblies -/

section

variable {load load' : Loader} {opts : Options} {lines lines' : List (Located String)}

theorem exists_assembly_of_rearranged
    (hplain : ∀ line ∈ lines, Line.classify line.val ≠ .directive)
    (hplain' : ∀ line ∈ lines', Line.classify line.val ≠ .directive)
    (h : (Program.ofLines lines).Rearranged (Program.ofLines lines'))
    (hok : ∃ assembly, (assembleLines load opts lines).result = .ok assembly) :
    ∃ assembly, (assembleLines load' opts lines').result = .ok assembly := by
  obtain ⟨assembly, hok⟩ := hok
  rcases accepted_or_fails load hplain with ⟨-, -, haccepted⟩ | ⟨e, herror, -⟩
  · rcases accepted_or_fails load' hplain' with ⟨assembly', hok', -⟩ | ⟨e, -, hfails⟩
    · exact ⟨assembly', hok'⟩
    · exact absurd hfails (haccepted.rearranged h).not_failsWith
  · cases herror.symm.trans hok

theorem exists_scan_of_plain (hplain : ∀ line ∈ lines, Line.classify line.val ≠ .directive)
    {assembly : Assembly} (hok : (assembleLines load opts lines).result = .ok assembly) :
    ∃ scan : Scan, (Program.ofLines lines).Scannable opts ∧ scan.Of (Program.ofLines lines) ∧
      (scan.assemble opts).result = .ok assembly := by
  rcases assembleLines_of_plain load hplain with
    ⟨scan, hp, hscan, hresult⟩ | ⟨line, e, -, herror⟩
  · exact ⟨scan, hp, hscan, hresult.symm.trans hok⟩
  · cases herror.symm.trans hok

end

/-- **Code does not depend on where labels stand.** Two sources without directives that begin with a
label, declare the same names in the same order, and hold the same instructions in the same order
are both assembled or both refused; and if they are assembled, the code is the same byte for byte,
the label tables have the same ids in the same order, and the headers agree but for the entry point.
-/
theorem assembleLines_rearranged (load₁ load₂ : Loader) (opts : Options)
    (lines₁ lines₂ : List (Located String))
    (hplain₁ : ∀ line ∈ lines₁, Line.classify line.val ≠ .directive)
    (hplain₂ : ∀ line ∈ lines₂, Line.classify line.val ≠ .directive)
    (h : (Program.ofLines lines₁).Rearranged (Program.ofLines lines₂)) :
    ((∃ assembly, (assembleLines load₁ opts lines₁).result = .ok assembly) ↔
      ∃ assembly, (assembleLines load₂ opts lines₂).result = .ok assembly) ∧
    ∀ assembly₁ assembly₂, (assembleLines load₁ opts lines₁).result = .ok assembly₁ →
      (assembleLines load₂ opts lines₂).result = .ok assembly₂ →
        assembly₁.image.code = assembly₂.image.code ∧
        assembly₁.image.labels.map LabelRecord.id = assembly₂.image.labels.map LabelRecord.id ∧
        { assembly₁.image.header with entry := assembly₂.image.header.entry } =
          assembly₂.image.header := by
  constructor
  · constructor
    · exact exists_assembly_of_rearranged hplain₁ hplain₂ h
    · exact exists_assembly_of_rearranged hplain₂ hplain₁ h.symm
  · intro assembly₁ assembly₂ hok₁ hok₂
    obtain ⟨scan₁, hp₁, hscan₁, hassemble₁⟩ := exists_scan_of_plain hplain₁ hok₁
    obtain ⟨scan₂, hp₂, hscan₂, hassemble₂⟩ := exists_scan_of_plain hplain₂ hok₂
    have himage₁ := hscan₁.isImage hp₁ hassemble₁
    have himage₂ := hscan₂.isImage hp₂ hassemble₂
    refine ⟨himage₁.code_eq himage₂ h, himage₁.ids_eq himage₂ h, ?_⟩
    -- the options are the same for both
    rw [(Assembles.lines hok₁).header, (Assembles.lines hok₂).header]

/-- A source with a reference forward, and a label that is declared again after its use. -/
def forwardSource : List (Located String) :=
  sourceLines inlineSource "main:\njmpl end\nllbl main\nend:\nmain:\nhlt"

/-- The same with all labels in front. -/
def backwardSource : List (Located String) :=
  sourceLines inlineSource "// labels\nmain:\nend:\nmain:\njmpl end\nllbl main\nhlt"

theorem forwardSource_rearranged :
    (Program.ofLines forwardSource).Rearranged (Program.ofLines backwardSource) ∧
    ∃ forward backward,
      (assembleLines (fun _ => .error .absent) {} forwardSource).result = .ok forward ∧
      (assembleLines (fun _ => .error .absent) {} backwardSource).result = .ok backward ∧
      forward.image.labels = [⟨2, 12⟩, ⟨1, 12⟩] ∧ backward.image.labels = [⟨2, 0⟩, ⟨1, 0⟩] ∧
      forward.image.code = backward.image.code := by
  have hplain₁ : ∀ line ∈ forwardSource, Line.classify line.val ≠ .directive := by decide
  have hplain₂ : ∀ line ∈ backwardSource, Line.classify line.val ≠ .directive := by decide
  have h : (Program.ofLines forwardSource).Rearranged (Program.ofLines backwardSource) :=
    ⟨⟨⟨⟨inlineSource, 1⟩, .label "main"⟩, "main", by cbv, rfl⟩,
      ⟨⟨⟨inlineSource, 2⟩, .label "main"⟩, "main", by cbv, rfl⟩, by cbv, by cbv⟩
  obtain ⟨-, hsame⟩ := assembleLines_rearranged (fun _ => .error .absent)
    (fun _ => .error .absent) {} forwardSource backwardSource hplain₁ hplain₂ h
  refine ⟨h, ?_⟩
  have hforward : ((assembleLines (fun _ => .error .absent) {} forwardSource).result.map
      fun assembly => assembly.image.labels).toOption = some [⟨2, 12⟩, ⟨1, 12⟩] := by cbv
  have hbackward : ((assembleLines (fun _ => .error .absent) {} backwardSource).result.map
      fun assembly => assembly.image.labels).toOption = some [⟨2, 0⟩, ⟨1, 0⟩] := by cbv
  obtain ⟨forward, hok₁, hlabels₁⟩ := exists_ok_of_map hforward
  obtain ⟨backward, hok₂, hlabels₂⟩ := exists_ok_of_map hbackward
  exact ⟨forward, backward, hok₁, hok₂, hlabels₁, hlabels₂, (hsame forward backward hok₁ hok₂).1⟩

end StackAsm
