import StackAsm.Proofs.Acceptance
import StackAsm.Proofs.Numerals
import StackAsm.Proofs.Units
import StackAsm.Proofs.Warnings
import StackAsm.Proofs.WellFormed

/-!
# StackAsm.Proofs.Reassembly

Disassembled code can be assembled again.

The two halves meet at `Line.IsUnit`: a line that stands for one unit and gives no reason for a
remark. A label and lines of this kind below it are assembled to these units, without warnings
(`assembleLines_units`). And the text of a unit is such a line (`Instruction.isUnit_renderKnown`),
unless the unit names a label by its id, or has an operand that its text leaves out, or names a
register that does not exist: `Instruction.Spelled` are all others.

Since the address past the code has to be a 32-bit number, there is a bound on how many units there
are.
-/

namespace StackAsm

/-! ### Programs without directives -/

/-- A run over lines without directives that ends in a scan has read all of them. -/
theorem Scanner.Runs.read_eq_of_plain {load : Loader} {opts : Options}
    {lines read : List (Located String)} {scan : Scan}
    (h : Runs load opts (ofLines lines) read (.ok scan))
    (hplain : ∀ line ∈ lines, Line.classify line.val ≠ .directive) : read = lines := by
  have hpending : (ofLines lines).stream.queue.pending.map Pending.line = lines := by
    simp [ofLines, LineQueue.pending_ofLines, Function.comp_def]
  rw [← hpending]
  refine (h.of_plain ?_).2 (by simp)
  intro p hmem
  exact hplain p.line (hpending ▸ List.mem_map_of_mem hmem)

/-- What an accepted program without directives is assembled to, and with what warnings. -/
theorem assembleLines_of_accepted (load : Loader) {opts : Options} {lines : List (Located String)}
    (hplain : ∀ line ∈ lines, Line.classify line.val ≠ .directive)
    (haccepted : (Program.ofLines lines).Accepted opts) :
    ∃ assembly, (assembleLines load opts lines).result = .ok assembly ∧
      (Program.ofLines lines).IsImage opts assembly.image ∧
      assembly.warnings = Program.remarksOn load [] lines ++
        (Program.ofLines lines).unused opts.entryPoint := by
  rw [result_assembleLines]
  have hscans : (Program.ofLines lines).ScansTo opts (scanLines load opts lines).result :=
    Scanner.scansTo_scanLines load hplain
  obtain ⟨read, hruns⟩ := Scanner.exists_runs_scanLines load opts lines
  generalize (scanLines load opts lines).result = r at hscans hruns ⊢
  cases hscans with
  | fault hfault => exact absurd haccepted.toScannable hfault.not_scannable
  | scanned hp hof =>
    obtain rfl : read = lines := hruns.read_eq_of_plain hplain
    have hremarks := hruns.warnings (Scanner.reads_ofLines _) Program.scannable_nil rfl
    rcases hof.accepted_or_fails hp with ⟨assembly, hok, -⟩ | ⟨e, -, hfails⟩
    · refine ⟨assembly, hok, hof.isImage hp hok, ?_⟩
      rw [Scan.warnings_of_assemble hok, hremarks, hof.unusedLabels_eq hp]
      rfl
    · exact absurd hfails haccepted.not_failsWith

/-! ### Lines that stand for one unit -/

/-- A line that stands for one unit, with nothing to remark on it. -/
def Line.IsUnit (unit : Opcode × UInt16) (line : Line) : Prop :=
  line.code? = some ⟨[.unit unit.1 unit.2], []⟩

namespace Line.IsUnit

variable {unit : Opcode × UInt16} {line : Line}

theorem exists_instruction (h : line.IsUnit unit) :
    ∃ mnemonic operand, line = .instruction mnemonic operand := by
  cases line with
  | instruction mnemonic operand => exact ⟨mnemonic, operand, rfl⟩
  | _ => cases h

theorem isInstruction (h : line.IsUnit unit) : line.isInstruction = true := by
  obtain ⟨mnemonic, operand, rfl⟩ := h.exists_instruction
  rfl

theorem segments (h : line.IsUnit unit) : line.segments = [.unit unit.1 unit.2] :=
  segments_of_code? h

theorem reference? (h : line.IsUnit unit) : line.reference? = none := by
  have hrefs := references_segments fun _ => Option.isSome_of_eq_some h
  rw [h.segments] at hrefs
  simpa using hrefs.symm

end Line.IsUnit

/-- Lines that stand for units, one for each. -/
abbrev Program.AreUnits (units : List (Opcode × UInt16)) (p : Program) : Prop :=
  List.Forall₂ (fun unit line => line.val.IsUnit unit) units p

namespace Program

/-- Instructions below a label declare nothing. -/
theorem declarations_label_cons {loc : Location} {name : String} {body : Program}
    (h : ∀ line ∈ body, line.val.isInstruction = true) :
    declarations (⟨loc, .label name⟩ :: body) = [⟨name, loc, 0⟩] := by
  induction body using List.reverseRecOn with
  | nil => rfl
  | append_singleton body line ih =>
    have hbody := ih fun other hother => h other (by simp [hother])
    have hline : line.val.isInstruction = true := h line (by simp)
    rw [← List.cons_append, declarations_append_singleton, hbody]
    cases hval : line.val with
    | instruction mnemonic operand => simp [declaredAfter, hval, hbody]
    | _ => simp [hval, Line.isInstruction] at hline

section

variable {units : List (Opcode × UInt16)} {body : Program} (h : body.AreUnits units)
  {loc : Location} {name : String}
include h

theorem AreUnits.exists_unit {line : Located Line} (hline : line ∈ body) :
    ∃ unit, line.val.IsUnit unit := by
  induction h with
  | nil => cases hline
  | cons hunit _ ih =>
    rcases List.mem_cons.mp hline with rfl | hrest
    · exact ⟨_, hunit⟩
    · exact ih hrest

theorem AreUnits.width_eq : width body = CodeUnit.width * units.length := by
  induction h with
  | nil => rfl
  | @cons unit line units body hunit _ ih =>
    rw [← List.singleton_append, width_append, width_singleton, hunit.segments, ih,
      List.length_cons, Nat.mul_succ, Nat.add_comm]
    rfl

theorem AreUnits.declarations_cons :
    declarations (⟨loc, .label name⟩ :: body) = [⟨name, loc, 0⟩] := by
  refine declarations_label_cons fun line hline => ?_
  obtain ⟨unit, hunit⟩ := h.exists_unit hline
  exact hunit.isInstruction

theorem AreUnits.accepted_cons {opts : Options} (hname : name ≠ "")
    (hentry : opts.entryPoint = name) (hsize : CodeUnit.width * units.length < UInt32.size) :
    Accepted opts (⟨loc, .label name⟩ :: body) where
  named line hline := by
    rcases List.mem_cons.mp hline with rfl | hrest
    · simpa using hname
    · obtain ⟨unit, hunit⟩ := h.exists_unit hrest
      obtain ⟨mnemonic, operand, hinstruction⟩ := hunit.exists_instruction
      simp [hinstruction]
  started := .inl ⟨⟨loc, .label name⟩, name, rfl, rfl⟩
  counted := by
    rw [h.declarations_cons]
    exact Nat.succ_pos _
  encodable line hline hinstruction := by
    rcases List.mem_cons.mp hline with rfl | hrest
    · cases hinstruction
    · obtain ⟨unit, hunit⟩ := h.exists_unit hrest
      exact Option.isSome_of_eq_some hunit
  fits := by
    rw [← List.singleton_append, width_append, h.width_eq]
    simpa [width_singleton, Line.segments, Line.code?] using hsize
  entry := ⟨⟨name, loc, 0⟩, by simp [h.declarations_cons], hentry.symm⟩
  resolved line hline label href := by
    rcases List.mem_cons.mp hline with rfl | hrest
    · cases href
    · obtain ⟨unit, hunit⟩ := h.exists_unit hrest
      rw [hunit.reference?] at href
      cases href

/-- Nothing is to be filled in. -/
theorem AreUnits.flatMap_fill (p : Program) :
    (body.flatMap fun line => line.val.segments.flatMap p.fill) = CodeUnit.encodeAll units := by
  induction h with
  | nil => rfl
  | @cons unit line units body hunit _ ih =>
    rw [List.flatMap_cons, ih, hunit.segments]
    rfl

/-- The one label is the entry point. -/
theorem AreUnits.unused_cons : unused (⟨loc, .label name⟩ :: body) name = [] := by
  rw [unused, h.declarations_cons, show Declaration.names [⟨name, loc, 0⟩] = [name] from rfl]
  simp

end

/-- There is nothing to remark on units below a label. -/
theorem remarksOn_units {units : List (Opcode × UInt16)} {lines : List (Located String)}
    (h : (ofLines lines).AreUnits units) (load : Loader) {before : Program}
    (hbefore : ∃ other ∈ before, other.val.isItem) : remarksOn load before lines = [] := by
  induction lines generalizing units before with
  | nil => rfl
  | cons line lines ih =>
    obtain ⟨unit, units, hunit, hrest, rfl⟩ := List.forall₂_cons_right_iff.mp h
    obtain ⟨mnemonic, operand, hline⟩ := hunit.exists_instruction
    have hremarks : remarks load before line = [] := by
      -- no automatic label is needed here, and what else there is to remark is in the code
      have hwarnings := Line.warnings_code? hline (hline ▸ hunit)
      rw [remarks]
      simp only at hline
      rw [hline]
      simp only [if_pos hbefore, List.nil_append]
      exact hwarnings.symm
    have hmore : ∃ other ∈ before ++ ofLines [line], other.val.isItem := by
      obtain ⟨other, hmem, hitem⟩ := hbefore
      exact ⟨other, List.mem_append_left _ hmem, hitem⟩
    rw [remarksOn, hremarks, ih hrest hmore]
    rfl

end Program

/-- **A label and lines for units are assembled to these units**, without warnings. -/
theorem assembleLines_units (load : Loader) {opts : Options} {units : List (Opcode × UInt16)}
    {name : String} {label : Located String} {lines : List (Located String)}
    (hlabel : Line.classify label.val = .label name) (hname : name ≠ "")
    (hunits : (Program.ofLines lines).AreUnits units) (hentry : opts.entryPoint = name)
    (hsize : CodeUnit.width * units.length < UInt32.size) :
    ∃ assembly, (assembleLines load opts (label :: lines)).result = .ok assembly ∧
      assembly.image.code = CodeUnit.encodeAll units ∧ assembly.warnings = [] := by
  have hprogram : Program.ofLines (label :: lines) =
      ⟨label.loc, .label name⟩ :: Program.ofLines lines := by
    rw [← hlabel]
    rfl
  have hplain : ∀ line ∈ label :: lines, Line.classify line.val ≠ .directive := by
    intro line hline
    rcases List.mem_cons.mp hline with rfl | hrest
    · simp [hlabel]
    · obtain ⟨unit, hunit⟩ := hunits.exists_unit (List.mem_map_of_mem hrest)
      obtain ⟨mnemonic, operand, hinstruction⟩ := hunit.exists_instruction
      simp only at hinstruction
      simp [hinstruction]
  have haccepted : (Program.ofLines (label :: lines)).Accepted opts := by
    rw [hprogram]
    exact hunits.accepted_cons hname hentry hsize
  obtain ⟨assembly, hok, himage, hwarnings⟩ := assembleLines_of_accepted load hplain haccepted
  refine ⟨assembly, hok, ?_, ?_⟩
  · rw [himage.code, hprogram, List.flatMap_cons, hunits.flatMap_fill]
    rfl
  · have hnew : ¬ Program.Declares [] name := by
      simp [Program.Declares, show Program.declarations [] = [] from rfl]
    have hfirst : Program.remarks load [] label = [] := by
      rw [Program.remarks, hlabel]
      exact if_neg hnew
    have hitem : ∃ other ∈ [] ++ Program.ofLines [label], other.val.isItem := by
      refine ⟨⟨label.loc, .label name⟩, ?_, rfl⟩
      simp [Program.ofLines, hlabel]
    rw [hwarnings, hprogram, hentry, hunits.unused_cons, Program.remarksOn, hfirst,
      Program.remarksOn_units hunits load hitem]
    rfl

/-! ### The text of a unit -/

/-- A mnemonic and its operand, if it has one. -/
def Line.spell (mnemonic operand : String) : String :=
  if operand = "" then mnemonic else mnemonic ++ " " ++ operand

theorem Mnemonic.solid_name (m : Mnemonic) : Text.Solid m.name := by
  cases m <;> decide

theorem Register.solid_name (r : Register) : Text.Solid r.name := by
  cases r <;> decide

theorem Register.name_ne_empty (r : Register) : r.name ≠ "" := by
  cases r <;> decide

theorem Register.exists_ofIndex? {w : UInt16} (h : w.toNat < 11) :
    ∃ r, ofIndex? w = some r ∧ r.index = w := by
  obtain ⟨r, hr⟩ := Option.isSome_iff_exists.mp (ofIndex?_isSome h)
  exact ⟨r, hr, index_of_ofIndex? hr⟩

theorem Operand.register_name (r : Register) : register r.name = .ok r := by
  have hfound : Register.ofName? r.name = some r := by cases r <;> decide +kernel
  rw [register, if_neg r.name_ne_empty, hfound]

namespace Line

variable {operand : String}

theorem spell_of_ne (mnemonic : String) (h : operand ≠ "") :
    spell mnemonic operand = mnemonic ++ " " ++ operand := if_neg h

/-- A mnemonic and an operand are read as they are spelled. -/
theorem classify_spell (m : Mnemonic) (h : Text.Solid operand) :
    classify (spell m.name operand) = .instruction m.name operand := by
  by_cases hempty : operand = ""
  · subst hempty
    cases m <;> decide +kernel
  · have hcolon : operand.toList.getLast? ≠ some ':' :=
      fun hc => (h ':' (List.mem_of_getLast? hc)).2 rfl
    have hname : m.name ≠ "" := by cases m <;> decide
    rw [spell_of_ne _ hempty]
    refine classify_word_operand hname (fun c hc => (m.solid_name c hc).1) hempty h.trimmed hcolon
      ?_
    cases m <;> exact ⟨by simp [Mnemonic.name], rfl, rfl⟩

/-- There are no blanks in it but the one between the two. -/
theorem mem_spell (m : Mnemonic) (h : Text.Solid operand) {c : Char}
    (hc : c ∈ (spell m.name operand).toList) : c = ' ' ∨ Text.isBlank c = false := by
  by_cases hempty : operand = ""
  · rw [spell, if_pos hempty] at hc
    exact .inr (m.solid_name c hc).1
  · rw [spell_of_ne _ hempty, String.toList_append, String.toList_append, List.append_assoc,
      List.mem_append, List.mem_append] at hc
    rcases hc with hname | hblank | hoperand
    · exact .inr (m.solid_name c hname).1
    · exact .inl (by simpa using hblank)
    · exact .inr (h c hoperand).1

end Line

namespace Instruction

/-- The units whose text says all there is to them: those with an operand that is spelled out, a
register that exists, or no operand to speak of. -/
structure Spelled (unit : Opcode × UInt16) : Prop where
  label : unit.1 ≠ .llbl
  plain : unit.1 ∈ [.nop, .hlt, .jmpa] → unit.2 = 0
  register : unit.1 ∈ [.rgw, .rgr] → unit.2.toNat < 11

/-- What the text of a unit says is the unit. -/
theorem exists_spelling {op : Opcode} {operand : UInt16} (h : Spelled (op, operand)) :
    ∃ (m : Mnemonic) (text : String), renderKnown op operand = Line.spell m.name text ∧
      Text.Solid text ∧ m.encode text = .ok ⟨[.unit op operand], []⟩ := by
  have hsolid := Text.solid_hexWord operand.toNat
  have hne := Text.hexWord_ne_empty operand.toNat
  have hempty : Text.Solid "" := by simp [Text.Solid]
  cases op with
  | llbl => exact absurd rfl h.label
  | nop =>
    obtain rfl : operand = 0 := h.plain (by simp)
    exact ⟨.nop, "", rfl, hempty, rfl⟩
  | hlt =>
    obtain rfl : operand = 0 := h.plain (by simp)
    exact ⟨.hlt, "", rfl, hempty, rfl⟩
  | jmpa =>
    obtain rfl : operand = 0 := h.plain (by simp)
    exact ⟨.jmpa, "", rfl, hempty, rfl⟩
  | sl =>
    refine ⟨.sl, Text.hexWord operand.toNat, (Line.spell_of_ne _ hne).symm, hsolid, ?_⟩
    rw [Mnemonic.encode, Operand.literal_hexWord]
    rfl
  | spop =>
    refine ⟨.spop, Text.hexWord operand.toNat, (Line.spell_of_ne _ hne).symm, hsolid, ?_⟩
    rw [Mnemonic.encode, if_neg hne, Operand.literal_hexWord]
    rfl
  | add =>
    by_cases hzero : operand = 0
    · -- an addition of zero is printed without an operand, and so it is read
      subst hzero
      exact ⟨.add, "", rfl, hempty, rfl⟩
    · refine ⟨.add, Text.hexWord operand.toNat, ?_, hsolid, ?_⟩
      · rw [renderKnown, if_neg hzero, Line.spell_of_ne _ hne]
        rfl
      · rw [Mnemonic.encode, Mnemonic.encodeAdd, if_neg hne, Operand.literal_hexWord]
        simp [bind, Except.bind, pure, Except.pure, hzero]
  | rgw =>
    obtain ⟨r, hr, rfl⟩ := Register.exists_ofIndex? (h.register (by simp))
    refine ⟨.rgw, r.name, ?_, r.solid_name, ?_⟩
    · rw [renderKnown, hr, Line.spell_of_ne _ r.name_ne_empty]
      rfl
    · rw [Mnemonic.encode, Operand.register_name]
      rfl
  | rgr =>
    obtain ⟨r, hr, rfl⟩ := Register.exists_ofIndex? (h.register (by simp))
    refine ⟨.rgr, r.name, ?_, r.solid_name, ?_⟩
    · rw [renderKnown, hr, Line.spell_of_ne _ r.name_ne_empty]
      rfl
    · rw [Mnemonic.encode, Operand.register_name]
      rfl

theorem isUnit_renderKnown {op : Opcode} {operand : UInt16} (h : Spelled (op, operand)) :
    (Line.classify (renderKnown op operand)).IsUnit (op, operand) := by
  obtain ⟨m, text, hrender, hsolid, hencode⟩ := exists_spelling h
  rw [hrender, Line.classify_spell m hsolid]
  exact Line.code?_instruction.mpr ⟨m, m.ofName?_name, hencode⟩

theorem isLine_renderKnown {op : Opcode} {operand : UInt16}
    (h : Spelled (op, operand)) : Text.IsLine (renderKnown op operand) := by
  obtain ⟨m, text, hrender, hsolid, -⟩ := exists_spelling h
  rw [hrender]
  have hblank : ∀ c, Text.isBlank c = true → c ≠ ' ' → c ∉ (Line.spell m.name text).toList := by
    intro c hblank hspace hc
    rcases Line.mem_spell m hsolid hc with rfl | hnot
    · exact hspace rfl
    · rw [hblank] at hnot
      cases hnot
  refine ⟨?_, hblank '\n' (by decide) (by decide), hblank '\r' (by decide) (by decide)⟩
  intro hempty
  have hline := Line.classify_spell m hsolid
  rw [hempty, show Line.classify "" = .blank from rfl] at hline
  cases hline

end Instruction

/-! ### Code -/

/-- The text of code, a line for each unit, below the label at which execution starts. -/
def sourceOf (code : List UInt8) : List String :=
  "main:" :: (disassemble code).map fun unit => unit.instruction.render

theorem sourceOf_encodeAll (units : List (Opcode × UInt16)) :
    sourceOf (CodeUnit.encodeAll units) =
      "main:" :: units.map fun unit => Instruction.renderKnown unit.1 unit.2 := by
  have hunits : units = units.zipIdx.map Prod.fst := (List.zipIdx_map_fst 0 units).symm
  rw [sourceOf, disassemble_encodeAll, List.mapIdx_eq_zipIdx_map, List.map_map]
  conv_rhs => rw [hunits, List.map_map]
  rfl

theorem areUnits_renderKnown {units : List (Opcode × UInt16)} {lines : List (Located String)}
    (h : ∀ unit ∈ units, Instruction.Spelled unit)
    (hlines : lines.map Located.val =
      units.map fun unit => Instruction.renderKnown unit.1 unit.2) :
    (Program.ofLines lines).AreUnits units := by
  induction units generalizing lines with
  | nil =>
    rw [List.map_eq_nil_iff.mp hlines]
    exact .nil
  | cons unit units ih =>
    obtain ⟨line, rest, rfl, hline, hrest⟩ := List.map_eq_cons_iff.mp hlines
    refine .cons ?_ (ih (fun other hother => h other (by simp [hother])) hrest)
    show (Line.classify line.val).IsUnit unit
    rw [hline]
    exact Instruction.isUnit_renderKnown (h unit (by simp))

/-- **Disassembled code is assembled back to the same code.** Of any units whose text says all there
is to them, as many as there are addresses for, the bytes are disassembled to lines which, below the
label `main`, are assembled to these bytes again and without warnings, whether the last line is
ended or not. -/
theorem assembleText_disassemble (load : Loader) (units : List (Opcode × UInt16))
    (hspelled : ∀ unit ∈ units, Instruction.Spelled unit) (hsize : 4 * units.length < 2 ^ 32)
    (source : String)
    (hsource : source = "\n".intercalate (sourceOf (CodeUnit.encodeAll units)) ∨
      source = String.join ((sourceOf (CodeUnit.encodeAll units)).map (· ++ "\n"))) :
    ∃ assembly, (assembleText load {} source).result = .ok assembly ∧
      assembly.image.code = CodeUnit.encodeAll units ∧ assembly.warnings = [] := by
  have hlabel : Text.IsLine "main:" := ⟨by decide, by decide, by decide⟩
  have htexts : ∀ text ∈ sourceOf (CodeUnit.encodeAll units), Text.IsLine text := by
    rw [sourceOf_encodeAll]
    intro text htext
    rcases List.mem_cons.mp htext with rfl | hrest
    · exact hlabel
    · obtain ⟨unit, hunit, rfl⟩ := List.mem_map.mp hrest
      exact Instruction.isLine_renderKnown (hspelled unit hunit)
  have hlines : Text.lines source = sourceOf (CodeUnit.encodeAll units) := by
    rcases hsource with rfl | rfl
    · exact Text.lines_intercalate htexts
    · exact Text.lines_join htexts
  have hvals : (sourceLines inlineSource source).map Located.val = Text.lines source := by
    simp [sourceLines, List.mapIdx_eq_zipIdx_map, Function.comp_def]
  rw [hlines, sourceOf_encodeAll] at hvals
  obtain ⟨label, lines, hsplit, hmain, hunits⟩ := List.map_eq_cons_iff.mp hvals
  have hclassify : Line.classify label.val = .label "main" := by
    rw [hmain]
    decide
  rw [assembleText, hsplit]
  exact assembleLines_units load hclassify (by decide) (areUnits_renderKnown hspelled hunits) rfl
    hsize

/-- Units of all kinds that have a text: with words at the ends of their range, with an addition
that takes both addends from the stack, and with registers that have no number in their names. -/
def mixedUnits : List (Opcode × UInt16) :=
  [(.sl, 0xFFFF), (.add, 0), (.add, 0x0A), (.spop, 0), (.rgw, 10), (.rgr, 8), (.nop, 0), (.jmpa, 0),
    (.hlt, 0)]

theorem assembleText_mixedUnits :
    ∃ assembly, (assembleText (fun _ => .error .notFound) {}
        ("main:\nsl 0xFFFF\nadd\nadd 0x000A\nspop 0x0000\nrgw PC\nrgr MAR\nnop\njmpa\n" ++
          "hlt")).result = .ok assembly ∧
      assembly.image.code = CodeUnit.encodeAll mixedUnits ∧ assembly.warnings = [] := by
  have hspelled : ∀ unit ∈ mixedUnits,
      unit.1 ≠ .llbl ∧ (unit.1 ∈ [.nop, .hlt, .jmpa] → unit.2 = 0) ∧
        (unit.1 ∈ [.rgw, .rgr] → unit.2.toNat < 11) := by
    decide
  refine assembleText_disassemble _ mixedUnits (fun unit hunit => ?_) (by decide) _
    (.inl (by decide +kernel))
  obtain ⟨hlabel, hplain, hregister⟩ := hspelled unit hunit
  exact ⟨hlabel, hplain, hregister⟩

end StackAsm
