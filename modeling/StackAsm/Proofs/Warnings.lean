import StackAsm.Proofs.Assembled
import StackAsm.Proofs.Literals

/-!
# StackAsm.Proofs.Warnings

Which warnings there are, read off the lines.

`Program.remarks` says what there is to remark on a line, given the lines that were read before it,
and `Program.unused` what there is to say at the end on labels that nothing refers to. Neither asks
the assembler: a label is declared again if a line before declares it, an addition is one of zero if
it is spelled so (`Literal.IsZero`), and a file has no guard if its first line is none. The warnings
of an assembly are these, in this order, and no others (`assembled_warnings`).

## Proof shape

One turn of the loop adds the remarks on the line it reads (`Scanner.Turn.warnings`). For that it is
enough to know that the scanner has read the lines before (`Scanner.Reads`): its table then knows
the labels that they declare, and it has a current label if they declare any. So turns one after
another add the remarks on all lines that they read, each with the files as they were at that turn
(`Scanner.History.warnings`).
-/

namespace StackAsm

/-! ### How zero is spelled -/

namespace Literal

/-- What may stand in front of the digits: nothing, or a mark. -/
def marks : List (List Char) := [] :: marked.map Prod.fst

/-- A literal is zero if it is made of zeros, at least one, after a mark or without one. -/
def IsZero (cs : List Char) : Prop :=
  ∃ mark ∈ marks, mark.length < cs.length ∧
    cs = mark ++ List.replicate (cs.length - mark.length) '0'

instance (cs : List Char) : Decidable (IsZero cs) :=
  inferInstanceAs (Decidable (∃ mark ∈ marks, mark.length < cs.length ∧
    cs = mark ++ List.replicate (cs.length - mark.length) '0'))

/-- The digits of zero. -/
def Zeros (digits : List Char) : Prop := digits ≠ [] ∧ ∀ c ∈ digits, c = '0'

theorem isZero_iff {cs : List Char} :
    IsZero cs ↔ ∃ mark ∈ marks, ∃ digits, Zeros digits ∧ cs = mark ++ digits := by
  constructor
  · intro h
    obtain ⟨mark, hmark, hlength, hcs⟩ := h
    refine ⟨mark, hmark, _, ⟨?_, fun c hc => List.eq_of_mem_replicate hc⟩, hcs⟩
    rw [Ne, List.replicate_eq_nil_iff]
    omega
  · intro h
    obtain ⟨mark, hmark, digits, ⟨hne, hzeros⟩, rfl⟩ := h
    have hlength : 0 < digits.length := List.length_pos_iff.mpr hne
    refine ⟨mark, hmark, by rw [List.length_append]; omega, ?_⟩
    rw [List.length_append, Nat.add_sub_cancel_left, ← List.eq_replicate_of_mem hzeros]

/-- The only digit for zero is the same in every base. -/
theorem isDigit_zero_iff {radix : Nat} (hradix : 0 < radix) {c : Char} :
    IsDigit radix c 0 ↔ c = '0' := by
  simp [IsDigit, hradix, smallDigits, capitalDigits, eq_comm]

/-- Digits reach zero only if all of them are zero. -/
theorem reaches_zero_iff {radix value : Nat} (hradix : 0 < radix) {cs : List Char} :
    Reaches radix value cs 0 ↔ value = 0 ∧ ∀ c ∈ cs, c = '0' := by
  induction cs generalizing value with
  | nil => simp [Reaches]
  | cons c cs ih =>
    simp only [Reaches, ih, List.forall_mem_cons]
    constructor
    · intro h
      obtain ⟨d, hd, hvalue, hrest⟩ := h
      obtain ⟨hproduct, rfl⟩ := Nat.add_eq_zero_iff.mp hvalue
      exact ⟨(Nat.mul_eq_zero.mp hproduct).resolve_right (Nat.ne_of_gt hradix),
        (isDigit_zero_iff hradix).mp hd, hrest⟩
    · intro h
      obtain ⟨rfl, hc, hrest⟩ := h
      exact ⟨0, (isDigit_zero_iff hradix).mpr hc, by simp, hrest⟩

/-- A mark sets the base and is no part of the digits. -/
theorem HasBase.zeros_iff {cs digits : List Char} {radix : Nat} (h : HasBase cs radix digits) :
    Zeros digits ↔ IsZero cs := by
  have hmarked : ∀ m ∈ Literal.marked, m.1.length = 2 ∧ ∃ c ∈ m.1, c ≠ '0' := by
    simp [Literal.marked]
  rw [isZero_iff]
  constructor
  · intro hzeros
    cases h with
    | marked hmark hcs =>
      exact ⟨_, List.mem_cons_of_mem [] (List.mem_map_of_mem hmark), digits, hzeros, hcs⟩
    | plain _ => exact ⟨[], List.mem_cons_self, cs, hzeros, rfl⟩
  · intro hzero
    obtain ⟨mark, hmark, zeros, hzeros, hcs⟩ := hzero
    rcases List.mem_cons.mp hmark with rfl | hmark
    · -- no zero is taken for a mark
      cases h with
      | marked hmark' hcs' =>
        obtain ⟨-, c, hc, hne⟩ := hmarked _ hmark'
        have hmem : c ∈ zeros := by
          rw [← List.nil_append zeros, ← hcs, hcs']
          exact List.mem_append_left _ hc
        exact absurd (hzeros.2 c hmem) hne
      | plain _ => exact hcs ▸ hzeros
    · obtain ⟨m, hm, rfl⟩ := List.mem_map.mp hmark
      cases h with
      | marked hmark' hcs' =>
        have hlength := (hmarked _ hmark').1.trans (hmarked _ hm).1.symm
        rw [(List.append_inj (hcs'.symm.trans hcs) hlength).2]
        exact hzeros
      | plain hnone => exact absurd ⟨zeros, hcs.symm⟩ (hnone m hm)

theorem parse_eq_zero_iff {cs : List Char} : parse cs = .ok 0 ↔ IsZero cs := by
  have hbase := hasBase_splitRadix cs
  rw [parse, readWord_eq_ok_iff hbase.pos, denotes_iff_reaches, UInt16.toNat_zero,
    reaches_zero_iff hbase.pos, and_iff_right rfl]
  exact hbase.zeros_iff

end Literal

/-- The operand of an instruction has no outer blanks. -/
theorem Line.trimmed_operand {text mnemonic operand : String}
    (h : classify text = .instruction mnemonic operand) : Text.Trimmed operand.toList := by
  obtain ⟨-, -, hsplit⟩ := ofTrimmed_eq_instruction.mp h
  have hoperand : (Text.splitWord (Text.trimChars text.toList)).2 = operand.toList := by rw [hsplit]
  rw [← hoperand]
  exact Text.trimmed_trimChars _

theorem Mnemonic.warnings_encode_add {operand : String} {code : Encoded}
    (htrimmed : Text.Trimmed operand.toList) (h : add.encode operand = .ok code) :
    code.warnings = if Literal.IsZero operand.toList then [.addZeroReadsStack] else [] := by
  simp only [encode, encodeAdd] at h
  split at h
  · rename_i hempty
    cases h
    rw [hempty]
    rfl
  · obtain ⟨w, hw, hcode⟩ := exists_ok_of_bind h
    cases hcode
    have hzero : w = 0 ↔ Literal.IsZero operand.toList := by
      unfold Operand.literal at hw
      simp only [htrimmed.trimChars_eq] at hw
      split at hw
      · cases hw
      · cases hparse : Literal.parse operand.toList with
        | error e =>
          rw [hparse] at hw
          cases hw
        | ok w' =>
          rw [hparse] at hw
          cases hw
          rw [← Literal.parse_eq_zero_iff, hparse, Except.ok.injEq]
    simp only [hzero]

/-- There is a remark on an instruction if it is spelled as an addition of zero. -/
theorem Line.warnings_code? {text mnemonic operand : String} {code : Encoded}
    (hline : classify text = .instruction mnemonic operand)
    (hcode : (instruction mnemonic operand).code? = some code) :
    code.warnings =
      if mnemonic = "add" ∧ Literal.IsZero operand.toList then [.addZeroReadsStack] else [] := by
  obtain ⟨m, hm, hencode⟩ := code?_instruction.mp hcode
  obtain rfl : m.name = mnemonic := by simpa using List.find?_some hm
  by_cases hadd : m = .add
  · subst hadd
    rw [Mnemonic.warnings_encode_add (trimmed_operand hline) hencode]
    simp [Mnemonic.name]
  · have hname : m.name ≠ "add" := by
      cases m <;> simp_all [Mnemonic.name]
    rw [Mnemonic.warnings_encode_of_ne_add hadd hencode, if_neg fun h => hname h.1]

/-! ### Files without a guard -/

namespace Directive

/-- The file that an include names, if it can be read and does not start with a guard line. -/
def unguarded? (load : Loader) (line : Located String) : Option Path :=
  (wanted? line).filter fun path =>
    (load path).toOption.any fun text => (fileTag? text).isNone

theorem unguarded?_of_includes {load : Loader} {line : Located String} {path : Path}
    {text : String} (h : Includes load line path text) :
    unguarded? load line = if fileTag? text = none then some path else none := by
  simp [unguarded?, h.wanted, h.served, Except.toOption, Option.filter_some]

theorem unguarded?_of_isGuardLine {load : Loader} {line : Located String} {tag : String}
    (h : IsGuardLine line tag) : unguarded? load line = none := by
  simp [unguarded?, wanted?, h.split]

end Directive

/-- A directive gives rise to a warning if it includes a file without a guard. -/
theorem Stream.Advances.warning? {load : Loader} {p : Pending} {rest : List Pending}
    {guards : Std.TreeSet String} {effect : Effect} {s' : Stream}
    (h : Advances load p rest guards (some effect) s') :
    effect.warning? = (Directive.unguarded? load p.line).map .missingIncludeGuard := by
  cases h with
  | registered hguard =>
    rw [Directive.unguarded?_of_isGuardLine hguard]
    rfl
  | skipped hincludes htag _ =>
    rw [Directive.unguarded?_of_includes hincludes, htag]
    rfl
  | @pasted path text hincludes _ _ _ =>
    rw [Directive.unguarded?_of_includes hincludes]
    cases Directive.fileTag? text <;> rfl

/-! ### Remarks on lines -/

namespace Program

/-- What there is to remark on a line that is read after the lines `before`. -/
def remarks (load : Loader) (before : Program) (line : Located String) : List Warning :=
  match Line.classify line.val with
  | .blank | .comment => []
  | .directive => ((Directive.unguarded? load line).map .missingIncludeGuard).toList
  | .label name => if before.Declares name then [.labelRedefined name] else []
  | .instruction mnemonic operand =>
    (if ∃ other ∈ before, other.val.isItem then [] else [.automaticMain Scanner.automaticMain]) ++
      if mnemonic = "add" ∧ Literal.IsZero operand.toList then [.addZeroReadsStack] else []

/-- The remarks on lines that are read after the lines `before`, in order and each at its line. -/
def remarksOn (load : Loader) (before : Program) : List (Located String) → List (Located Warning)
  | [] => []
  | line :: rest =>
    (remarks load before line).map (Located.mk line.loc) ++
      remarksOn load (before ++ ofLines [line]) rest

/-- The same along turns, each with the files as they were then. -/
def remarksAlong (before : Program) : List Scanner.Handled → List (Located Warning)
  | [] => []
  | h :: rest =>
    (remarks h.load before h.line).map (Located.mk h.line.loc) ++
      remarksAlong (before ++ ofLines [h.line]) rest

theorem remarksAlong_eq {load : Loader} {hs : List Scanner.Handled}
    (hload : ∀ h ∈ hs, h.load = load) (before : Program) :
    before.remarksAlong hs = before.remarksOn load (hs.map Scanner.Handled.line) := by
  induction hs generalizing before with
  | nil => rfl
  | cons h hs ih =>
    obtain ⟨hfirst, hrest⟩ := List.forall_mem_cons.mp hload
    rw [remarksAlong, hfirst, ih hrest]
    rfl

theorem remarksAlong_append_singleton (before : Program) (hs : List Scanner.Handled)
    (h : Scanner.Handled) :
    before.remarksAlong (hs ++ [h]) = before.remarksAlong hs ++
      (remarks h.load (before ++ ofLines (hs.map Scanner.Handled.line)) h.line).map
        (Located.mk h.line.loc) := by
  induction hs generalizing before with
  | nil => simp [remarksAlong, ofLines]
  | cons first hs ih =>
    have hsplit : before ++ ofLines ((first :: hs).map Scanner.Handled.line) =
        (before ++ ofLines [first.line]) ++ ofLines (hs.map Scanner.Handled.line) := by
      simp [ofLines]
    rw [List.cons_append, remarksAlong, remarksAlong, ih, hsplit]
    exact (List.append_assoc _ _ _).symm

/-- The labels that are neither the entry point nor referred to by any line, by first declaration
and each at its last one. -/
def unused (p : Program) (entryPoint : String) : List (Located Warning) :=
  (Declaration.names p.declarations).filterMap fun name =>
    if name = entryPoint ∨ ∃ line ∈ p, line.val.reference? = some name then none
    else (Declaration.last? p.declarations name).map fun d => ⟨d.1.loc, .unusedLabel name⟩

end Program

namespace Scanner

variable {load : Loader} {opts : Options} {s s' : Scanner} {p : Program} {line : Located String}

theorem toList_warnings_warn (s : Scanner) (loc : Location) (ws : List Warning) :
    (s.warn loc ws).scan.warnings.toList = s.scan.warnings.toList ++ ws.map (Located.mk loc) := by
  simp [warn]

/-- A label that is declared again is remarked on. -/
theorem Reads.warnings_declare (hs : s.Reads p) {loc : Location} {name : String}
    (h : (s.declare loc name).result = .ok s') :
    s'.scan.warnings.toList = s.scan.warnings.toList ++
      (if p.Declares name then [Warning.labelRedefined name] else []).map (Located.mk loc) := by
  rw [Scanner.result_declare] at h
  split_ifs at h
  cases h
  have hknown : (s.scan.symbols.get? name).isSome = true ↔ p.Declares name :=
    (hs.symbols.get?_isSome name).trans Declaration.mem_names
  simp only [declared, toList_warnings_warn, hknown]

/-- The automatic label is remarked on. It is the first one, so that it is not declared again. -/
theorem Reads.warnings_currentLabel (hs : s.Reads p) {loc : Location} {label : String}
    (h : (Scanner.currentLabel opts s loc).result = .ok (label, s')) :
    s'.scan.warnings.toList = s.scan.warnings.toList ++
      (if ∃ other ∈ p, other.val.isItem then []
        else [Warning.automaticMain automaticMain]).map (Located.mk loc) := by
  have hnil : p.declarations = [] ↔ ¬ ∃ other ∈ p, other.val.isItem = true := by
    simp [Program.declarations_eq_nil_iff]
  rw [result_currentLabel, hs.label] at h
  cases hlast : p.declarations.getLast? with
  | some last =>
    have hitem : ∃ other ∈ p, other.val.isItem = true := by
      by_contra hnot
      simp [hnil.mpr hnot] at hlast
    rw [hlast] at h
    cases h
    rw [if_pos hitem, List.map_nil, List.append_nil]
  | none =>
    have hempty : p.declarations = [] := List.getLast?_eq_none_iff.mp hlast
    rw [hlast] at h
    simp only [Option.map_none] at h
    split_ifs at h
    obtain ⟨declared, hdeclare, hfound⟩ := exists_ok_of_map (congrArg Except.toOption h)
    cases hfound
    have hreads : (s.warn loc [.automaticMain automaticMain]).Reads p := hs.warn loc _
    have hnew : ¬ p.Declares automaticMain := by simp [Program.Declares, hempty]
    rw [hreads.warnings_declare hdeclare, if_neg hnew, if_neg (hnil.mp hempty),
      toList_warnings_warn, List.map_nil, List.append_nil]

/-- Code brings its own remarks. -/
theorem warnings_placed {loc : Location} {mnemonic operand label : String}
    (h : s.placed loc mnemonic operand label = .ok s') :
    ∃ code, (Line.instruction mnemonic operand).code? = some code ∧
      s'.scan.warnings.toList = s.scan.warnings.toList ++ code.warnings.map (Located.mk loc) := by
  unfold placed at h
  cases hcode : encodeInstruction mnemonic operand label with
  | error e =>
    rw [hcode] at h
    cases h
  | ok code =>
    rw [hcode] at h
    simp only [result_emit] at h
    split_ifs at h
    cases h
    exact ⟨code, Line.encodeInstruction_eq_ok_iff_code?.mp hcode, toList_warnings_warn _ _ _⟩

theorem warnings_directive (h : (s.directive load line).result = .ok s') :
    ∃ effect, s.stream.directive load line = (s'.stream, .ok effect) ∧
      s'.scan.warnings.toList =
        s.scan.warnings.toList ++ effect.warning?.toList.map (Located.mk line.loc) := by
  unfold directive at h
  split at h
  · cases h
  · rename_i stream effect hdirective
    cases h
    exact ⟨effect, hdirective, toList_warnings_warn _ _ _⟩

/-- **One line.** Handling a line adds the remarks on it. -/
theorem Turn.warnings (turn : Turn load opts s line (.ok s')) (hs : s.Reads p) :
    s'.scan.warnings.toList =
      s.scan.warnings.toList ++ (p.remarks load line).map (Located.mk line.loc) := by
  obtain ⟨next, rest, -, rfl, hstep⟩ := turn.exists_pending
  have hreads : Reads { s with stream := ⟨⟨rest, next.includers⟩, s.stream.guards⟩ } p :=
    ⟨hs.label, hs.pointer, hs.symbols, hs.segments⟩
  unfold step at hstep
  unfold Program.remarks
  cases hline : Line.classify next.line.val with
  | blank | comment =>
    rw [hline] at hstep
    cases hstep
    simp
  | directive =>
    rw [hline] at hstep
    obtain ⟨effect, heffect, hwarnings⟩ := warnings_directive hstep
    rw [hwarnings, (Stream.directive_advances hline heffect).warning?]
  | label name =>
    rw [hline] at hstep
    exact hreads.warnings_declare hstep
  | instruction mnemonic operand =>
    rw [hline] at hstep
    simp only [result_instruction] at hstep
    obtain ⟨⟨label, labelled⟩, hlabel, hplaced⟩ := exists_ok_of_bind hstep
    obtain ⟨code, hcode, hwarnings⟩ := warnings_placed hplaced
    rw [hwarnings, hreads.warnings_currentLabel hlabel, Line.warnings_code? hline hcode,
      List.map_append, List.append_assoc]

/-- **All lines.** Turns one after another add the remarks on the lines they read. -/
theorem History.warnings {start : Scanner} {hs : List Handled} (history : History opts start hs s)
    (hstart : start.Reads p) (hp : p.Scannable opts) :
    s.scan.warnings.toList = start.scan.warnings.toList ++ p.remarksAlong hs := by
  induction history with
  | nil => simp [Program.remarksAlong]
  | @snoc hs s s' load line before turn ih =>
    have hreads := (before.reads hstart hp).2
    rw [turn.warnings hreads, ih, Program.remarksAlong_append_singleton, List.append_assoc]

/-- So does a run that ends in a scan. -/
theorem Runs.warnings {read : List (Located String)} {r : Except AssemblyError Scan}
    (h : Runs load opts s read r) (hreads : s.Reads p) (hp : p.Scannable opts) {scan : Scan}
    (hr : r = .ok scan) :
    scan.warnings.toList = s.scan.warnings.toList ++ p.remarksOn load read := by
  obtain ⟨hs, s', history, hload, ⟨-, hend, rfl⟩ | ⟨line, e, -, hend⟩⟩ := h.exists_history
  · cases hr.symm.trans hend
    rw [history.warnings hreads hp, Program.remarksAlong_eq hload]
  · cases hr.symm.trans hend

end Scanner

/-! ### Unused labels -/

namespace Scan.Of

variable {scan : Scan} {p : Program} {opts : Options}

/-- The code refers to a label if a line does. -/
theorem contains_references (h : scan.Of p) (hp : p.Scannable opts) (name : String) :
    scan.references.contains name = true ↔ ∃ line ∈ p, line.val.reference? = some name := by
  have hline : ∀ line ∈ p, (∃ segment ∈ line.val.segments, segment.reference? = some name) ↔
      line.val.reference? = some name := by
    intro line hline
    have hrefs := Line.references_segments (hp.encodable line hline)
    rw [← Option.mem_toList, ← hrefs, Segment.references, List.mem_filterMap]
  unfold references
  rw [Std.TreeSet.contains_ofList, List.contains_iff_mem, List.mem_filterMap, h.segments]
  simp only [Program.segments, List.mem_flatMap, List.mem_map]
  constructor
  · intro hsegments
    obtain ⟨_, ⟨line, hmem, segment, hsegment, rfl⟩, href⟩ := hsegments
    exact ⟨line, hmem, (hline line hmem).mp ⟨segment, hsegment, href⟩⟩
  · intro hlines
    obtain ⟨line, hmem, href⟩ := hlines
    obtain ⟨segment, hsegment, href'⟩ := (hline line hmem).mpr href
    exact ⟨⟨line.loc, segment⟩, ⟨line, hmem, segment, hsegment, rfl⟩, href'⟩

theorem unusedLabels_eq (h : scan.Of p) (hp : p.Scannable opts) (entryPoint : String) :
    scan.unusedLabels entryPoint = p.unused entryPoint := by
  unfold unusedLabels Program.unused
  rw [h.symbols.toList, List.filterMap_filterMap]
  congr 1
  funext name
  cases Declaration.last? p.declarations name with
  | none => simp
  | some d =>
    simp only [Option.map_some, Option.bind_some, h.contains_references hp]
    rfl

end Scan.Of

theorem Scan.warnings_of_assemble {scan : Scan} {opts : Options} {assembly : Assembly}
    (h : (scan.assemble opts).result = .ok assembly) :
    assembly.warnings = scan.warnings.toList ++ scan.unusedLabels opts.entryPoint := by
  rw [result_assemble] at h
  split at h
  · cases h
  · cases h
  · cases h
    rfl

/-- The warnings in the end: the remarks on the lines read, and those on unused labels. -/
theorem Scanner.History.warnings_assemble {opts : Options} {lines : List (Located String)}
    {hs : List Handled} {s : Scanner} {assembly : Assembly}
    (history : History opts (ofLines lines) hs s)
    (h : (s.scan.assemble opts).result = .ok assembly) :
    assembly.warnings = Program.remarksAlong [] hs ++
      (Program.ofLines (hs.map Handled.line)).unused opts.entryPoint := by
  obtain ⟨hp, hreads⟩ := history.reads_ofLines
  have hwarnings := history.warnings (Scanner.reads_ofLines lines) Program.scannable_nil
  have hof : s.scan.Of (Program.ofLines (hs.map Handled.line)) := ⟨hreads.symbols, hreads.segments⟩
  rw [Scan.warnings_of_assemble h, hwarnings, hof.unusedLabels_eq hp]
  rfl

/-- **The warnings are these, in this order, and no others.** The run of the first pass reads the
lines of the file and of the files that are included, and the warnings of an assembly are the
remarks on these lines, each made with the lines before it in view, followed by those on the unused
labels. The same is true if files change while they are read; each remark is then made with the
files as they are at its turn. -/
theorem assembled_warnings (opts : Options) (assembly : Assembly) :
    (∀ load root, (assembleFile load opts root).result = .ok assembly →
      ∃ source read scan, load root = .ok source ∧
        Scanner.Runs load opts (Scanner.ofLines (sourceLines root.text source)) read (.ok scan) ∧
        read.filter isPlain = (expand load [] ∅ (sourceLines root.text source)).lines ∧
        assembly.warnings = Program.remarksOn load [] read ++
          (Program.ofLines read).unused opts.entryPoint) ∧
    ∀ lines hs s, Scanner.History opts (.ofLines lines) hs s → s.stream.next? = none →
      (s.scan.assemble opts).result = .ok assembly →
      assembly.warnings = Program.remarksAlong [] hs ++
        (Program.ofLines (hs.map Scanner.Handled.line)).unused opts.entryPoint := by
  refine ⟨?_, fun lines hs s history _ => history.warnings_assemble⟩
  intro load root h
  unfold assembleFile at h
  split at h
  · cases h
  · rename_i source hsource
    rw [result_assembleLines] at h
    obtain ⟨scan, hscan, hassemble⟩ := exists_ok_of_bind h
    obtain ⟨read, hruns⟩ := Scanner.exists_runs_scanLines load opts (sourceLines root.text source)
    have hlines := hruns.filter_isPlain_ofLines hscan
    rw [hscan] at hruns
    refine ⟨source, read, scan, hsource, hruns, hlines, ?_⟩
    obtain ⟨hs, s, history, hload, ⟨-, hend, rfl⟩ | ⟨line, e, -, hend⟩⟩ := hruns.exists_history
    · cases hend
      rw [← Program.remarksAlong_eq hload]
      exact history.warnings_assemble hassemble
    · cases hend

/-- Files on which there is every remark to make. -/
def carelessFiles : Store :=
  ((({} : Store).insert "u" "nop").insert "g" "#ID g\nf:").insert "r"
    "#include u\nadd 0x0\n#include g\n#include g\nf:\nmain:"

theorem carelessFiles_warnings :
    ∃ assembly, (assembleFile carelessFiles.load {} "r").result = .ok assembly ∧
      assembly.warnings = [⟨⟨"r", 1⟩, .missingIncludeGuard "u"⟩,
        ⟨⟨"u", 1⟩, .automaticMain "main"⟩, ⟨⟨"r", 2⟩, .addZeroReadsStack⟩,
        ⟨⟨"r", 5⟩, .labelRedefined "f"⟩, ⟨⟨"r", 6⟩, .labelRedefined "main"⟩,
        ⟨⟨"r", 5⟩, .unusedLabel "f"⟩] ∧
      ∃ source read scan, carelessFiles.load "r" = .ok source ∧
        Scanner.Runs carelessFiles.load {} (Scanner.ofLines (sourceLines (Path.text "r") source))
          read (.ok scan) ∧
        read.filter isPlain =
          (expand carelessFiles.load [] ∅ (sourceLines (Path.text "r") source)).lines ∧
        assembly.warnings = Program.remarksOn carelessFiles.load [] read ++
          (Program.ofLines read).unused "main" := by
  have hwarned : ((assembleFile carelessFiles.load {} "r").result.map
      Assembly.warnings).toOption = some [⟨⟨"r", 1⟩, .missingIncludeGuard "u"⟩,
        ⟨⟨"u", 1⟩, .automaticMain "main"⟩, ⟨⟨"r", 2⟩, .addZeroReadsStack⟩,
        ⟨⟨"r", 5⟩, .labelRedefined "f"⟩, ⟨⟨"r", 6⟩, .labelRedefined "main"⟩,
        ⟨⟨"r", 5⟩, .unusedLabel "f"⟩] := by cbv
  obtain ⟨assembly, hassembly, hwarnings⟩ := exists_ok_of_map hwarned
  exact ⟨assembly, hassembly, hwarnings,
    (assembled_warnings {} assembly).1 carelessFiles.load "r" hassembly⟩

end StackAsm
