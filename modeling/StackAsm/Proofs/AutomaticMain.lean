import StackAsm.Proofs.Extension
import StackAsm.Proofs.Refusals
import StackAsm.Proofs.Warnings

/-!
# StackAsm.Proofs.AutomaticMain

The label that is declared for an instruction before every label is a label like any other.

A source that starts with instructions is scanned as if there were a line `main:` in front of the
first of them, at its place, and all that is different is the remark on it
(`scanLines_automaticMain`).

## Proof shape

The lines in front of the first instruction register guards and do nothing else
(`Scanner.Runs.preamble`). Then the automatic label is declared within the turn of the instruction,
and the other one in a turn of its own. Where the one scanner makes its first turn and the other one
its second, they differ in one warning, which stands in front of all others, and the turns are the
same (`Scanner.Turn.of_opened`). From there on nobody looks at that warning
(`Scanner.Runs.warnFirst`).
-/

namespace StackAsm

/-! ### A warning in front -/

/-- The scan with one more warning, in front of all others. -/
def Scan.warnFirst (warning : Located Warning) (scan : Scan) : Scan :=
  { scan with warnings := #[warning] ++ scan.warnings }

namespace Scanner

variable {load : Loader} {opts : Options} {s s' : Scanner} {line : Located String}

/-- The scanner with one more warning, in front of all others. -/
def warnFirst (warning : Located Warning) (s : Scanner) : Scanner :=
  { s with scan := s.scan.warnFirst warning }

theorem warnFirst_warn (warning : Located Warning) (s : Scanner) (loc : Location)
    (ws : List Warning) :
    (s.warn loc ws).warnFirst warning = (s.warnFirst warning).warn loc ws := by
  simp only [warnFirst, Scan.warnFirst, warn]
  congr 2
  apply Array.toList_inj.mp
  simp

theorem unnoticed_warnFirst (warning : Located Warning) : Unnoticed (warnFirst warning) where
  label _ := rfl
  pointer _ := rfl
  symbols _ := rfl
  warn s loc _ _ := warnFirst_warn warning s loc _
  declared _ loc _ := warnFirst_warn warning _ loc _
  emitted _ _ _ := rfl

/-- No line looks at the warnings. -/
theorem result_step_warnFirst (warning : Located Warning) (s : Scanner) (line : Located String) :
    ((s.warnFirst warning).step load opts line).result =
      (s.step load opts line).result.map (warnFirst warning) := by
  by_cases hline : Line.classify line.val = .directive
  · rw [result_step_directive hline, result_step_directive hline]
    unfold directive
    rw [show (s.warnFirst warning).stream = s.stream from rfl]
    obtain ⟨stream, result⟩ := s.stream.directive load line
    cases result with
    | error e => rfl
    | ok effect =>
      exact congrArg Except.ok
        (warnFirst_warn warning { s with stream } line.loc effect.warning?.toList).symm
  · exact (unnoticed_warnFirst warning).result_step hline load load opts s

theorem Turn.warnFirst {r : Except AssemblyError Scanner} (h : Turn load opts s line r)
    (warning : Located Warning) :
    Turn load opts (s.warnFirst warning) line (r.map (Scanner.warnFirst warning)) := by
  obtain ⟨stream, hnext, rfl⟩ := h
  exact ⟨stream, hnext, result_step_warnFirst warning { s with stream } line⟩

/-- So it does not matter whether there is one more. -/
theorem Runs.warnFirst {read : List (Located String)} {r : Except AssemblyError Scan}
    (h : Runs load opts s read r) (warning : Located Warning) :
    Runs load opts (s.warnFirst warning) read (r.map (Scan.warnFirst warning)) := by
  induction h with
  | done hnext => exact .done hnext
  | refused turn => exact .refused (turn.warnFirst warning)
  | next turn _ ih => exact .next (turn.warnFirst warning) ih

end Scanner

/-! ### Lines in front of the first instruction -/

/-- A line that may stand in front of everything: it is blank, or a comment, or a guard line. -/
inductive IsPreamble (line : Located String) : Prop
  | blank : Line.classify line.val = .blank → IsPreamble line
  | comment : Line.classify line.val = .comment → IsPreamble line
  | guardLine {tag : String} : IsGuardLine line tag → IsPreamble line

namespace Scanner

variable {load : Loader} {opts : Options} {s : Scanner} {line : Located String}

/-- Such a line changes the guards at most. -/
theorem exists_guards_of_preamble (load : Loader) (opts : Options) (h : IsPreamble line)
    (guards : Std.TreeSet String) :
    ∃ guards', ∀ (s : Scanner) (queue : LineQueue),
      (({ s with stream := ⟨queue, guards⟩ } : Scanner).step load opts line).result =
        .ok { s with stream := ⟨queue, guards'⟩ } := by
  cases h with
  | blank hline =>
    refine ⟨guards, fun s queue => ?_⟩
    rw [step, hline]
    rfl
  | comment hline =>
    refine ⟨guards, fun s queue => ?_⟩
    rw [step, hline]
    rfl
  | @guardLine tag hguard =>
    refine ⟨guards.insert tag, fun s queue => ?_⟩
    rw [result_step_directive hguard.directive]
    unfold directive
    rw [Stream.directive_of_guard hguard.split]
    rfl

/-- A run may begin with such lines, whatever comes after them. -/
theorem Runs.preamble (load : Loader) (opts : Options) {lines : List (Located String)}
    (h : ∀ line ∈ lines, IsPreamble line) (guards : Std.TreeSet String) :
    ∃ guards', ∀ (s : Scanner) (chain : List Path) (rest : List Pending)
      (read : List (Located String)) (r : Except AssemblyError Scan),
      Runs load opts { s with stream := ⟨⟨rest, []⟩, guards'⟩ } read r →
      Runs load opts
        { s with stream := ⟨⟨lines.map (fun line => ⟨line, []⟩) ++ rest, chain⟩, guards⟩ }
        (lines ++ read) r := by
  induction lines generalizing guards with
  | nil => exact ⟨guards, fun s chain rest read r hruns => hruns.of_includers⟩
  | cons line lines ih =>
    obtain ⟨guards₁, hstep⟩ := exists_guards_of_preamble load opts (h line (by simp)) guards
    obtain ⟨guards', hrest⟩ := ih (fun other hother => h other (by simp [hother])) guards₁
    refine ⟨guards', fun s chain rest read r hruns => ?_⟩
    let queue : LineQueue := ⟨lines.map (fun line => ⟨line, []⟩) ++ rest, []⟩
    have turn : Turn load opts
        { s with stream := ⟨⟨⟨line, []⟩ :: queue.pending, chain⟩, guards⟩ } line
        (.ok { s with stream := ⟨queue, guards₁⟩ }) :=
      ⟨⟨queue, guards⟩, rfl, hstep s queue⟩
    exact .next turn (hrest s [] rest read r hruns)

/-- So the first pass reads them and goes on, whatever comes after them. -/
theorem result_scanLines_preamble (load : Loader) (opts : Options)
    {preamble : List (Located String)} (h : ∀ line ∈ preamble, IsPreamble line) :
    ∃ guards, ∀ (lines read : List (Located String)) (r : Except AssemblyError Scan),
      Runs load opts { stream := ⟨⟨lines.map (fun line => ⟨line, []⟩), []⟩, guards⟩ } read r →
      (scanLines load opts (preamble ++ lines)).result = r := by
  obtain ⟨guards, hruns⟩ := Runs.preamble load opts h {}
  refine ⟨guards, fun lines read r hrest => ?_⟩
  have hlines : ofLines (preamble ++ lines) =
      { stream := ⟨⟨preamble.map (fun line => ⟨line, []⟩) ++
          lines.map (fun line => ⟨line, []⟩), []⟩, {}⟩ } := by
    simp [ofLines, LineQueue.ofLines, LineQueue.splice]
  have hall : Runs load opts (ofLines (preamble ++ lines)) (preamble ++ read) r :=
    hlines ▸ hruns (ofLines []) [] _ read r hrest
  exact hall.result_scanLines

/-! ### The first instruction -/

/-- The remark on the label that is declared for a line. -/
def automaticRemark (line : Located String) : Located Warning :=
  ⟨line.loc, .automaticMain automaticMain⟩

/-- A scanner that has declared a label for a line, and nothing else. -/
def opened (stream : Stream) (line : Located String) : Scanner :=
  ({ stream } : Scanner).declared line.loc automaticMain

theorem result_declare_opened (stream : Stream) (line : Located String) :
    (({ stream } : Scanner).declare line.loc automaticMain).result = .ok (opened stream line) := by
  have hname : automaticMain ≠ "" := by decide
  have hfree : ¬ ({} : SymbolTable).isFull = true := by decide
  rw [result_declare, if_neg hname, if_neg hfree]
  rfl

theorem warn_eq_warnFirst (stream : Stream) (line : Located String) :
    ({ stream } : Scanner).warn line.loc [.automaticMain automaticMain] =
      ({ stream } : Scanner).warnFirst (automaticRemark line) := by
  simp [warn, warnFirst, Scan.warnFirst, automaticRemark]

/-- The stream in front of a line, which the outermost file holds. -/
def streamAt (line : Located String) (rest : List Pending) (guards : Std.TreeSet String) : Stream :=
  ⟨⟨⟨line, []⟩ :: rest, []⟩, guards⟩

section First

variable {first : Located String} {mnemonic operand : String} {rest : List Pending}
  {guards : Std.TreeSet String} {read : List (Located String)}
  (hfirst : Line.classify first.val = .instruction mnemonic operand)

include hfirst

/-- An instruction before every label is handled as if the label were declared, with the remark on
it. -/
theorem result_step_first (hauto : opts.automaticMain = true) (stream : Stream) :
    (({ stream } : Scanner).step load opts first).result =
      (((opened stream first).warnFirst (automaticRemark first)).step load opts first).result := by
  have hnone : (currentLabel opts ({ stream } : Scanner) first.loc).result =
      .ok (automaticMain, (opened stream first).warnFirst (automaticRemark first)) := by
    rw [result_currentLabel]
    simp only [hauto, if_true]
    rw [warn_eq_warnFirst, (unnoticed_warnFirst _).result_declare, result_declare_opened]
    rfl
  have hopened : (currentLabel opts ((opened stream first).warnFirst (automaticRemark first))
      first.loc).result =
        .ok (automaticMain, (opened stream first).warnFirst (automaticRemark first)) := by
    rw [result_currentLabel]
    rfl
  unfold step
  rw [hfirst]
  simp only [result_instruction, hnone, hopened]

/-- The turn on it is the same, whether or not the label is declared before. -/
theorem Turn.of_opened (hauto : opts.automaticMain = true) {r : Except AssemblyError Scanner}
    (h : Turn load opts ((opened (streamAt first rest guards) first).warnFirst
      (automaticRemark first)) line r) :
    Turn load opts { stream := streamAt first rest guards } line r := by
  obtain ⟨stream, hnext, hstep⟩ := h
  refine ⟨stream, hnext, ?_⟩
  obtain ⟨p, rest', hpending, rfl, rfl⟩ := Stream.next?_eq_some hnext
  obtain ⟨rfl, rfl⟩ := List.cons.inj hpending
  rw [← hstep]
  exact result_step_first hfirst hauto _

theorem Runs.of_opened (hauto : opts.automaticMain = true) {r : Except AssemblyError Scan}
    (h : Runs load opts ((opened (streamAt first rest guards) first).warnFirst
      (automaticRemark first)) read r) :
    Runs load opts { stream := streamAt first rest guards } read r := by
  cases h with
  | done hnext => cases next?_eq_none_iff.mp hnext
  | refused turn => exact .refused (turn.of_opened hfirst hauto)
  | next turn hrest => exact .next (turn.of_opened hfirst hauto) hrest

/-- **From the first instruction on.** A run with a label line in front of it gives rise to a run
without that line, which ends in the same, but for the remark. -/
theorem Runs.automaticMain (hauto : opts.automaticMain = true) {r : Except AssemblyError Scan}
    (h : Runs load opts
      { stream := streamAt ⟨first.loc, "main:"⟩ (⟨first, []⟩ :: rest) guards } read r) :
    ∃ read', Runs load opts { stream := streamAt first rest guards } read'
      (r.map (Scan.warnFirst (automaticRemark first))) := by
  obtain ⟨read', r', hopened⟩ := exists_runs load opts (opened (streamAt first rest guards) first)
  have hlabel : Line.classify "main:" = .label Scanner.automaticMain := by decide
  have hstep : (({ stream := streamAt first rest guards } : Scanner).step load opts
      ⟨first.loc, "main:"⟩).result = .ok (opened (streamAt first rest guards) first) := by
    unfold step
    rw [hlabel]
    exact result_declare_opened _ first
  -- the label line takes a turn of its own, and the rest of the run is the one from there
  obtain ⟨-, rfl⟩ := h.unique (.next ⟨streamAt first rest guards, rfl, hstep⟩ hopened)
  exact ⟨read', (hopened.warnFirst (automaticRemark first)).of_opened hfirst hauto⟩

/-- Without an automatic label, there is no way past the first instruction. -/
theorem Runs.noLabel (hauto : opts.automaticMain = false) :
    Runs load opts { stream := streamAt first rest guards } [first]
      (.error (.scan ⟨first.loc, .noLabel⟩)) := by
  have hstep : (({ stream := ⟨⟨rest, []⟩, guards⟩ } : Scanner).step load opts first).result =
      .error (.scan ⟨first.loc, .noLabel⟩) := by
    unfold step
    rw [hfirst]
    simp only [result_instruction, result_currentLabel, hauto]
    rfl
  exact .refused ⟨⟨⟨rest, []⟩, guards⟩, rfl, hstep⟩

end First

end Scanner

/-! ### How often there is such a remark -/

/-- Whether a warning is about a label that was declared automatically. -/
def Warning.isAutomaticMain : Warning → Bool
  | automaticMain _ => true
  | _ => false

namespace Program

/-- There is such a remark on an instruction before which there is neither a label nor another
instruction. -/
theorem countP_remarks (load : Loader) (before : Program) (line : Located String) :
    (remarks load before line).countP Warning.isAutomaticMain =
      if (Line.classify line.val).isInstruction = true ∧ ¬ ∃ other ∈ before, other.val.isItem
      then 1 else 0 := by
  unfold remarks
  cases hline : Line.classify line.val with
  | blank => rfl
  | comment => rfl
  | directive => cases Directive.unguarded? load line <;> rfl
  | label name => simp only; split <;> rfl
  | instruction mnemonic operand =>
    simp only [Line.isInstruction, true_and, List.countP_append]
    split_ifs <;> rfl

/-- So there is one at most. -/
theorem countP_remarksOn_le (load : Loader) (before : Program) (lines : List (Located String)) :
    (remarksOn load before lines).countP (fun w => w.val.isAutomaticMain) ≤
      if ∃ other ∈ before, other.val.isItem then 0 else 1 := by
  induction lines generalizing before with
  | nil => exact Nat.zero_le _
  | cons line lines ih =>
    have hhead : ((remarks load before line).map (Located.mk line.loc)).countP
        (fun w => w.val.isAutomaticMain) = _ :=
      List.countP_map.trans (countP_remarks load before line)
    have hrest := ih (before ++ ofLines [line])
    have hitems : (∃ other ∈ before ++ ofLines [line], other.val.isItem = true) ↔
        (∃ other ∈ before, other.val.isItem = true) ∨ (Line.classify line.val).isItem = true := by
      simp [ofLines, or_and_right, exists_or]
    rw [remarksOn, List.countP_append, hhead]
    by_cases hbefore : ∃ other ∈ before, other.val.isItem = true
    · rw [if_pos (hitems.mpr (.inl hbefore))] at hrest
      rw [if_neg fun h => h.2 hbefore, if_pos hbefore]
      omega
    · by_cases hline : (Line.classify line.val).isInstruction = true
      · rw [if_pos (hitems.mpr (.inr (Line.isItem_of_isInstruction hline)))] at hrest
        rw [if_pos ⟨hline, hbefore⟩, if_neg hbefore]
        omega
      · rw [if_neg fun h => hline h.1, if_neg hbefore]
        split at hrest <;> omega

end Program

/-- A scan has at most one label that was declared automatically. -/
theorem Scan.countP_automaticMain_le {load : Loader} {opts : Options}
    {lines : List (Located String)} {scan : Scan}
    (h : (scanLines load opts lines).result = .ok scan) :
    scan.warnings.toList.countP (fun w => w.val.isAutomaticMain) ≤ 1 := by
  obtain ⟨read, hruns⟩ := Scanner.exists_runs_scanLines load opts lines
  rw [hruns.warnings (Scanner.reads_ofLines lines) Program.scannable_nil h]
  exact Program.countP_remarksOn_le load [] read

/-- **Automatic main is the same as writing `main:`.** If blank lines, comments and guard lines are
all there is in front of the first instruction, then the lines are scanned as if there were a label
line at the place of that instruction, for good or for bad. On success there is one more warning,
the first one. With the automatic label turned off, the first instruction is refused. In no scan is
there more than one such warning. -/
theorem scanLines_automaticMain (load : Loader) (opts : Options)
    (preamble rest : List (Located String)) (first : Located String)
    (hpreamble : ∀ line ∈ preamble, IsPreamble line)
    (hfirst : ∃ mnemonic operand, Line.classify first.val = .instruction mnemonic operand) :
    (opts.automaticMain = true →
      (scanLines load opts (preamble ++ [first] ++ rest)).result =
        (scanLines load opts (preamble ++ [⟨first.loc, "main:"⟩, first] ++ rest)).result.map
          (Scan.warnFirst ⟨first.loc, .automaticMain "main"⟩)) ∧
    (opts.automaticMain = false →
      (scanLines load opts (preamble ++ [first] ++ rest)).result =
        .error (.scan ⟨first.loc, .noLabel⟩)) ∧
    ∀ (load : Loader) (opts : Options) (lines : List (Located String)) (scan : Scan),
      (scanLines load opts lines).result = .ok scan →
        scan.warnings.toList.countP (fun w => w.val.isAutomaticMain) ≤ 1 := by
  obtain ⟨mnemonic, operand, hfirst⟩ := hfirst
  obtain ⟨guards, hresult⟩ := Scanner.result_scanLines_preamble load opts hpreamble
  simp only [List.append_assoc, List.cons_append, List.nil_append]
  refine ⟨fun hauto => ?_, fun hauto => ?_, fun load opts lines scan =>
    Scan.countP_automaticMain_le⟩
  · let stream := Scanner.streamAt ⟨first.loc, "main:"⟩
      (⟨first, []⟩ :: rest.map (fun line => ⟨line, []⟩)) guards
    obtain ⟨read, r, hlabel⟩ := Scanner.exists_runs load opts { stream }
    obtain ⟨read', hnone⟩ := hlabel.automaticMain hfirst hauto
    rw [hresult (⟨first.loc, "main:"⟩ :: first :: rest) read r hlabel]
    exact hresult (first :: rest) read' _ hnone
  · exact hresult (first :: rest) [first] _ (Scanner.Runs.noLabel hfirst hauto)

/-- Lines that may stand in front of everything. -/
def libraryHead : List (Located String) :=
  [⟨⟨"m", 1⟩, "\t#ID lib"⟩, ⟨⟨"m", 2⟩, "// no label here"⟩, ⟨⟨"m", 3⟩, " "⟩]

/-- An instruction that refers to the automatic label. -/
def selfCall : Located String := ⟨⟨"m", 4⟩, "jmpl main"⟩

/-- Lines that declare the label again, after another file has been read. -/
def libraryTail : List (Located String) :=
  [⟨⟨"m", 5⟩, "#include l"⟩, ⟨⟨"m", 6⟩, "main:"⟩, ⟨⟨"m", 7⟩, "hlt"⟩]

/-- The other file, which begins with an instruction. -/
def libraryFiles : Store := ({} : Store).insert "l" "add 0\nf:\nret\n"

theorem isPreamble_of_mem_libraryHead : ∀ line ∈ libraryHead, IsPreamble line := by
  have hguard : IsGuardLine ⟨⟨"m", 1⟩, "\t#ID lib"⟩ "lib" :=
    ⟨by decide +kernel, by decide +kernel⟩
  simp only [libraryHead, List.forall_mem_cons]
  exact ⟨.guardLine hguard, .comment (by decide +kernel), .blank (by decide +kernel), by simp⟩

theorem selfCall_automaticMain :
    (∀ line ∈ libraryHead, IsPreamble line) ∧
    Line.classify selfCall.val = .instruction "jmpl" "main" ∧
    ((scanLines libraryFiles.load {} (libraryHead ++ [selfCall] ++ libraryTail)).result.map
      fun scan => scan.warnings.toList).toOption =
        some [⟨selfCall.loc, .automaticMain "main"⟩,
          ⟨⟨"m", 5⟩, .missingIncludeGuard "l"⟩, ⟨⟨"l", 1⟩, .addZeroReadsStack⟩,
          ⟨⟨"m", 6⟩, .labelRedefined "main"⟩] ∧
    (scanLines libraryFiles.load {} (libraryHead ++ [selfCall] ++ libraryTail)).result =
      (scanLines libraryFiles.load {}
        (libraryHead ++ [⟨selfCall.loc, "main:"⟩, selfCall] ++ libraryTail)).result.map
          (Scan.warnFirst ⟨selfCall.loc, .automaticMain "main"⟩) ∧
    (scanLines libraryFiles.load { automaticMain := false }
      (libraryHead ++ [selfCall] ++ libraryTail)).result =
        .error (.scan ⟨selfCall.loc, .noLabel⟩) := by
  have hcall : Line.classify selfCall.val = .instruction "jmpl" "main" := by decide +kernel
  obtain ⟨hon, -, -⟩ := scanLines_automaticMain libraryFiles.load {} libraryHead libraryTail
    selfCall isPreamble_of_mem_libraryHead ⟨_, _, hcall⟩
  obtain ⟨-, hoff, -⟩ := scanLines_automaticMain libraryFiles.load { automaticMain := false }
    libraryHead libraryTail selfCall isPreamble_of_mem_libraryHead ⟨_, _, hcall⟩
  exact ⟨isPreamble_of_mem_libraryHead, hcall, by cbv, hon rfl, hoff rfl⟩

end StackAsm
