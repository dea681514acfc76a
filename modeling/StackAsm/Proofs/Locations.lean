import StackAsm.Proofs.OpenFiles
import StackAsm.Proofs.Warnings

/-!
# StackAsm.Proofs.Locations

Locations tell the truth.

A line gets its number when its file is cut into lines, and keeps it through all that follows: the
guard line of a file is taken off, the others are put in front of the queue, and what is made of a
line, be it a symbol, a piece of code, a warning or an error, goes on under its location. So at the
end a location is only as good as the number that was given at the start.

`Loader.LineAt` says what a location is to mean, in terms of the texts that a loader serves. All
lines that are pending or were read stand where they say (`Scanner.History.lineAt_pending`,
`Scanner.History.lineAt_read`). Symbols and code are those of the lines that were read
(`Scanner.History.reads`), and warnings are remarks on such lines (`Scanner.History.warnings`). So
their locations are places of such lines, and of the right kind (`Scan.Truthful`).

A location tells the file by its name. The outermost file has to be looked up by its name therefore
(`Loader.byName`), and if its path is no text, that is not its path (`unspelled_not_lineAt`).
-/

namespace StackAsm

/-! ### Lines and their numbers -/

/-- What the loader serves for the file of a location has `text` as the line with its number,
counted from one. -/
def Loader.LineAt (load : Loader) (loc : Location) (text : String) : Prop :=
  ∃ source, load (.ofText loc.file) = .ok source ∧ 0 < loc.line ∧
    (Text.lines source)[loc.line - 1]? = some text

theorem lineAt_of_mem_sourceLines {load : Loader} {file source : String}
    {line : Located String} (hsource : load (.ofText file) = .ok source)
    (h : line ∈ sourceLines file source) : load.LineAt line.loc line.val := by
  obtain ⟨i, hi, rfl⟩ := List.mem_mapIdx.mp h
  exact ⟨source, hsource, Nat.succ_pos i, List.getElem?_eq_getElem hi⟩

/-! ### Where declarations and code of a program come from -/

namespace Program

variable {p : Program}

/-- A declaration stands at a line that declares its name; the automatic one stands at an
instruction, the first line that counts. -/
theorem exists_line_of_mem_declarations {d : Declaration} (h : d ∈ p.declarations) :
    ∃ line ∈ p, line.loc = d.loc ∧
      (line.val = .label d.name ∨
        d.name = Scanner.automaticMain ∧ line.val.isInstruction = true ∧
          bareStart? p = some line) := by
  rcases List.mem_append.mp h with hauto | hlabel
  · obtain ⟨line, hbare, rfl⟩ : ∃ line, bareStart? p = some line ∧
        ⟨Scanner.automaticMain, line.loc, 0⟩ = d := by simpa using hauto
    obtain ⟨hfind, hinstruction⟩ := Option.filter_eq_some_iff.mp hbare
    exact ⟨line, List.mem_of_find?_eq_some hfind, rfl, .inr ⟨rfl, hinstruction, hbare⟩⟩
  · obtain ⟨⟨line, i⟩, hmem, hd⟩ := List.mem_filterMap.mp hlabel
    refine ⟨line, List.fst_mem_of_mem_zipIdx hmem, ?_⟩
    cases hline : line.val with
    | label name =>
      obtain rfl : ⟨name, line.loc, _⟩ = d := by simpa [declaration?, hline] using hd
      exact ⟨rfl, .inl rfl⟩
    | blank | comment | directive | instruction => simp [declaration?, hline] at hd

/-- A piece of code stands at an instruction, and is part of what that stands for. -/
theorem exists_line_of_mem_segments {segment : Located Segment} (h : segment ∈ p.segments) :
    ∃ line ∈ p, line.loc = segment.loc ∧ line.val.isInstruction = true ∧
      segment.val ∈ line.val.segments := by
  obtain ⟨line, hline, hmem⟩ := List.mem_flatMap.mp h
  obtain ⟨piece, hpiece, rfl⟩ := List.mem_map.mp hmem
  refine ⟨line, hline, rfl, ?_, hpiece⟩
  by_contra hnot
  rw [Line.segments_of_not_isInstruction (by simpa using hnot)] at hpiece
  cases hpiece

theorem mem_ofLines {lines : List (Located String)} {line : Located Line} :
    line ∈ ofLines lines ↔ ∃ l ∈ lines, line = ⟨l.loc, Line.classify l.val⟩ := by
  simp only [ofLines, List.mem_map, eq_comm]

end Program

/-! ### Along a history -/

namespace Scanner

variable {load : Loader} {opts : Options} {s s' : Scanner} {hs : List Handled}
  {line : Located String} {root : Path} {source : String} {lines : List (Located String)}

/-- A line that is refused is the one that the error tells of. -/
theorem Turn.location_of_error {e : AssemblyError} (turn : Turn load opts s line (.error e)) :
    e.location? = some line.loc := by
  obtain ⟨p, rest, -, rfl, hstep⟩ := turn.exists_pending
  by_cases hline : Line.classify p.line.val = .directive
  · rw [result_step_directive hline] at hstep
    obtain ⟨cause, rfl, -⟩ := result_directive_eq_error hstep
    rfl
  · obtain ⟨cause, rfl⟩ := error_of_step_plain hline hstep
    rfl

/-- Warnings are at lines that were read. -/
theorem History.exists_of_mem_warnings (history : History opts (ofLines lines) hs s)
    {w : Located Warning} (hw : w ∈ s.scan.warnings) : ∃ h ∈ hs, h.line.loc = w.loc := by
  induction history with
  | nil => simp [ofLines] at hw
  | @snoc hs s s' load line before turn ih =>
    rw [← Array.mem_toList_iff, turn.warnings before.reads_ofLines.2] at hw
    rcases List.mem_append.mp hw with hold | hnew
    · obtain ⟨h, hh, hloc⟩ := ih (Array.mem_toList_iff.mp hold)
      exact ⟨h, by simp [hh], hloc⟩
    · obtain ⟨remark, -, rfl⟩ := List.mem_map.mp hnew
      exact ⟨⟨load, s, line, s'⟩, by simp, rfl⟩

section

variable (history : History opts (ofLines (sourceLines root.text source)) hs s)
  (hload : ∀ h ∈ hs, h.load = load) (hroot : load root = .ok source)

include history hload hroot

/-- The lines to come stand where they say. -/
theorem History.lineAt_pending :
    ∀ p ∈ s.stream.queue.pending, (load.byName root).LineAt p.line.loc p.line.val := by
  intro p hp
  have hnested := history.nested.mono (history.served hload hroot)
  obtain ⟨text, htext, hline⟩ := hnested.located p hp
  exact lineAt_of_mem_sourceLines htext hline

/-- So do the lines that were read: they were pending before. -/
theorem History.lineAt_read : ∀ h ∈ hs, (load.byName root).LineAt h.line.loc h.line.val := by
  intro h hh
  obtain ⟨before, after, rfl⟩ := List.append_of_mem hh
  obtain ⟨hbefore, turn⟩ := history.split
  obtain ⟨p, rest, hpending, hline, -⟩ := turn.exists_pending
  rw [hline]
  exact hbefore.lineAt_pending (fun x hx => hload x (by simp [hx])) hroot p (by simp [hpending])

end

end Scanner

/-! ### What is made of lines -/

/-- The locations in a scan are places of lines, and of the right kind. -/
structure Scan.Truthful (load : Loader) (opts : Options) (scan : Scan) : Prop where
  /-- A symbol is located at a line that declares it. The automatic one is located at an
  instruction. -/
  symbols : ∀ name symbol, scan.symbols.get? name = some symbol →
    ∃ text, load.LineAt symbol.loc text ∧
      (Line.classify text = .label name ∨
        name = Scanner.automaticMain ∧ opts.automaticMain = true ∧
          (Line.classify text).isInstruction = true)
  /-- A piece of code is located at the instruction that it is part of. -/
  segments : ∀ segment ∈ scan.segments, ∃ text, load.LineAt segment.loc text ∧
    (Line.classify text).isInstruction = true ∧ segment.val ∈ (Line.classify text).segments
  warnings : ∀ w ∈ scan.warnings, ∃ text, load.LineAt w.loc text

namespace Scanner.History

variable {load : Loader} {opts : Options} {s : Scanner} {hs : List Handled} {root : Path}
  {source : String}

/-- At any time the locations in the scan are true. -/
theorem truthful (history : History opts (ofLines (sourceLines root.text source)) hs s)
    (hload : ∀ h ∈ hs, h.load = load) (hroot : load root = .ok source) :
    s.scan.Truthful (load.byName root) opts := by
  obtain ⟨hscannable, hreads⟩ := history.reads_ofLines
  have hread := history.lineAt_read hload hroot
  have hlines : ∀ line ∈ Program.ofLines (hs.map Handled.line),
      ∃ text, (load.byName root).LineAt line.loc text ∧ line.val = Line.classify text := by
    intro line hline
    obtain ⟨l, hl, rfl⟩ := Program.mem_ofLines.mp hline
    obtain ⟨h, hh, rfl⟩ := List.mem_map.mp hl
    exact ⟨h.line.val, hread h hh, rfl⟩
  constructor
  · intro name symbol hget
    rw [hreads.symbols.get?] at hget
    obtain ⟨⟨d, i⟩, hlast, rfl⟩ := Option.map_eq_some_iff.mp hget
    obtain ⟨hd, rfl, -⟩ := Declaration.last?_eq_some hlast
    obtain ⟨line, hline, hloc, hkind⟩ :=
      Program.exists_line_of_mem_declarations (List.mem_of_getElem? hd)
    obtain ⟨text, htext, hval⟩ := hlines line hline
    rw [hloc] at htext
    refine ⟨text, htext, ?_⟩
    rw [← hval]
    rcases hkind with hlabel | ⟨hname, hinstruction, hbare⟩
    · exact .inl hlabel
    · have hauto : opts.automaticMain = true :=
        Program.started_iff.mp hscannable.started (by simp [hbare])
      exact .inr ⟨hname, hauto, hinstruction⟩
  · intro segment hsegment
    have hmem : segment ∈ Program.segments _ := hreads.segments ▸ Array.mem_toList_iff.mpr hsegment
    obtain ⟨line, hline, hloc, hinstruction, hpiece⟩ := Program.exists_line_of_mem_segments hmem
    obtain ⟨text, htext, hval⟩ := hlines line hline
    exact ⟨text, hloc ▸ htext, hval ▸ hinstruction, hval ▸ hpiece⟩
  · intro w hw
    obtain ⟨h, hh, hloc⟩ := history.exists_of_mem_warnings hw
    exact ⟨h.line.val, hloc ▸ hread h hh⟩

end Scanner.History

/-! ### Assembling a file -/

/-- The locations that are reported in the end: of the warnings, or of the error if it has one. -/
def reportedAt : Except AssemblyError Assembly → List Location
  | .ok assembly => assembly.warnings.map Located.loc
  | .error e => e.location?.toList

section

variable {load : Loader} {opts : Options} {root : Path} {source : String} {scan : Scan}

/-- The first pass over a file ends in a scan with true locations, or in an error at a line that
exists. -/
theorem scanLines_located (opts : Options) (hroot : load root = .ok source) :
    match (scanLines load opts (sourceLines root.text source)).result with
    | .ok scan => scan.Truthful (load.byName root) opts
    | .error e => ∃ loc text, e.location? = some loc ∧ (load.byName root).LineAt loc text := by
  obtain ⟨read, hruns⟩ := Scanner.exists_runs_scanLines load opts (sourceLines root.text source)
  obtain ⟨hs, s, history, hload, ⟨-, hr, -⟩ | ⟨line, e, turn, hr⟩⟩ := hruns.exists_history
  · rw [hr]
    exact history.truthful hload hroot
  · rw [hr]
    obtain ⟨p, rest, hpending, hline, -⟩ := turn.exists_pending
    refine ⟨line.loc, p.line.val, turn.location_of_error, ?_⟩
    rw [hline]
    exact history.lineAt_pending hload hroot p (by simp [hpending])

/-- The warnings on unused labels are at the places of symbols. -/
theorem Scan.Truthful.unusedLabels (h : scan.Truthful load opts) {entryPoint : String}
    {w : Located Warning} (hw : w ∈ scan.unusedLabels entryPoint) :
    ∃ text, load.LineAt w.loc text := by
  obtain ⟨⟨name, symbol⟩, hmem, hunused⟩ := List.mem_filterMap.mp hw
  obtain ⟨name', -, hget⟩ := List.mem_filterMap.mp hmem
  obtain ⟨symbol', hsymbol, hpair⟩ := Option.map_eq_some_iff.mp hget
  obtain ⟨rfl, rfl⟩ := Prod.mk.inj hpair
  obtain ⟨text, htext, -⟩ := h.symbols name' symbol' hsymbol
  simp only at hunused
  split at hunused
  · cases hunused
  · cases hunused
    exact ⟨text, htext⟩

/-- A reference to an unknown label is at the place of the code that refers to it. -/
theorem Scan.Truthful.firstUnknown (h : scan.Truthful load opts) {name : Located String}
    (hname : scan.firstUnknown? = some name) : ∃ text, load.LineAt name.loc text := by
  obtain ⟨segment, hsegment, hunknown⟩ := List.exists_of_findSome?_eq_some hname
  obtain ⟨label, -, rfl⟩ := Option.map_eq_some_iff.mp hunknown
  obtain ⟨text, htext, -⟩ := h.segments segment (Array.mem_toList_iff.mp hsegment)
  exact ⟨text, htext⟩

/-- The second pass reports no locations but those of the scan. -/
theorem Scan.Truthful.reportedAt_assemble (h : scan.Truthful load opts) :
    ∀ loc ∈ reportedAt (scan.assemble opts).result, ∃ text, load.LineAt loc text := by
  intro loc hloc
  rw [Scan.result_assemble] at hloc
  split at hloc
  · cases hloc
  · rename_i name _ hname
    obtain rfl : loc = name.loc := by simpa [reportedAt, AssemblyError.location?] using hloc
    exact h.firstUnknown hname
  · obtain ⟨w, hw, rfl⟩ := List.mem_map.mp hloc
    rcases List.mem_append.mp hw with hscan | hunused
    · exact h.warnings w (Array.mem_toList_iff.mp hscan)
    · exact h.unusedLabels hunused

/-- All that is reported when a file is assembled is at lines that exist. -/
theorem reportedAt_assembleFile (load : Loader) (opts : Options) (root : Path) :
    ∀ loc ∈ reportedAt (assembleFile load opts root).result,
      ∃ text, (load.byName root).LineAt loc text := by
  intro loc hloc
  unfold assembleFile at hloc
  split at hloc
  · cases hloc
  · rename_i source hroot
    rw [result_assembleLines] at hloc
    have hlocated := scanLines_located opts hroot
    cases hscan : (scanLines load opts (sourceLines root.text source)).result with
    | ok scan =>
      rw [hscan] at hlocated hloc
      exact hlocated.reportedAt_assemble loc hloc
    | error e =>
      rw [hscan] at hlocated hloc
      obtain ⟨loc', text, hloc', htext⟩ := hlocated
      obtain rfl : loc = loc' := by simpa [Except.bind, reportedAt, hloc'] using hloc
      exact ⟨text, htext⟩

end

/-- **Locations tell the truth.** While a file is assembled, every line to come and every line that
was read is the line of its file that its location says, in the text that the loader serves. Every
symbol is located at a line that declares it, or at an instruction if it is the automatic one, and
every piece of code at an instruction that it belongs to. What comes out in the end, warnings or an
error with a location, points at a line that exists. All this is so for the files as they are named;
if the path of the outermost file is a text, these are the files of the loader. -/
theorem assembleFile_located (load : Loader) (opts : Options) (root : Path) :
    (∀ source hs s, load root = .ok source →
      Scanner.History opts (.ofLines (sourceLines root.text source)) hs s →
      (∀ h ∈ hs, h.load = load) →
        (∀ p ∈ s.stream.queue.pending, (load.byName root).LineAt p.line.loc p.line.val) ∧
        (∀ h ∈ hs, (load.byName root).LineAt h.line.loc h.line.val) ∧
        s.scan.Truthful (load.byName root) opts) ∧
    (∀ assembly, (assembleFile load opts root).result = .ok assembly →
      ∀ w ∈ assembly.warnings, ∃ text, (load.byName root).LineAt w.loc text) ∧
    (∀ e loc, (assembleFile load opts root).result = .error e → e.location? = some loc →
      ∃ text, (load.byName root).LineAt loc text) ∧
    (root.IsText → load.byName root = load) := by
  have hreported := reportedAt_assembleFile load opts root
  refine ⟨?_, ?_, ?_, load.byName_of_isText⟩
  · intro source hs s hroot history hload
    exact ⟨history.lineAt_pending hload hroot, history.lineAt_read hload hroot,
      history.truthful hload hroot⟩
  · intro assembly hok w hw
    rw [hok] at hreported
    exact hreported w.loc (List.mem_map_of_mem hw)
  · intro e loc herror hloc
    rw [herror] at hreported
    exact hreported loc (by simp [reportedAt, hloc])

/-- A file that includes a guarded one; the guard line is taken off, and the instruction in the
third line is unknown. -/
def guardedFault : Store :=
  (({} : Store).insert "d/l" "#ID l\nf:\n  jump f\nnop").insert "m" "sl 1\n\n#include d/l\nhlt"

/-- The turns of the first pass up to the line that is refused. -/
def guardedFaultTurns : List Scanner.Handled :=
  Scanner.turns guardedFault.load {} 5
    (.ofLines (sourceLines (Path.text "m") "sl 1\n\n#include d/l\nhlt"))

theorem guardedFault_located :
    guardedFaultTurns.map Scanner.Handled.line =
      [⟨⟨"m", 1⟩, "sl 1"⟩, ⟨⟨"m", 2⟩, ""⟩, ⟨⟨"m", 3⟩, "#include d/l"⟩, ⟨⟨"d/l", 2⟩, "f:"⟩] ∧
    (∀ h ∈ guardedFaultTurns, Loader.LineAt guardedFault.load h.line.loc h.line.val) ∧
    (assembleFile guardedFault.load {} "m").result =
      .error (.scan ⟨⟨"d/l", 3⟩, .unknownInstruction "jump" "f"⟩) ∧
    ∃ text, Loader.LineAt guardedFault.load ⟨"d/l", 3⟩ text := by
  obtain ⟨s, history⟩ := Scanner.exists_history_turns guardedFault.load {} 5
    (.ofLines (sourceLines (Path.text "m") "sl 1\n\n#include d/l\nhlt"))
  obtain ⟨hstates, -, herrors, hnamed⟩ := assembleFile_located guardedFault.load {} "m"
  rw [hnamed (Path.isText_ofText "m")] at hstates herrors
  have herror : (assembleFile guardedFault.load {} "m").result =
      .error (.scan ⟨⟨"d/l", 3⟩, .unknownInstruction "jump" "f"⟩) := by cbv
  have hroot : guardedFault.load "m" = .ok "sl 1\n\n#include d/l\nhlt" := by cbv
  obtain ⟨-, hread, -⟩ := hstates _ _ s hroot history fun h hh => Scanner.load_of_mem_turns hh
  exact ⟨by decide +kernel, hread, herror, herrors _ _ herror rfl⟩

/-- A faulty file at a path that no text spells. -/
def unspelledFault : Store := ({} : Store).insert Scanner.unspelled "bogus"

theorem unspelled_not_lineAt :
    (∀ p ∈ (Scanner.ofLines (sourceLines Scanner.unspelled.text "bogus")).stream.queue.pending,
      ∀ text, ¬ Loader.LineAt unspelledFault.load p.line.loc text) ∧
    (assembleFile unspelledFault.load {} Scanner.unspelled).result =
      .error (.scan ⟨⟨"\uFFFD", 1⟩, .unknownInstruction "bogus" "main"⟩) ∧
    ∀ text, ¬ Loader.LineAt unspelledFault.load ⟨"\uFFFD", 1⟩ text := by
  have habsent : unspelledFault.load "\uFFFD" = .error .absent := by cbv
  have hnone : ∀ line text, ¬ Loader.LineAt unspelledFault.load ⟨"\uFFFD", line⟩ text := by
    intro line text h
    obtain ⟨source, hsource, -⟩ := h
    cases habsent.symm.trans hsource
  have hname : Scanner.unspelled.text = "\uFFFD" := by decide +kernel
  refine ⟨?_, by cbv, hnone 1⟩
  intro p hp text
  rw [show (Scanner.ofLines _).stream.queue.pending = _ from LineQueue.pending_ofLines _] at hp
  obtain ⟨line, hline, rfl⟩ := List.mem_map.mp hp
  rw [hname] at hline
  have hfile := file_of_mem_sourceLines hline
  obtain ⟨⟨file, n⟩, val⟩ := line
  obtain rfl : file = "\uFFFD" := hfile
  exact hnone n text

end StackAsm
