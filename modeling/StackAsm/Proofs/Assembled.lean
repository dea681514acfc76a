import StackAsm.Proofs.Format
import StackAsm.Proofs.History
import StackAsm.Proofs.Layout

/-!
# StackAsm.Proofs.Assembled

Every assembly is that of a program without directives.

Whatever files are included, the lines that the first pass handles, directives apart, make a
program, and the scan in the end is the scan of that program (`Scanner.Reads.of_runs`). The program
is the one that is left when all files are pasted in (`scanLines_ofSource`). If files change while
they are read, the lines handled still make a program (`Scanner.History.reads`). So what is known of
the images of such programs is known of every image that comes out of the assembler
(`assembleLines_ofSource`, `Assembles.exists_program`). A first use is that such an image can be
written and read back without any condition on it, since its labels have 16-bit ids and are few.
-/

namespace StackAsm

/-! ### Lines that include others -/

theorem Program.ofLines_append (xs ys : List (Located String)) :
    ofLines (xs ++ ys) = ofLines xs ++ ofLines ys :=
  List.map_append

namespace Scanner

variable {load : Loader} {opts : Options} {s s' : Scanner} {p : Program} {line : Located String}

/-- A directive adds nothing to what is collected. -/
theorem Reads.directive (h : s.Reads p) (hok : (s.directive load line).result = .ok s') :
    s'.Reads p := by
  unfold Scanner.directive at hok
  split at hok
  · cases hok
  · cases hok
    exact ⟨h.label, h.pointer, h.symbols, h.segments⟩

/-- What a turn adds to the program that is read: the line, unless it is a directive. -/
theorem Reads.of_turn (h : s.Reads p) (hp : p.Scannable opts)
    (turn : Turn load opts s line (.ok s')) :
    (p ++ Program.ofLines ([line].filter isPlain)).Scannable opts ∧
      s'.Reads (p ++ Program.ofLines ([line].filter isPlain)) := by
  obtain ⟨next, rest, -, rfl, hstep⟩ := turn.exists_pending
  have hreads : Reads { s with stream := ⟨⟨rest, next.includers⟩, s.stream.guards⟩ } p :=
    ⟨h.label, h.pointer, h.symbols, h.segments⟩
  by_cases hline : Line.classify next.line.val = .directive
  · rw [result_step_directive hline] at hstep
    simpa [isPlain, hline, Program.ofLines] using And.intro hp (hreads.directive hstep)
  · have hplain : [next.line].filter isPlain = [next.line] := by simp [isPlain, hline]
    rw [hplain]
    cases hfault : p.fault? opts (Line.classify next.line.val) with
    | none =>
      obtain ⟨s'', hstep', hreads'⟩ := hreads.step hline hfault
      obtain rfl : s' = s'' := Except.ok.inj (hstep.symm.trans hstep')
      exact ⟨Program.scannable_append_singleton.mpr ⟨hp, hfault⟩, hreads'⟩
    | some e => cases hstep.symm.trans (hreads.step_fault hfault)

/-- After a turn the scanner has read one line more; a directive is a line that adds nothing. -/
theorem Reads.append_turn (hs : s.Reads p) (hp : p.Scannable opts)
    (turn : Turn load opts s line (.ok s')) :
    (p ++ Program.ofLines [line]).Scannable opts ∧ s'.Reads (p ++ Program.ofLines [line]) := by
  obtain ⟨hp', hs'⟩ := hs.of_turn hp turn
  by_cases hline : Line.classify line.val = .directive
  · have hnone : [line].filter isPlain = [] := by simp [isPlain, hline]
    have hone : Program.ofLines [line] = [⟨line.loc, .directive⟩] := by
      simp [Program.ofLines, hline]
    rw [hnone, Program.ofLines, List.map_nil, List.append_nil] at hp' hs'
    rw [hone, Program.scannable_append_singleton, reads_append_singleton,
      Line.segments_of_not_isInstruction rfl]
    exact ⟨⟨hp', rfl⟩, by simpa [Program.declaredAfter] using (show s'.Collects _ _ _ from hs')⟩
  · have hall : [line].filter isPlain = [line] := by simp [isPlain, hline]
    rw [hall] at hp' hs'
    exact ⟨hp', hs'⟩

/-- What is collected along a history is what the lines read since then add. -/
theorem History.reads {start : Scanner} {hs : List Handled} (history : History opts start hs s)
    (hstart : start.Reads p) (hp : p.Scannable opts) :
    (p ++ Program.ofLines (hs.map Handled.line)).Scannable opts ∧
      s.Reads (p ++ Program.ofLines (hs.map Handled.line)) := by
  induction history with
  | nil => simpa [Program.ofLines] using And.intro hp hstart
  | @snoc hs s s' load line _ turn ih =>
    obtain ⟨hscannable, hreads⟩ := ih
    rw [List.map_append, Program.ofLines_append, ← List.append_assoc]
    exact hreads.append_turn hscannable turn

theorem History.reads_ofLines {lines : List (Located String)} {hs : List Handled}
    (history : History opts (ofLines lines) hs s) :
    (Program.ofLines (hs.map Handled.line)).Scannable opts ∧
      s.Reads (Program.ofLines (hs.map Handled.line)) :=
  history.reads (Scanner.reads_ofLines lines) Program.scannable_nil

/-- A run that ends in a scan has read a program, and the scan is that of the program. -/
theorem Reads.of_runs {read : List (Located String)} {r : Except AssemblyError Scan}
    (h : Runs load opts s read r) (hs : s.Reads p) (hp : p.Scannable opts) {scan : Scan}
    (hr : r = .ok scan) :
    (p ++ Program.ofLines (read.filter isPlain)).Scannable opts ∧
      scan.Of (p ++ Program.ofLines (read.filter isPlain)) := by
  induction h generalizing p with
  | done _ =>
    cases hr
    simpa [Program.ofLines] using And.intro hp (⟨hs.symbols, hs.segments⟩ : Scan.Of _ p)
  | refused _ => cases hr
  | @next s s' line read r turn _ ih =>
    obtain ⟨hp', hs'⟩ := hs.of_turn hp turn
    rw [← List.singleton_append, List.filter_append, Program.ofLines_append, ← List.append_assoc]
    exact ih hs' hp' hr

end Scanner

/-! ### The program that lines stand for -/

/-- A run that ends in a scan has read the lines of the expansion, directives apart. -/
theorem Scanner.Runs.filter_isPlain {load : Loader} {opts : Options} {s : Scanner}
    {read : List (Located String)} {r : Except AssemblyError Scan} (h : Runs load opts s read r)
    {scan : Scan} (hr : r = .ok scan) :
    read.filter isPlain = (expandQueue load s.stream.guards s.stream.queue.pending).lines := by
  induction h with
  | done hnext =>
    rw [next?_eq_none_iff.mp hnext]
    rfl
  | refused _ => cases hr
  | @next s s' line read r turn _ ih =>
    obtain ⟨p, rest, hpending, rfl, hstep⟩ := turn.exists_pending
    rw [hpending]
    by_cases hline : Line.classify p.line.val = .directive
    · -- the expansion of the queue stays as it is
      rw [result_step_directive hline] at hstep
      obtain ⟨effect, heffect⟩ := result_directive_eq_ok hstep
      rw [expandQueue_directive hline heffect, List.filter_cons_of_neg (by simp [isPlain, hline])]
      exact ih hr
    · -- the expansion loses its first line
      have hstream : s'.stream = ⟨⟨rest, p.includers⟩, s.stream.guards⟩ :=
        stream_of_step_plain hline hstep
      rw [expandQueue_plain hline, List.filter_cons_of_pos (by simp [isPlain, hline]), ih hr,
        hstream]

/-- The program that lines stand for: all files they include are pasted in. -/
def Program.ofSource (load : Loader) (lines : List (Located String)) : Program :=
  ofLines (expand load [] ∅ lines).lines

/-- The first pass over lines reads those of their expansion, directives apart. -/
theorem Scanner.Runs.filter_isPlain_ofLines {load : Loader} {opts : Options}
    {lines read : List (Located String)} {r : Except AssemblyError Scan}
    (h : Runs load opts (ofLines lines) read r) {scan : Scan} (hr : r = .ok scan) :
    read.filter isPlain = (expand load [] ∅ lines).lines := by
  rw [h.filter_isPlain hr, ← expandQueue_ofLines]
  rfl

/-- A scan of lines is the scan of the program they stand for. -/
theorem scanLines_ofSource {load : Loader} {opts : Options} {lines : List (Located String)}
    {scan : Scan} (h : (scanLines load opts lines).result = .ok scan) :
    (Program.ofSource load lines).Scannable opts ∧ scan.Of (Program.ofSource load lines) := by
  obtain ⟨read, hruns⟩ := Scanner.exists_runs_scanLines load opts lines
  have hscan := (Scanner.reads_ofLines lines).of_runs hruns Program.scannable_nil h
  rw [List.nil_append, hruns.filter_isPlain_ofLines h] at hscan
  exact hscan

/-- An assembly of lines is made from the scan of the program they stand for. -/
theorem exists_scan_ofSource {load : Loader} {opts : Options} {lines : List (Located String)}
    {assembly : Assembly} (h : (assembleLines load opts lines).result = .ok assembly) :
    ∃ scan : Scan, (Program.ofSource load lines).Scannable opts ∧
      scan.Of (Program.ofSource load lines) ∧ (scan.assemble opts).result = .ok assembly := by
  rw [result_assembleLines] at h
  obtain ⟨scan, hscan, hassemble⟩ := exists_ok_of_bind h
  obtain ⟨hp, hof⟩ := scanLines_ofSource hscan
  exact ⟨scan, hp, hof, hassemble⟩

/-- An image is the image of the program that the lines stand for. -/
theorem assembleLines_ofSource {load : Loader} {opts : Options} {lines : List (Located String)}
    {assembly : Assembly} (h : (assembleLines load opts lines).result = .ok assembly) :
    (Program.ofSource load lines).IsImage opts assembly.image := by
  obtain ⟨scan, hp, hof, hassemble⟩ := exists_scan_ofSource h
  exact hof.isImage hp hassemble

/-! ### All ways to an assembly -/

/-- An assembly comes from a file, from a text that is no file, or from lines. The files may change
from turn to turn. -/
inductive Assembles (load : Loader) (opts : Options) (assembly : Assembly) : Prop
  | file {root : Path} : (assembleFile load opts root).result = .ok assembly →
      Assembles load opts assembly
  | text {source : String} : (assembleText load opts source).result = .ok assembly →
      Assembles load opts assembly
  | lines {lines : List (Located String)} :
      (assembleLines load opts lines).result = .ok assembly → Assembles load opts assembly
  | turns {lines : List (Located String)} {hs : List Scanner.Handled} {s : Scanner} :
      Scanner.History opts (.ofLines lines) hs s → s.stream.next? = none →
      (s.scan.assemble opts).result = .ok assembly → Assembles load opts assembly

namespace Assembles

variable {load : Loader} {opts : Options} {assembly : Assembly}

theorem exists_scan (h : Assembles load opts assembly) :
    ∃ (p : Program) (scan : Scan), p.Scannable opts ∧ scan.Of p ∧
      (scan.assemble opts).result = .ok assembly := by
  cases h with
  | @file root hok =>
    unfold assembleFile at hok
    split at hok
    · cases hok
    · exact ⟨_, exists_scan_ofSource hok⟩
  | text hok => exact ⟨_, exists_scan_ofSource hok⟩
  | lines hok => exact ⟨_, exists_scan_ofSource hok⟩
  | @turns lines hs s history _ hok =>
    obtain ⟨hp, hreads⟩ := history.reads_ofLines
    exact ⟨_, s.scan, hp, ⟨hreads.symbols, hreads.segments⟩, hok⟩

/-- The image of every assembly is the image of a program. -/
theorem exists_program (h : Assembles load opts assembly) :
    ∃ p : Program, p.Scannable opts ∧ p.IsImage opts assembly.image := by
  obtain ⟨p, scan, hp, hof, hok⟩ := h.exists_scan
  exact ⟨p, hp, hof.isImage hp hok⟩

/-- The options fix all of the header but the entry point. -/
theorem header (h : Assembles load opts assembly) :
    assembly.image.header =
      { entry := assembly.image.header.entry, stackSize := opts.stackSize } := by
  obtain ⟨p, scan, -, -, hok⟩ := h.exists_scan
  obtain ⟨start, -, -, himage⟩ := Scan.assemble_eq_ok hok
  rw [himage]

end Assembles

/-! ### Written and read back -/

theorem Declaration.length_names_le (ds : List Declaration) : (names ds).length ≤ ds.length := by
  induction ds using List.reverseRecOn with
  | nil => exact Nat.le_refl 0
  | append_singleton ds d ih =>
    rw [names_append_singleton, List.length_append, List.length_singleton]
    split
    · omega
    · rw [List.length_append, List.length_singleton]
      omega

/-- An image has no more label records than there are ids. -/
theorem Program.IsImage.length_labels_le {opts : Options} {p : Program} {image : Image}
    (h : p.IsImage opts image) (hp : p.Scannable opts) :
    image.labels.length ≤ SymbolTable.capacity := by
  have hnames := Declaration.length_names_le p.declarations
  have hcounted := hp.counted
  rw [← h.labels.length_eq]
  omega

/-- **Reading undoes writing.** An image with fewer than `2 ^ 32` label records takes as many bytes
as its size says, and is read back from them if its version is the one that can be read; otherwise
its version is refused. An assembled image is read back without condition. -/
theorem image_read_back :
    (∀ image : Image, image.labels.length < 2 ^ 32 →
      image.toBytes.length = image.size ∧
      Image.ofBytes image.toBytes =
        if image.header.version = 1 then .ok image
        else .error (.unsupportedVersion image.header.version)) ∧
    ∀ load opts assembly, Assembles load opts assembly →
      Image.ofBytes assembly.image.toBytes = .ok assembly.image := by
  constructor
  · intro image hcount
    exact ⟨image.length_toBytes, Image.ofBytes_toBytes hcount⟩
  · intro load opts assembly h
    obtain ⟨p, hp, himage⟩ := h.exists_program
    have hcount : assembly.image.labels.length < UInt32.size :=
      Nat.lt_of_le_of_lt (himage.length_labels_le hp) (by decide)
    have hversion : assembly.image.header.version = Image.version := by
      rw [h.header]
      rfl
    rw [Image.ofBytes_toBytes hcount, if_pos hversion]

/-- An image whose label records share an id, and whose code is no whole unit. -/
def sharedId : Image := ⟨{ entry := 8, stackSize := 4 }, [⟨7, 0⟩, ⟨7, 4⟩], [1, 2, 3]⟩

theorem sharedId_read_back :
    sharedId.toBytes.length = 35 ∧ Image.ofBytes sharedId.toBytes = .ok sharedId ∧
    Image.ofBytes { sharedId with header.version := 2 }.toBytes = .error (.unsupportedVersion 2) ∧
    ∃ assembly, (assembleText (fun _ => .error .notFound) {} "jmpl main").result = .ok assembly ∧
      assembly.image.code.length = 8 ∧
      Image.ofBytes assembly.image.toBytes = .ok assembly.image := by
  obtain ⟨hread, hassembled⟩ := image_read_back
  obtain ⟨hlength, hback⟩ := hread sharedId (by decide)
  refine ⟨hlength, hback, (hread { sharedId with header.version := 2 } (by decide)).2, ?_⟩
  have hcode : ((assembleText (fun _ => .error .notFound) {} "jmpl main").result.map
      fun assembly => assembly.image.code.length).toOption = some 8 := by cbv
  obtain ⟨assembly, hok, hlength⟩ := exists_ok_of_map hcode
  exact ⟨assembly, hok, hlength, hassembled _ _ assembly (.text hok)⟩

end StackAsm
