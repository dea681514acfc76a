import StackAsm.Proofs.Extension
import StackAsm.Proofs.Warnings

/-!
# StackAsm.Proofs.Growth

What more lines at the end change in a scan.

A line that is refused is refused with any lines behind it. If no line is, then the lines behind
only add: code and warnings at the end, new labels after the old ones, and for a label that they
declare again a new id and address, both beyond all that is there (`Scan.ExtendedBy`).

Which labels they declare depends on the lines in front in two ways. The guards that these
registered decide which files are still pasted in (`expand_append`), and the automatic label is
declared behind only if nothing was declared in front (`Program.DeclaresAfter`).
-/

namespace StackAsm

/-! ### Declarations behind others -/

namespace Declaration

theorem names_prefix_append (ds ds' : List Declaration) : names ds <+: names (ds ++ ds') := by
  unfold names
  rw [List.map_append, List.eraseDups_append]
  exact List.prefix_append _ _

/-- The last declaration of a label is the last one behind, if there is one behind. -/
theorem last?_append (ds ds' : List Declaration) (label : String) :
    last? (ds ++ ds') label =
      ((last? ds' label).map fun d => (d.1, ds.length + d.2)).or (last? ds label) := by
  induction ds' using List.reverseRecOn with
  | nil => simp
  | append_singleton ds' d ih =>
    rw [← List.append_assoc, last?_append_singleton, last?_append_singleton, ih]
    by_cases hd : d.name = label
    · simp [hd]
    · simp [hd]

theorem index_lt_of_last? {ds : List Declaration} {label : String} {d : Declaration} {i : Nat}
    (h : last? ds label = some (d, i)) : i < ds.length :=
  (List.getElem?_eq_some_iff.mp (last?_eq_some h).1).1

end Declaration

namespace Program

/-- The lines of `p`, read after those of `before`, declare a label: one of them says so, or it is
the automatic one and nothing was declared when their first instruction came. -/
def DeclaresAfter (before p : Program) (name : String) : Prop :=
  (∃ line ∈ p, line.val = .label name) ∨
    name = Scanner.automaticMain ∧ (∀ line ∈ before, line.val.isItem = false) ∧
      (bareStart? p).isSome

/-- Which labels one more line declares. -/
theorem declaresAfter_append_singleton {before p : Program} {line : Located Line} {name : String} :
    DeclaresAfter before (p ++ [line]) name ↔
      DeclaresAfter before p name ∨ ∃ d ∈ declaredAfter (before ++ p) line, d.name = name := by
  have hnil : declarations (before ++ p) = [] ↔
      (∀ line ∈ before, line.val.isItem = false) ∧ declarations p = [] := by
    simp only [declarations_eq_nil_iff, List.mem_append, or_imp, forall_and]
  unfold DeclaresAfter
  rw [bareStart?_append_singleton]
  cases hline : line.val with
  | label other =>
    simp only [declaredAfter, hline, List.mem_append, List.mem_singleton, or_and_right, exists_or,
      exists_eq_left, Line.label.injEq, Line.isInstruction_label, Bool.false_eq_true, and_false,
      if_false]
    exact or_right_comm
  | instruction mnemonic operand =>
    have hlabels : (∃ l ∈ p ++ [line], l.val = .label name) ↔ ∃ l ∈ p, l.val = .label name := by
      simp [or_and_right, exists_or, hline]
    rw [hlabels]
    by_cases hbefore : ∀ line ∈ before, line.val.isItem = false
    · by_cases hp : declarations p = []
      · -- the automatic label is declared here
        have hfind : p.find? (fun line => line.val.isItem) = none := by
          simpa using declarations_eq_nil_iff.mp hp
        have hnone : bareStart? p = none := by rw [bareStart?, hfind]; rfl
        simp [declaredAfter, hline, hnil.mpr ⟨hbefore, hp⟩, hp, hnone, and_iff_left hbefore,
          @eq_comm _ name]
      · simp [declaredAfter, hline, mt hnil.mp fun h => hp h.2, hp]
    · simp [declaredAfter, hline, mt hnil.mp fun h => hbefore h.1, hbefore]
  | blank | comment | directive =>
    simp [declaredAfter, hline, Line.isInstruction, or_and_right, exists_or]

/-- The declarations of lines behind others come behind the others' declarations, at addresses that
are not below the code in front. -/
theorem exists_declarations_append (before p : Program) :
    ∃ ds, declarations (before ++ p) = declarations before ++ ds ∧
      (∀ d ∈ ds, width before ≤ d.address) ∧
      ∀ name, (∃ d ∈ ds, d.name = name) ↔ DeclaresAfter before p name := by
  induction p using List.reverseRecOn with
  | nil => exact ⟨[], by simp, by simp, by simp [DeclaresAfter, bareStart?]⟩
  | append_singleton p line ih =>
    obtain ⟨ds, hds, haddress, hnames⟩ := ih
    refine ⟨ds ++ declaredAfter (before ++ p) line, ?_, ?_, ?_⟩
    · rw [← List.append_assoc, declarations_append_singleton, hds, List.append_assoc]
    · intro d hd
      rcases List.mem_append.mp hd with hold | hnew
      · exact haddress d hold
      · have hwidth : d.address = width (before ++ p) := by
          unfold declaredAfter at hnew
          split at hnew
          · simp_all
          · split at hnew <;> simp_all
          · cases hnew
        rw [hwidth, width_append]
        omega
    · intro name
      rw [declaresAfter_append_singleton, ← hnames]
      simp only [List.mem_append, or_and_right, exists_or]

end Program

/-! ### Expansions one after another -/

theorem expand_append (load : Loader) (chain : List Path) (guards : Std.TreeSet String)
    (front behind : List (Located String)) :
    expand load chain guards (front ++ behind) =
      (expand load chain guards front).andThen fun guards => expand load chain guards behind := by
  induction front generalizing guards with
  | nil => rw [expand_nil]; rfl
  | cons line front ih =>
    rw [List.cons_append, expand_cons, expand_cons front, Expansion.andThen_assoc]
    simp only [ih]

/-- If lines are scanned, all their directives are carried out. -/
theorem outcome_of_scanLines {load : Loader} {opts : Options} {lines : List (Located String)}
    {scan : Scan} (h : (scanLines load opts lines).result = .ok scan) :
    ∃ guards, (expand load [] ∅ lines).outcome = .ok guards := by
  obtain ⟨read, hruns⟩ := Scanner.exists_runs_scanLines load opts lines
  let flat : Stream := { queue := .ofLines (expand load [] ∅ lines).lines }
  have hflat : flat.queue.pending.map Pending.line =
      (expandQueue load ∅ (LineQueue.ofLines lines).pending).lines := by
    rw [expandQueue_ofLines, LineQueue.pending_ofLines, List.map_map]
    exact List.map_id' _
  obtain ⟨r', -, hr⟩ := @Scanner.Runs.exists_flat load opts load _ _ _ hruns flat hflat
  rw [h, show (Scanner.ofLines lines).stream.guards = ∅ from rfl,
    show (Scanner.ofLines lines).stream.queue = LineQueue.ofLines lines from rfl,
    expandQueue_ofLines] at hr
  cases houtcome : (expand load [] ∅ lines).outcome with
  | ok guards => exact ⟨guards, rfl⟩
  | error e =>
    rw [houtcome] at hr
    cases r' <;> cases hr

/-- Lines behind others stand for the program that they stand for with the guards the others leave.
-/
theorem Program.ofSource_append {load : Loader} {front : List (Located String)}
    {guards : Std.TreeSet String} (h : (expand load [] ∅ front).outcome = .ok guards)
    (behind : List (Located String)) :
    ofSource load (front ++ behind) =
      ofSource load front ++ ofLines (expand load [] guards behind).lines := by
  unfold ofSource
  rw [expand_append, Expansion.andThen, h, ofLines_append]

/-! ### Scans one after another -/

/-- What is kept of a scan when more lines are scanned, which declare the labels `declared`. -/
structure Scan.ExtendedBy (scan scan' : Scan) (declared : String → Prop) : Prop where
  segments : scan.segments.toList <+: scan'.segments.toList
  warnings : scan.warnings.toList <+: scan'.warnings.toList
  /-- The labels keep their order, and new ones come after them. -/
  names : scan.symbols.toList.map Prod.fst <+: scan'.symbols.toList.map Prod.fst
  /-- A label that is not declared again is what it was. -/
  kept : ∀ name, ¬ declared name → scan'.symbols.get? name = scan.symbols.get? name
  /-- A label that is declared has an address behind all code, and an id above all others. -/
  added : ∀ name, declared name → ∃ symbol, scan'.symbols.get? name = some symbol ∧
    Segment.totalWidth (scan.segments.toList.map Located.val) ≤ symbol.address.toNat ∧
    ∀ other old, scan.symbols.get? other = some old → old.id < symbol.id

namespace Scan.Of

variable {scan : Scan} {p : Program}

theorem totalWidth_segments (h : scan.Of p) :
    Segment.totalWidth (scan.segments.toList.map Located.val) = p.width := by
  rw [h.segments, Program.width_eq_totalWidth, Program.segments, List.map_flatMap]
  simp only [List.map_map, Function.comp_def, List.map_id']

/-- The scan of a longer program against the scan of its front. -/
theorem extendedBy {opts : Options} {scan' : Scan} {q : Program} (h : scan.Of p)
    (h' : scan'.Of (p ++ q)) (hp : (p ++ q).Scannable opts)
    (hwarnings : scan.warnings.toList <+: scan'.warnings.toList) :
    scan.ExtendedBy scan' (p.DeclaresAfter q) := by
  obtain ⟨ds, hds, haddress, hnames⟩ := p.exists_declarations_append q
  refine ⟨?_, hwarnings, ?_, ?_, ?_⟩
  · rw [h.segments, h'.segments, Program.segments_append]
    exact List.prefix_append _ _
  · rw [h.symbols.map_fst_toList, h'.symbols.map_fst_toList, hds]
    exact Declaration.names_prefix_append _ _
  · intro name hname
    have hnone : Declaration.last? ds name = none := by
      rw [← Option.not_isSome_iff_eq_none, Declaration.last?_isSome_iff, Declaration.mem_names,
        hnames]
      exact hname
    rw [h.symbols.get?, h'.symbols.get?, hds, Declaration.last?_append, hnone]
    rfl
  · intro name hname
    have hsome : (Declaration.last? ds name).isSome = true := by
      rw [Declaration.last?_isSome_iff, Declaration.mem_names, hnames]
      exact hname
    obtain ⟨⟨d, i⟩, hlast⟩ := Option.isSome_iff_exists.mp hsome
    have hlast' : Declaration.last? (Program.declarations (p ++ q)) name =
        some (d, p.declarations.length + i) := by
      rw [hds, Declaration.last?_append, hlast]
      rfl
    obtain ⟨hid, hword⟩ := hp.symbol_toNat hlast'
    refine ⟨d.symbol (p.declarations.length + i), by rw [h'.symbols.get?, hlast']; rfl, ?_, ?_⟩
    · rw [h.totalWidth_segments, hword]
      exact haddress d (List.mem_of_getElem? (Declaration.last?_eq_some hlast).1)
    · intro other old hold
      obtain ⟨d', hother, -⟩ := h.get?_eq_some hp.of_append hold
      have hindex := Declaration.index_lt_of_last? hother
      rw [UInt16.lt_iff_toNat_lt, hid]
      omega

end Scan.Of

/-- **More lines only add to a scan.** If lines are refused, they are refused with the same error
when more lines come behind them. If both scans succeed, the second one has the segments, the
warnings and the labels of the first one in front. A label that the lines behind do not declare
keeps its symbol, and one that they do declare gets an address that is not below the code in front
and an id above all ids in front. The lines behind are read with the guards that those in front
leave. -/
theorem scanLines_append (load : Loader) (opts : Options) (front behind : List (Located String)) :
    (∀ e, (scanLines load opts front).result = .error e →
      (scanLines load opts (front ++ behind)).result = .error e) ∧
    ∀ scan scan', (scanLines load opts front).result = .ok scan →
      (scanLines load opts (front ++ behind)).result = .ok scan' →
      ∃ guards, (expand load [] ∅ front).outcome = .ok guards ∧
        scan.ExtendedBy scan' ((Program.ofSource load front).DeclaresAfter
          (Program.ofLines (expand load [] guards behind).lines)) := by
  obtain ⟨read, hruns⟩ := Scanner.exists_runs_scanLines load opts front
  obtain ⟨hs, s, history, hload, hend⟩ := hruns.exists_history
  have hsource := Scanner.ofLines_append front behind
  constructor
  · intro e he
    rcases hend with ⟨-, hok, -⟩ | ⟨line, e', refused, herror⟩
    · cases he.symm.trans hok
    · cases he.symm.trans herror
      have hrefused := history.runs_extend hload (behind.map fun line => ⟨line, []⟩)
        (.refused (refused.extend _))
      rw [← hsource] at hrefused
      exact hrefused.result_scanLines
  · intro scan scan' hscan hscan'
    obtain ⟨guards, hguards⟩ := outcome_of_scanLines hscan
    obtain ⟨hp, hof⟩ := scanLines_ofSource hscan
    obtain ⟨hp', hof'⟩ := scanLines_ofSource hscan'
    rw [Program.ofSource_append hguards] at hp' hof'
    refine ⟨guards, hguards, hof.extendedBy hof' hp' ?_⟩
    rcases hend with ⟨-, hok, -⟩ | ⟨line, e, -, herror⟩
    · -- the run over all lines goes on where the run over those in front ended
      cases hscan.symm.trans hok
      obtain ⟨read', r, hrest⟩ :=
        Scanner.exists_runs load opts (s.extend (behind.map fun line => ⟨line, []⟩))
      have hall := history.runs_extend hload _ hrest
      rw [← hsource] at hall
      obtain ⟨hfront, hreads⟩ := history.reads_ofLines
      have hreads' : (s.extend (behind.map fun line => ⟨line, []⟩)).Reads _ :=
        ⟨hreads.label, hreads.pointer, hreads.symbols, hreads.segments⟩
      exact ⟨_, (hrest.warnings hreads' hfront (hall.result_scanLines.symm.trans hscan')).symm⟩
    · cases hscan.symm.trans herror

/-- A guarded file that declares a label. -/
def guardedLabel : Store := ({} : Store).insert "g" "#ID g\nf:\nnop"

/-- Lines that include it. -/
def includingLines : List (Located String) := sourceLines "a" "#include g\nmain:\nhlt"

/-- Lines that include it too, and declare its label again. -/
def redeclaringLines : List (Located String) := sourceLines "b" "#include g\nsl 1\nf:\nend:"

theorem redeclaringLines_append :
    (scanLines guardedLabel.load {} ([⟨⟨"a", 1⟩, ":"⟩] ++ redeclaringLines)).result =
      .error (.scan ⟨⟨"a", 1⟩, .emptyLabelName⟩) ∧
    ∃ scan scan', (scanLines guardedLabel.load {} includingLines).result = .ok scan ∧
      (scanLines guardedLabel.load {} (includingLines ++ redeclaringLines)).result = .ok scan' ∧
      scan.symbols.toList.map Prod.fst = ["f", "main"] ∧
      scan'.symbols.toList.map Prod.fst = ["f", "main", "end"] ∧
      ∃ guards, (expand guardedLabel.load [] ∅ includingLines).outcome = .ok guards ∧
        scan.ExtendedBy scan' ((Program.ofSource guardedLabel.load includingLines).DeclaresAfter
          (Program.ofLines (expand guardedLabel.load [] guards redeclaringLines).lines)) := by
  have hfront : ((scanLines guardedLabel.load {} includingLines).result.map fun scan =>
      scan.symbols.toList.map Prod.fst).toOption = some ["f", "main"] := by cbv
  have hall : ((scanLines guardedLabel.load {} (includingLines ++ redeclaringLines)).result.map
      fun scan => scan.symbols.toList.map Prod.fst).toOption = some ["f", "main", "end"] := by cbv
  obtain ⟨scan, hscan, hnames⟩ := exists_ok_of_map hfront
  obtain ⟨scan', hscan', hnames'⟩ := exists_ok_of_map hall
  refine ⟨(scanLines_append guardedLabel.load {} _ redeclaringLines).1 _ (by cbv), scan, scan',
    hscan, hscan', hnames, hnames', ?_⟩
  exact (scanLines_append guardedLabel.load {} includingLines redeclaringLines).2 scan scan' hscan
    hscan'

end StackAsm
