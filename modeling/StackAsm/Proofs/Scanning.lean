import StackAsm.Proofs.Fault
import StackAsm.Proofs.Run

/-!
# StackAsm.Proofs.Scanning

The first pass over a program without directives computes what is read off its lines.

## Proof shape

`Scanner.Reads s p` says that the scanner `s` is where the pass is after the lines of `p`: its
current label, its pointer, its symbol table and its segments are those of the program `p`. One more
line either has no fault, and then the scanner reads the longer program (`Scanner.Reads.step`), or
it has one, and then the pass ends in it (`Scanner.Reads.step_fault`). Over all lines this gives
`Program.ScansTo`: the pass ends in a scan of the whole program, which then is scannable, or in the
first fault.

An instruction before every label declares one first, so that between the two halves of such a step
the scanner reads no program. The invariant of the halves is therefore `Scanner.Collects`, which
names what is collected and does not say from which lines.
-/

namespace StackAsm

/-- A scan holds the declarations and the code of a program. -/
structure Scan.Of (scan : Scan) (p : Program) : Prop where
  symbols : scan.symbols.Holds p.declarations
  segments : scan.segments.toList = p.segments

namespace Scanner

/-- What a scanner has collected so far. -/
structure Collects (s : Scanner) (ds : List Declaration) (width : Nat)
    (code : List (Located Segment)) : Prop where
  label : s.label = ds.getLast?.map Declaration.name
  pointer : s.pointer.toNat = width
  symbols : s.scan.symbols.Holds ds
  segments : s.scan.segments.toList = code

/-- The scanner is where the pass is after the lines of a program. -/
def Reads (s : Scanner) (p : Program) : Prop :=
  s.Collects p.declarations p.width p.segments

variable {load : Loader} {opts : Options} {s : Scanner} {ds : List Declaration} {width : Nat}
  {code : List (Located Segment)}

namespace Collects

theorem warn (h : s.Collects ds width code) (loc : Location) (warnings : List Warning) :
    (s.warn loc warnings).Collects ds width code :=
  ⟨h.label, h.pointer, h.symbols, h.segments⟩

theorem declared (h : s.Collects ds width code) (loc : Location) (name : String) :
    (s.declared loc name).Collects (ds ++ [⟨name, loc, width⟩]) width code where
  label := by simp [Scanner.declared, Scanner.warn]
  pointer := h.pointer
  symbols := h.symbols.insert ⟨name, loc, width⟩ s.pointer h.pointer
  segments := h.segments

theorem emitted (h : s.Collects ds width code) (loc : Location) {segments : List Segment}
    (hfit : width + Segment.totalWidth segments < UInt32.size) :
    (s.emitted loc segments).Collects ds (width + Segment.totalWidth segments)
      (code ++ segments.map (Located.mk loc)) where
  label := h.label
  pointer := by
    simp only [Scanner.emitted, h.pointer]
    exact Nat.mod_eq_of_lt hfit
  symbols := h.symbols
  segments := by simp [Scanner.emitted, h.segments]

theorem result_declare (h : s.Collects ds width code) (loc : Location) (name : String) :
    (s.declare loc name).result =
      if name = "" then .error (.scan ⟨loc, .emptyLabelName⟩)
      else if SymbolTable.capacity ≤ ds.length then .error (.scan ⟨loc, .tooManyLabels⟩)
      else .ok (s.declared loc name) := by
  rw [Scanner.result_declare]
  simp only [h.symbols.isFull]

/-! ### The label of an instruction -/

theorem currentLabel_refused (h : s.Collects [] width code) (hauto : opts.automaticMain = false)
    (loc : Location) :
    (Scanner.currentLabel opts s loc).result = .error (.scan ⟨loc, .noLabel⟩) := by
  rw [result_currentLabel, h.label]
  simp [hauto]

/-- Before every label the automatic one is declared. -/
theorem currentLabel_automatic (h : s.Collects [] width code) (hauto : opts.automaticMain = true)
    (loc : Location) :
    ∃ s', (Scanner.currentLabel opts s loc).result = .ok (automaticMain, s') ∧
      s'.Collects [⟨automaticMain, loc, width⟩] width code := by
  have hwarned := h.warn loc [.automaticMain automaticMain]
  refine ⟨_, ?_, hwarned.declared loc automaticMain⟩
  rw [result_currentLabel, h.label, hwarned.result_declare]
  simp [hauto, automaticMain, SymbolTable.capacity]
  rfl

theorem currentLabel_last (h : s.Collects ds width code) {last : Declaration}
    (hlast : ds.getLast? = some last) (loc : Location) :
    (Scanner.currentLabel opts s loc).result = .ok (last.name, s) := by
  rw [result_currentLabel, h.label, hlast]
  rfl

theorem placed_eq (h : s.Collects ds width code) (loc : Location)
    (mnemonic operand label : String) :
    s.placed loc mnemonic operand label =
      match encodeInstruction mnemonic operand label with
      | .error e => .error (.scan ⟨loc, e⟩)
      | .ok code =>
        if width + Segment.totalWidth code.segments < UInt32.size then
          .ok ((s.warn loc code.warnings).emitted loc code.segments)
        else .error (.scan ⟨loc, .codeTooLarge⟩) := by
  unfold placed
  cases encodeInstruction mnemonic operand label with
  | error e => rfl
  | ok code => simp only [result_emit, (h.warn loc code.warnings).pointer]

end Collects

/-! ### One line -/

variable {p : Program} {line : Located String}

theorem reads_append_singleton {line : Located Line} :
    s.Reads (p ++ [line]) ↔
      s.Collects (p.declarations ++ p.declaredAfter line)
        (p.width + Segment.totalWidth line.val.segments)
        (p.segments ++ line.val.segments.map (Located.mk line.loc)) := by
  rw [Reads, Program.declarations_append_singleton, Program.width_append, Program.width_singleton,
    Program.segments_append, Program.segments_singleton]

/-- An instruction finds its label, after declaring it if there is need. -/
theorem Reads.currentLabel (h : s.Reads p)
    (hauto : p.declarations = [] → opts.automaticMain = true) (loc : Location)
    (mnemonic operand : String) :
    ∃ s', (Scanner.currentLabel opts s loc).result = .ok (p.currentLabel, s') ∧
      s'.Collects (p.declarations ++ p.declaredAfter ⟨loc, .instruction mnemonic operand⟩) p.width
        p.segments := by
  unfold Reads at h
  cases hlast : p.declarations.getLast? with
  | none =>
    have hnil : p.declarations = [] := List.getLast?_eq_none_iff.mp hlast
    rw [hnil] at h
    obtain ⟨s', hlabel, hcollects⟩ := h.currentLabel_automatic (hauto hnil) loc
    refine ⟨s', ?_, ?_⟩
    · rw [hlabel, Program.currentLabel, hlast]
      rfl
    · simpa [Program.declaredAfter, hnil] using hcollects
  | some last =>
    have hsome : p.declarations ≠ [] := by
      rintro hnil
      simp [hnil] at hlast
    refine ⟨s, ?_, ?_⟩
    · rw [h.currentLabel_last hlast, Program.currentLabel, hlast]
      rfl
    · simpa [Program.declaredAfter, hsome] using h

/-- A line without a fault is handled. -/
theorem Reads.step (h : s.Reads p) (hplain : Line.classify line.val ≠ .directive)
    (hfault : p.fault? opts (Line.classify line.val) = none) :
    ∃ s', (s.step load opts line).result = .ok s' ∧
      s'.Reads (p ++ [⟨line.loc, Line.classify line.val⟩]) := by
  simp only [reads_append_singleton]
  unfold Scanner.step
  cases hform : Line.classify line.val with
  | directive => exact absurd hform hplain
  | blank | comment =>
    refine ⟨s, rfl, ?_⟩
    rw [Line.segments_of_not_isInstruction rfl]
    simpa [Program.declaredAfter] using (show s.Collects _ _ _ from h)
  | label name =>
    rw [hform, Program.fault?_label_eq_none] at hfault
    obtain ⟨hname, hroom⟩ := hfault
    rw [Line.segments_of_not_isInstruction rfl]
    refine ⟨_, ?_, by simpa [Program.declaredAfter] using h.declared line.loc name⟩
    rw [h.result_declare, if_neg hname, if_neg (Nat.not_le_of_lt hroom)]
  | instruction mnemonic operand =>
    rw [hform, Program.fault?_instruction_eq_none] at hfault
    obtain ⟨hauto, code, hcode, hfit⟩ := hfault
    obtain ⟨s', hlabel, hcollects⟩ := h.currentLabel hauto line.loc mnemonic operand
    rw [Line.segments_of_code? hcode]
    refine ⟨_, ?_, (hcollects.warn line.loc code.warnings).emitted line.loc hfit⟩
    rw [result_instruction, hlabel]
    simp only [Except.bind, hcollects.placed_eq,
      Line.encodeInstruction_eq_ok_iff_code?.mpr hcode, if_pos hfit]

/-- A line with a fault is refused, and the fault is located at it. -/
theorem Reads.step_fault (h : s.Reads p) {e : ScanError}
    (hfault : p.fault? opts (Line.classify line.val) = some e) :
    (s.step load opts line).result = .error (.scan ⟨line.loc, e⟩) := by
  unfold Scanner.step
  cases hform : Line.classify line.val with
  | blank | comment | directive => simp [hform, Program.fault?] at hfault
  | label name =>
    simp only [hform, Program.fault?] at hfault
    simp only [h.result_declare]
    split at hfault
    · rename_i hname
      cases hfault
      rw [if_pos hname]
    · rename_i hname
      split at hfault
      · rename_i hfull
        cases hfault
        rw [if_neg hname, if_pos hfull]
      · cases hfault
  | instruction mnemonic operand =>
    simp only [hform, Program.fault?] at hfault
    rw [result_instruction]
    split at hfault
    · -- there is no label, and none may be added
      rename_i hrefused
      cases hfault
      have hempty : s.Collects [] p.width p.segments := hrefused.1 ▸ h
      rw [hempty.currentLabel_refused hrefused.2]
      rfl
    · -- the label is there; what is left is the code and its place
      rename_i hallowed
      have hauto : p.declarations = [] → opts.automaticMain = true := by
        intro hnil
        simpa [hnil] using hallowed
      obtain ⟨s', hlabel, hcollects⟩ := h.currentLabel hauto line.loc mnemonic operand
      rw [hlabel]
      simp only [Except.bind, hcollects.placed_eq]
      cases hcode : encodeInstruction mnemonic operand p.currentLabel with
      | error cause =>
        simp only [hcode, Option.some.injEq] at hfault
        rw [hfault]
      | ok code =>
        simp only [hcode] at hfault
        split at hfault
        · cases hfault
        · rename_i hfit
          cases hfault
          exact if_neg hfit

end Scanner

/-! ### All lines -/

/-- What the first pass over a program ends in: its scan if it is scannable, or its first fault. -/
inductive Program.ScansTo (opts : Options) (p : Program) : Except AssemblyError Scan → Prop
  | scanned {scan : Scan} : Scannable opts p → scan.Of p → ScansTo opts p (.ok scan)
  | fault {line : Located Line} {e : ScanError} :
      FirstFault opts p line e → ScansTo opts p (.error (.scan ⟨line.loc, e⟩))

namespace Scanner

variable {load : Loader} {opts : Options} {s : Scanner} {p : Program}

/-- The induction is on the lines that are left; the invariant is that those already read are
scannable and are what the scanner has read. -/
theorem Reads.exists_runs (h : s.Reads p) (hp : p.Scannable opts) {rest : List (Located String)}
    (hrest : s.stream.queue.pending.map Pending.line = rest)
    (hplain : ∀ line ∈ rest, Line.classify line.val ≠ .directive) :
    ∃ read r, Runs load opts s read r ∧ Program.ScansTo opts (p ++ Program.ofLines rest) r := by
  induction rest generalizing s p with
  | nil =>
    have hdone : s.stream.queue.pending = [] := by simpa using hrest
    refine ⟨[], _, .done (next?_eq_none_iff.mpr hdone), .scanned ?_ ⟨?_, ?_⟩⟩
    · simpa [Program.ofLines] using hp
    · simpa [Program.ofLines] using h.symbols
    · simpa [Program.ofLines] using h.segments
  | cons line rest ih =>
    obtain ⟨next, pending, hpending, rfl, hleft⟩ := List.map_eq_cons_iff.mp hrest
    let s₀ : Scanner := { s with stream := ⟨⟨pending, next.includers⟩, s.stream.guards⟩ }
    have turn : Turn load opts s next.line (s₀.step load opts next.line).result :=
      turn_of_pending hpending
    have hreads : s₀.Reads p := ⟨h.label, h.pointer, h.symbols, h.segments⟩
    have hline : Line.classify next.line.val ≠ .directive := hplain next.line (by simp)
    cases hfault : p.fault? opts (Line.classify next.line.val) with
    | none =>
      obtain ⟨s', hstep, hreads'⟩ := hreads.step hline hfault
      have hstream : s'.stream = s₀.stream := stream_of_step_plain hline hstep
      obtain ⟨read, r, hruns, hscans⟩ := ih hreads'
        (Program.scannable_append_singleton.mpr ⟨hp, hfault⟩) (hstream ▸ hleft)
        fun other hother => hplain other (by simp [hother])
      refine ⟨next.line :: read, r, .next (hstep ▸ turn) hruns, ?_⟩
      simpa [Program.ofLines] using hscans
    | some e =>
      rw [hreads.step_fault hfault] at turn
      exact ⟨[next.line], _, .refused turn, .fault ⟨p, Program.ofLines rest, rfl, hp, hfault⟩⟩

theorem reads_ofLines (lines : List (Located String)) : (ofLines lines).Reads [] where
  label := rfl
  pointer := rfl
  symbols := SymbolTable.holds_empty
  segments := rfl

/-- The first pass over lines without directives ends in a scan of the program or in its first
fault. -/
theorem scansTo_scanLines (load : Loader) {lines : List (Located String)}
    (hplain : ∀ line ∈ lines, Line.classify line.val ≠ .directive) :
    Program.ScansTo opts (Program.ofLines lines) (scanLines load opts lines).result := by
  have hpending : (ofLines lines).stream.queue.pending.map Pending.line = lines := by
    simp [ofLines, LineQueue.pending_ofLines, Function.comp_def]
  obtain ⟨read, r, hruns, hscans⟩ :=
    (reads_ofLines lines).exists_runs Program.scannable_nil hpending hplain
  rw [hruns.result_scanLines]
  exact hscans

end Scanner

end StackAsm
