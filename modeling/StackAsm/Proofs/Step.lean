import StackAsm.Proofs.Encoding
import StackAsm.Scan

/-!
# StackAsm.Proofs.Step

What the first pass does with one line, as equations on results.

Every operation of the scanner gets one equation that says when it is refused and with what error,
and which scanner it gives otherwise. From these it follows that a line which is no directive does
not notice certain changes of the scanner (`Scanner.Unnoticed.result_step`). It neither looks at
the stream nor at the warnings collected so far, so that it can be handled on another stream, with
the remarks on unguarded files left out, and the result is the same up to these two things
(`Scanner.result_step_onto`).
-/

namespace StackAsm

/-- The code of an instruction under `label`, or why there is none. -/
def encodeInstruction (mnemonic operand label : String) : Except ScanError Encoded :=
  match Mnemonic.ofName? mnemonic with
  | none => .error (.unknownInstruction mnemonic label)
  | some m => (m.encode operand).mapError (.invalidInstruction mnemonic label)

/-- An instruction has code when its mnemonic is known and takes the operand; under which label it
stands does not matter. -/
theorem encodeInstruction_eq_ok_iff {mnemonic operand label : String} {code : Encoded} :
    encodeInstruction mnemonic operand label = .ok code ↔
      ∃ m, Mnemonic.ofName? mnemonic = some m ∧ m.encode operand = .ok code := by
  unfold encodeInstruction
  cases Mnemonic.ofName? mnemonic with
  | none => simp
  | some m =>
    show (m.encode operand).mapError _ = _ ↔ _
    cases hcode : m.encode operand with
    | error e =>
      show Except.error _ = _ ↔ _
      simp [hcode]
    | ok other =>
      show Except.ok other = _ ↔ _
      simp [hcode]

namespace Scanner

/-! ### One equation for each operation -/

/-- The scanner after a declaration that is not refused. -/
def declared (s : Scanner) (loc : Location) (name : String) : Scanner :=
  ({ s with
      scan.symbols := s.scan.symbols.insert name s.pointer loc
      label := some name } : Scanner).warn loc
    (if (s.scan.symbols.get? name).isSome then [.labelRedefined name] else [])

/-- The scanner after code that is not refused. -/
def emitted (s : Scanner) (loc : Location) (segments : List Segment) : Scanner :=
  { s with
    pointer := UInt32.ofNat (s.pointer.toNat + Segment.totalWidth segments)
    scan.segments := s.scan.segments ++ segments.map (Located.mk loc) }

theorem result_declare (s : Scanner) (loc : Location) (name : String) :
    (s.declare loc name).result =
      if name = "" then .error (.scan ⟨loc, .emptyLabelName⟩)
      else if s.scan.symbols.isFull then .error (.scan ⟨loc, .tooManyLabels⟩)
      else .ok (s.declared loc name) := by
  unfold declare
  rw [SymbolTable.declare_eq]
  split
  · rfl
  · by_cases hfull : s.scan.symbols.isFull = true
    · simp [hfull]
    · simp [hfull, declared, Except.bind]

theorem result_emit (s : Scanner) (loc : Location) (mnemonic label : String) (code : Encoded) :
    (s.emit loc mnemonic label code).result =
      if s.pointer.toNat + Segment.totalWidth code.segments < UInt32.size then
        .ok (s.emitted loc code.segments)
      else .error (.scan ⟨loc, .codeTooLarge⟩) := by
  unfold emit advance
  by_cases hfit : s.pointer.toNat + Segment.totalWidth code.segments < UInt32.size
  · simp [hfit, emitted, Except.bind]
  · simp [hfit, Except.bind]

theorem result_currentLabel (opts : Options) (s : Scanner) (loc : Location) :
    (currentLabel opts s loc).result =
      match s.label with
      | some label => .ok (label, s)
      | none =>
        if opts.automaticMain then
          ((s.warn loc [.automaticMain automaticMain]).declare loc automaticMain).result.map
            (automaticMain, ·)
        else .error (.scan ⟨loc, .noLabel⟩) := by
  unfold currentLabel
  cases s.label with
  | some label => rfl
  | none =>
    by_cases hauto : opts.automaticMain = true
    · simp only [hauto, if_true, Traced.result_bind, Traced.result_pure]
      rfl
    · simp [hauto]

/-- An instruction under `label`: its code, if there is any, and then its place. -/
def placed (s : Scanner) (loc : Location) (mnemonic operand label : String) :
    Except AssemblyError Scanner :=
  match encodeInstruction mnemonic operand label with
  | .error e => .error (.scan ⟨loc, e⟩)
  | .ok code => ((s.warn loc code.warnings).emit loc mnemonic label code).result

theorem result_instruction (opts : Options) (s : Scanner) (loc : Location)
    (mnemonic operand : String) :
    (s.instruction opts loc mnemonic operand).result =
      (currentLabel opts s loc).result.bind fun (label, s) =>
        s.placed loc mnemonic operand label := by
  unfold instruction
  rw [Traced.result_bind]
  congr 1
  funext ⟨label, s⟩
  unfold placed encodeInstruction
  cases hm : Mnemonic.ofName? mnemonic with
  | none => rfl
  | some m =>
    simp only
    cases m.encode operand <;> rfl

/-! ### Lines that are no directives -/

variable {load : Loader} {opts : Options}

theorem error_of_declare {s : Scanner} {loc : Location} {name : String} {e : AssemblyError}
    (h : (s.declare loc name).result = .error e) : ∃ cause, e = .scan ⟨loc, cause⟩ := by
  rw [result_declare] at h
  split at h
  · cases h; exact ⟨_, rfl⟩
  · split at h
    · cases h; exact ⟨_, rfl⟩
    · cases h

theorem error_of_currentLabel {s : Scanner} {loc : Location} {e : AssemblyError}
    (h : (currentLabel opts s loc).result = .error e) : ∃ cause, e = .scan ⟨loc, cause⟩ := by
  rw [result_currentLabel] at h
  split at h
  · cases h
  · split at h
    · cases hd : ((s.warn loc [.automaticMain automaticMain]).declare loc automaticMain).result with
      | error e' =>
        rw [hd] at h
        cases h
        exact error_of_declare hd
      | ok s' => rw [hd] at h; cases h
    · cases h; exact ⟨_, rfl⟩

theorem error_of_placed {s : Scanner} {loc : Location} {mnemonic operand label : String}
    {e : AssemblyError} (h : s.placed loc mnemonic operand label = .error e) :
    ∃ cause, e = .scan ⟨loc, cause⟩ := by
  unfold placed at h
  split at h
  · cases h; exact ⟨_, rfl⟩
  · rw [result_emit] at h
    split at h
    · cases h
    · cases h; exact ⟨_, rfl⟩

/-- A line that is no directive is refused with an error of the scan, located at the line. -/
theorem error_of_step_plain {s : Scanner} {line : Located String} {e : AssemblyError}
    (hline : Line.classify line.val ≠ .directive)
    (h : (s.step load opts line).result = .error e) : ∃ cause, e = .scan ⟨line.loc, cause⟩ := by
  unfold step at h
  split at h
  · cases h
  · cases h
  · rename_i hform
    exact absurd hform hline
  · exact error_of_declare h
  · rw [result_instruction] at h
    cases hlabel : (currentLabel opts s line.loc).result with
    | error e' =>
      rw [hlabel] at h
      cases h
      exact error_of_currentLabel hlabel
    | ok found =>
      rw [hlabel] at h
      exact error_of_placed h

/-- A line that is no directive leaves the stream alone. -/
theorem stream_of_step_plain {s s' : Scanner} {line : Located String}
    (hline : Line.classify line.val ≠ .directive)
    (h : (s.step load opts line).result = .ok s') : s'.stream = s.stream := by
  unfold step at h
  split at h
  · cases h; rfl
  · cases h; rfl
  · rename_i hform
    exact absurd hform hline
  · exact declare_stream h
  · exact instruction_stream h

end Scanner

/-! ### Changes that lines do not notice -/

/-- Whether a warning is the remark on a file without a guard line. -/
def Warning.isGuardRemark : Warning → Bool
  | missingIncludeGuard _ => true
  | _ => false

theorem isGuardRemark_encodeInstruction {mnemonic operand label : String} {code : Encoded}
    (h : encodeInstruction mnemonic operand label = .ok code) :
    ∀ w ∈ code.warnings, w.isGuardRemark = false := by
  obtain ⟨m, -, hcode⟩ := encodeInstruction_eq_ok_iff.mp h
  intro w hw
  rcases Mnemonic.warnings_encode hcode with hnone | hzero
  · simp [hnone] at hw
  · obtain rfl : w = .addZeroReadsStack := by simpa [hzero] using hw
    rfl

namespace Scanner

/-- A change of the scanner that lines which are no directives do not notice: it keeps what they
look at, and it can be made before or after what they do. -/
structure Unnoticed (f : Scanner → Scanner) : Prop where
  label (s : Scanner) : (f s).label = s.label
  pointer (s : Scanner) : (f s).pointer = s.pointer
  symbols (s : Scanner) : (f s).scan.symbols = s.scan.symbols
  warn (s : Scanner) (loc : Location) {ws : List Warning} :
    (∀ w ∈ ws, w.isGuardRemark = false) → f (s.warn loc ws) = (f s).warn loc ws
  declared (s : Scanner) (loc : Location) (name : String) :
    f (s.declared loc name) = (f s).declared loc name
  emitted (s : Scanner) (loc : Location) (segments : List Segment) :
    f (s.emitted loc segments) = (f s).emitted loc segments

namespace Unnoticed

variable {f : Scanner → Scanner}

theorem result_declare (hf : Unnoticed f) (s : Scanner) (loc : Location) (name : String) :
    ((f s).declare loc name).result = (s.declare loc name).result.map f := by
  rw [Scanner.result_declare, Scanner.result_declare, hf.symbols, ← hf.declared]
  split
  · rfl
  · split <;> rfl

theorem result_currentLabel (hf : Unnoticed f) (opts : Options) (s : Scanner) (loc : Location) :
    (currentLabel opts (f s) loc).result =
      (currentLabel opts s loc).result.map fun found => (found.1, f found.2) := by
  rw [Scanner.result_currentLabel, Scanner.result_currentLabel, hf.label]
  cases s.label with
  | some label => rfl
  | none =>
    simp only
    split
    · rw [← hf.warn s loc (by simp [Warning.isGuardRemark]), hf.result_declare]
      cases ((s.warn loc [.automaticMain automaticMain]).declare loc automaticMain).result <;> rfl
    · rfl

theorem placed (hf : Unnoticed f) (s : Scanner) (loc : Location)
    (mnemonic operand label : String) :
    (f s).placed loc mnemonic operand label = (s.placed loc mnemonic operand label).map f := by
  unfold Scanner.placed
  cases hcode : encodeInstruction mnemonic operand label with
  | error e => rfl
  | ok code =>
    simp only
    rw [← hf.warn s loc (isGuardRemark_encodeInstruction hcode), result_emit, result_emit,
      hf.pointer, ← hf.emitted]
    split <;> rfl

theorem result_instruction (hf : Unnoticed f) (opts : Options) (s : Scanner) (loc : Location)
    (mnemonic operand : String) :
    ((f s).instruction opts loc mnemonic operand).result =
      (s.instruction opts loc mnemonic operand).result.map f := by
  rw [Scanner.result_instruction, Scanner.result_instruction, hf.result_currentLabel]
  cases (currentLabel opts s loc).result with
  | error e => rfl
  | ok found => exact hf.placed found.2 loc mnemonic operand found.1

/-- A line that is no directive can be handled before or after the change, under any loader. -/
theorem result_step (hf : Unnoticed f) {line : Located String}
    (hline : Line.classify line.val ≠ .directive) (load other : Loader) (opts : Options)
    (s : Scanner) :
    ((f s).step other opts line).result = (s.step load opts line).result.map f := by
  unfold step
  cases hform : Line.classify line.val with
  | blank => rfl
  | comment => rfl
  | directive => exact absurd hform hline
  | label name => exact hf.result_declare s line.loc name
  | instruction mnemonic operand =>
    exact hf.result_instruction opts s line.loc mnemonic operand

/-- The stream is not looked at. -/
theorem mapStream (g : Stream → Stream) :
    Unnoticed fun s => { s with stream := g s.stream } :=
  ⟨fun _ => rfl, fun _ => rfl, fun _ => rfl, fun _ _ _ _ => rfl, fun _ _ _ => rfl, fun _ _ _ => rfl⟩

end Unnoticed

end Scanner

/-! ### Handling a line on another stream -/

/-- A scan without the remarks on files without a guard line. -/
def Scan.withoutGuardRemarks (scan : Scan) : Scan :=
  { scan with warnings := scan.warnings.filter fun w => !w.val.isGuardRemark }

namespace Scanner

/-- The scanner on another stream, and without the remarks on files without a guard line. -/
def onto (stream : Stream) (s : Scanner) : Scanner :=
  { s with stream, scan := s.scan.withoutGuardRemarks }

/-- Other warnings can be added before or after changing the stream. -/
theorem onto_warn {ws : List Warning} (hws : ∀ w ∈ ws, w.isGuardRemark = false) (stream : Stream)
    (s : Scanner) (loc : Location) : (s.warn loc ws).onto stream = (s.onto stream).warn loc ws := by
  have kept : (ws.map (Located.mk loc)).filter (fun w => !w.val.isGuardRemark) =
      ws.map (Located.mk loc) := by
    rw [List.filter_eq_self]
    intro located hlocated
    obtain ⟨w, hw, rfl⟩ := List.mem_map.mp hlocated
    simp [hws w hw]
  have added : (s.scan.warnings ++ ws.map (Located.mk loc)).filter (fun w => !w.val.isGuardRemark) =
      s.scan.warnings.filter (fun w => !w.val.isGuardRemark) ++ ws.map (Located.mk loc) := by
    apply Array.toList_inj.mp
    simp [kept]
  simp only [onto, warn, Scan.withoutGuardRemarks, added]

/-- Remarks on files without a guard line are lost on another stream. -/
theorem onto_warn_guardRemarks {ws : List Warning} (hws : ∀ w ∈ ws, w.isGuardRemark = true)
    (stream : Stream) (s : Scanner) (loc : Location) :
    (s.warn loc ws).onto stream = s.onto stream := by
  have dropped : (ws.map (Located.mk loc)).filter (fun w => !w.val.isGuardRemark) = [] := by
    rw [List.filter_eq_nil_iff]
    intro located hlocated
    obtain ⟨w, hw, rfl⟩ := List.mem_map.mp hlocated
    simp [hws w hw]
  have unchanged :
      (s.scan.warnings ++ ws.map (Located.mk loc)).filter (fun w => !w.val.isGuardRemark) =
        s.scan.warnings.filter (fun w => !w.val.isGuardRemark) := by
    apply Array.toList_inj.mp
    simp [dropped]
  simp only [onto, warn, Scan.withoutGuardRemarks, unchanged]

theorem onto_declared (stream : Stream) (s : Scanner) (loc : Location) (name : String) :
    (s.declared loc name).onto stream = (s.onto stream).declared loc name := by
  unfold declared
  rw [onto_warn]
  · rfl
  · intro w hw
    split at hw <;> simp_all [Warning.isGuardRemark]

theorem unnoticed_onto (stream : Stream) : Unnoticed (onto stream) where
  label _ := rfl
  pointer _ := rfl
  symbols _ := rfl
  warn s loc _ hws := onto_warn hws stream s loc
  declared := onto_declared stream
  emitted _ _ _ := rfl

/-- A line that is no directive can be handled on another stream, under another loader. -/
theorem result_step_onto {line : Located String} (hline : Line.classify line.val ≠ .directive)
    (load other : Loader) (opts : Options) (stream : Stream) (s : Scanner) :
    ((s.onto stream).step other opts line).result =
      (s.step load opts line).result.map (onto stream) :=
  (unnoticed_onto stream).result_step hline load other opts s

end Scanner

end StackAsm
