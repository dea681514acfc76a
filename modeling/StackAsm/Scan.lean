import StackAsm.Options
import StackAsm.Source.Line
import StackAsm.Source.Mnemonic
import StackAsm.SymbolTable
import StackAsm.Trace

/-!
# StackAsm.Scan

The first pass: reading all lines, declaring labels and encoding instructions.

Widths do not depend on label ids, so at the end of this pass every address is final; only the ids
in label references are open. The pass stops at the first line that is refused.
-/

namespace StackAsm

/-- What the first pass produces. -/
structure Scan where
  symbols : SymbolTable := {}
  segments : Array (Located Segment) := #[]
  warnings : Array (Located Warning) := #[]

/-- The first pass under way. -/
structure Scanner where
  /-- The source still to be read. -/
  stream : Stream
  /-- The label declared last. -/
  label : Option String := none
  /-- The address of the next instruction. -/
  pointer : Address := 0
  /-- What is collected so far. -/
  scan : Scan := {}

namespace Scanner

/-- The label that is declared for instructions before every label. -/
def automaticMain : String := "main"

/-- Starts the pass over the lines of an outermost file. -/
def ofLines (lines : List (Located String)) : Scanner := { stream := { queue := .ofLines lines } }

/-- Adds warnings on a line. -/
def warn (s : Scanner) (loc : Location) (warnings : List Warning) : Scanner :=
  { s with scan.warnings := s.scan.warnings ++ warnings.map (Located.mk loc) }

/-- The address after `width` more bytes; `none` if it would leave the address space. -/
def advance (pointer : Address) (width : Nat) : Option Address :=
  if pointer.toNat + width < UInt32.size then some (UInt32.ofNat (pointer.toNat + width)) else none

/-- Declares a label at the current address. -/
def declare (s : Scanner) (loc : Location) (name : String) : Traced Scanner :=
  if name = "" then .fail (.scan ⟨loc, .emptyLabelName⟩)
  else
    match s.scan.symbols.declare name s.pointer loc with
    | (_, .error .idsExhausted) => .fail (.scan ⟨loc, .tooManyLabels⟩)
    | (symbols, .ok previous) => do
      .report [.label name s.pointer]
      return { s with scan.symbols := symbols, label := some name }.warn loc
        (if previous.isSome then [.labelRedefined name] else [])

/-- Makes sure that there is a current label, and gives it. -/
def currentLabel (opts : Options) (s : Scanner) (loc : Location) : Traced (String × Scanner) :=
  match s.label with
  | some label => pure (label, s)
  | none =>
    if opts.automaticMain then do
      return (automaticMain,
        ← (s.warn loc [.automaticMain automaticMain]).declare loc automaticMain)
    else .fail (.scan ⟨loc, .noLabel⟩)

/-- Adds the code of an instruction. -/
def emit (s : Scanner) (loc : Location) (mnemonic label : String) (code : Encoded) :
    Traced Scanner := do
  .report [.instruction mnemonic s.pointer label]
  match advance s.pointer (Segment.totalWidth code.segments) with
  | none => .fail (.scan ⟨loc, .codeTooLarge⟩)
  | some pointer =>
    return { s with
      pointer
      scan.segments := s.scan.segments ++ code.segments.map (Located.mk loc) }

/-- Encodes an instruction at the current address. -/
def instruction (opts : Options) (s : Scanner) (loc : Location) (mnemonic operand : String) :
    Traced Scanner := do
  let (label, s) ← currentLabel opts s loc
  match Mnemonic.ofName? mnemonic with
  | none => .fail (.scan ⟨loc, .unknownInstruction mnemonic label⟩)
  | some m =>
    match m.encode operand with
    | .error reason => .fail (.scan ⟨loc, .invalidInstruction mnemonic label reason⟩)
    | .ok code => (s.warn loc code.warnings).emit loc mnemonic label code

/-- Runs a directive. -/
def directive (load : Loader) (s : Scanner) (line : Located String) : Traced Scanner :=
  match s.stream.directive load line with
  | (_, .error e) => .fail (.directive ⟨line.loc, e⟩)
  | (stream, .ok effect) => do
    .report (Event.ofEffect? effect).toList
    return { s with stream }.warn line.loc effect.warning?.toList

/-- Handles a line that was just read from the stream. -/
def step (load : Loader) (opts : Options) (s : Scanner) (line : Located String) :
    Traced Scanner :=
  match Line.classify line.val with
  | .blank => pure s
  | .comment => pure s
  | .directive => s.directive load line
  | .label name => s.declare line.loc name
  | .instruction mnemonic operand => s.instruction opts line.loc mnemonic operand

/-- The file that handling a line asks for, if it asks for one. -/
def wanted? (line : Located String) : Option Path :=
  if Line.classify line.val = .directive then Directive.wanted? line else none

/-- A step depends on the loader only through the file it asks for. -/
theorem step_congr {load load' : Loader} {line : Located String}
    (h : ∀ path, wanted? line = some path → load path = load' path) (opts : Options)
    (s : Scanner) : s.step load opts line = s.step load' opts line := by
  unfold step
  split
  · rfl
  · rfl
  · rename_i hdirective
    have hwanted : ∀ path, Directive.wanted? line = some path → load path = load' path := by
      intro path hpath
      exact h path (by rw [wanted?, if_pos hdirective, hpath])
    rw [directive, directive, Stream.directive_congr hwanted]
  · rfl
  · rfl

/-! ### Termination

A step leaves the lines to come alone, or puts lines of a longer include chain in front of them. -/

@[simp] theorem warn_stream (s : Scanner) (loc : Location) (warnings : List Warning) :
    (s.warn loc warnings).stream = s.stream := rfl

theorem declare_stream {s s' : Scanner} {loc : Location} {name : String}
    (h : (s.declare loc name).result = .ok s') : s'.stream = s.stream := by
  unfold declare at h
  simp only at h
  split at h
  · cases h
  · split at h
    · cases h
    · cases h
      rfl

theorem currentLabel_stream {opts : Options} {s s' : Scanner} {loc : Location} {label : String}
    (h : (currentLabel opts s loc).result = .ok (label, s')) : s'.stream = s.stream := by
  unfold currentLabel at h
  split at h
  · cases h
    rfl
  · split at h
    · simp only [Traced.result_bind, Traced.result_pure] at h
      cases hd : ((s.warn loc [.automaticMain automaticMain]).declare loc automaticMain).result with
      | error e => rw [hd] at h; cases h
      | ok t =>
        rw [hd] at h
        cases h
        rw [declare_stream hd, warn_stream]
    · cases h

theorem emit_stream {s s' : Scanner} {loc : Location} {mnemonic label : String} {code : Encoded}
    (h : (s.emit loc mnemonic label code).result = .ok s') : s'.stream = s.stream := by
  unfold emit at h
  simp only [Traced.result_bind, Traced.result_report, Except.bind] at h
  split at h
  · cases h
  · cases h
    rfl

theorem instruction_stream {opts : Options} {s s' : Scanner} {loc : Location}
    {mnemonic operand : String}
    (h : (s.instruction opts loc mnemonic operand).result = .ok s') : s'.stream = s.stream := by
  unfold instruction at h
  rw [Traced.result_bind] at h
  cases hl : (currentLabel opts s loc).result with
  | error e => rw [hl] at h; cases h
  | ok found =>
    obtain ⟨label, t⟩ := found
    rw [hl] at h
    simp only [Except.bind] at h
    split at h
    · cases h
    · split at h
      · cases h
      · rw [emit_stream h, warn_stream, currentLabel_stream hl]

theorem directive_stream {load : Loader} {s s' : Scanner} {line : Located String}
    (h : (s.directive load line).result = .ok s') :
    s'.stream = (s.stream.directive load line).1 := by
  unfold directive at h
  split at h
  · cases h
  · rename_i hd
    cases h
    rw [hd]
    rfl

/-- What a step does to the lines to come. -/
theorem step_pending {load : Loader} {opts : Options} {s s' : Scanner} {line : Located String}
    (h : (s.step load opts line).result = .ok s') :
    s'.stream.queue.pending = s.stream.queue.pending ∨
      ∃ body : List (Located String), (s.stream.chain line.loc.file).length < maxIncludeDepth ∧
        s'.stream.queue.pending =
          body.map (fun l => ⟨l, s.stream.chain line.loc.file⟩) ++ s.stream.queue.pending := by
  unfold step at h
  split at h
  · cases h; exact .inl rfl
  · cases h; exact .inl rfl
  · rw [directive_stream h]
    exact s.stream.directive_pending load line
  · rw [declare_stream h]; exact .inl rfl
  · rw [instruction_stream h]; exact .inl rfl

/-- Reading a line and handling it shrinks the backlog. -/
theorem step_shrinks {load : Loader} {opts : Options} {s s' : Scanner} {line : Located String}
    {stream : Stream} (hnext : s.stream.next? = some (line, stream))
    (h : (({ s with stream } : Scanner).step load opts line).result = .ok s') :
    s'.stream.queue.backlog.Shrinks s.stream.queue.backlog := by
  obtain ⟨p, rest, hp, rfl, rfl⟩ := Stream.next?_eq_some hnext
  rcases step_pending h with hs | ⟨body, hdepth, hs⟩
  · exact ⟨p.rank, [], rest.map Pending.rank, by simp [LineQueue.backlog, hp],
      by simp [LineQueue.backlog, hs], by simp⟩
  · simp only [Stream.chain, List.length_append, List.length_singleton] at hdepth
    refine ⟨p.rank, body.map fun _ => maxIncludeDepth - (p.includers.length + 1),
      rest.map Pending.rank, by simp [LineQueue.backlog, hp], ?_, ?_⟩
    · simp [LineQueue.backlog, hs, Function.comp_def, Pending.rank, Stream.chain]
    · intro n hn
      obtain ⟨_, -, rfl⟩ := List.mem_map.mp hn
      simp only [Pending.rank]
      omega

/-- Handles all lines, the included ones too. `log` holds the events so far. -/
def run (load : Loader) (opts : Options) (s : Scanner) (log : Array Event) : Traced Scan :=
  match _hnext : s.stream.next? with
  | none => ⟨log.toList, .ok s.scan⟩
  | some (line, stream) =>
    let stepped := ({ s with stream } : Scanner).step load opts line
    match _hstep : stepped.result with
    | .error e => ⟨(log ++ stepped.events).toList, .error e⟩
    | .ok s' => run load opts s' (log ++ stepped.events)
termination_by s.stream.queue.backlog
decreasing_by exact step_shrinks _hnext _hstep

end Scanner

/-- The first pass over the lines of an outermost file. -/
def scanLines (load : Loader) (opts : Options) (lines : List (Located String)) : Traced Scan :=
  (Scanner.ofLines lines).run load opts #[]

end StackAsm
