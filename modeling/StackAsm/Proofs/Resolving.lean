import StackAsm.Assembly
import StackAsm.Proofs.Scanning

/-!
# StackAsm.Proofs.Resolving

The second pass as equations on results.

`Scan.result_assemble` says for every scan what it is assembled to: the entry point is looked up
first, then the first reference to a label that is not in the table counts, and else there is an
image. For the scan of a program the unknown references are those of its lines
(`Scan.Of.firstUnknown?_eq`): a line refers to at most one label, so that the first unknown
reference in code order is that of the first line with one.
-/

namespace StackAsm

namespace Scan

/-- The label that a segment refers to without its being in the table, and where it does. -/
def unknown? (table : SymbolTable) (segment : Located Segment) : Option (Located String) :=
  (segment.val.unknownLabel? table).map (Located.mk segment.loc)

/-- The first such reference. -/
def firstUnknown? (scan : Scan) : Option (Located String) :=
  scan.segments.toList.findSome? (unknown? scan.symbols)

/-- The code with the ids of all labels filled in. -/
def filled (scan : Scan) : List UInt8 :=
  scan.segments.toList.flatMap fun segment => (segment.val.resolve? scan.symbols).getD []

theorem result_resolve (scan : Scan) (opts : Options) :
    (scan.resolve opts).result =
      match scan.symbols.get? opts.entryPoint, scan.firstUnknown? with
      | none, _ => .error (.missingEntryPoint opts.entryPoint)
      | some _, some name => .error (.unknownLabel name)
      | some start, none =>
        .ok ⟨start.address, scan.filled, scan.unusedLabels opts.entryPoint⟩ := by
  unfold resolve
  cases scan.symbols.get? opts.entryPoint with
  | none => rfl
  | some start =>
    simp only [Traced.result_bind, Traced.result_report, Except.bind]
    have hfirst : scan.firstUnknown? = scan.segments.toList.findSome? fun segment =>
        (segment.val.unknownLabel? scan.symbols).map (Located.mk segment.loc) := rfl
    rw [hfirst]
    cases scan.segments.toList.findSome? fun segment =>
        (segment.val.unknownLabel? scan.symbols).map (Located.mk segment.loc) <;> rfl

theorem settle_of_error {scan : Scan} {opts : Options} {e : AssemblyError}
    (h : (scan.resolve opts).result = .error e) : scan.settle opts = (scan, scan.resolve opts) := by
  simp only [settle, h]

theorem settle_of_ok {scan : Scan} {opts : Options} {found : Resolved}
    (h : (scan.resolve opts).result = .ok found) :
    scan.settle opts =
      ({ scan with warnings := scan.warnings ++ found.unused }, scan.resolve opts) := by
  simp only [settle, h]

theorem result_assemble (scan : Scan) (opts : Options) :
    (scan.assemble opts).result =
      match scan.symbols.get? opts.entryPoint, scan.firstUnknown? with
      | none, _ => .error (.missingEntryPoint opts.entryPoint)
      | some _, some name => .error (.unknownLabel name)
      | some start, none =>
        .ok ⟨⟨{ entry := start.address, stackSize := opts.stackSize }, scan.symbols.records,
          scan.filled⟩, scan.warnings.toList ++ scan.unusedLabels opts.entryPoint⟩ := by
  have hresolve := scan.result_resolve opts
  cases hentry : scan.symbols.get? opts.entryPoint with
  | none =>
    rw [hentry] at hresolve
    rw [assemble, settle_of_error hresolve, Traced.result_bind, hresolve]
    rfl
  | some start =>
    rw [hentry] at hresolve
    cases hunknown : scan.firstUnknown? with
    | some name =>
      rw [hunknown] at hresolve
      rw [assemble, settle_of_error hresolve, Traced.result_bind, hresolve]
      rfl
    | none =>
      rw [hunknown] at hresolve
      rw [assemble, settle_of_ok hresolve, Traced.result_bind, hresolve, Array.toList_appendList]
      rfl

/-- What is known when there is an image. -/
theorem assemble_eq_ok {scan : Scan} {opts : Options} {assembly : Assembly}
    (h : (scan.assemble opts).result = .ok assembly) :
    ∃ start, scan.symbols.get? opts.entryPoint = some start ∧ scan.firstUnknown? = none ∧
      assembly.image = ⟨{ entry := start.address, stackSize := opts.stackSize },
        scan.symbols.records, scan.filled⟩ := by
  rw [result_assemble] at h
  split at h
  · cases h
  · cases h
  · rename_i start hentry hunknown
    cases h
    exact ⟨start, hentry, hunknown, rfl⟩

end Scan

theorem result_assembleLines (load : Loader) (opts : Options) (lines : List (Located String)) :
    (assembleLines load opts lines).result =
      (scanLines load opts lines).result.bind fun scan => (scan.assemble opts).result := by
  rw [assembleLines, Traced.result_bind]

/-! ### The scan of a program -/

namespace Program

/-- Whether a program declares a label. -/
def Declares (p : Program) (label : String) : Prop := ∃ d ∈ p.declarations, d.name = label

instance (p : Program) (label : String) : Decidable (p.Declares label) :=
  inferInstanceAs (Decidable (∃ d ∈ p.declarations, d.name = label))

/-- The label that a line refers to without the program declaring it, and where it does. -/
def undeclared? (p : Program) (line : Located Line) : Option (Located String) :=
  (line.val.reference?.filter fun label => ¬ p.Declares label).map (Located.mk line.loc)

variable {p : Program} {line : Located Line}

theorem undeclared?_eq_some {name : Located String} :
    undeclared? p line = some name ↔
      line.val.reference? = some name.val ∧ ¬ p.Declares name.val ∧ name.loc = line.loc := by
  obtain ⟨loc, label⟩ := name
  simp only [undeclared?, Option.map_eq_some_iff, Option.filter_eq_some_iff, Located.mk.injEq,
    decide_eq_true_eq]
  constructor
  · rintro ⟨label', ⟨href, hnot⟩, rfl, rfl⟩
    exact ⟨href, hnot, rfl⟩
  · rintro ⟨href, hnot, rfl⟩
    exact ⟨label, ⟨href, hnot⟩, rfl, rfl⟩

theorem undeclared?_eq_none :
    undeclared? p line = none ↔
      ∀ label, line.val.reference? = some label → p.Declares label := by
  simp [undeclared?, Option.filter_eq_none_iff]

end Program

namespace Scan.Of

variable {scan : Scan} {p : Program}

theorem get?_isSome (h : scan.Of p) (label : String) :
    (scan.symbols.get? label).isSome = true ↔ p.Declares label :=
  (h.symbols.get?_isSome label).trans Declaration.mem_names

theorem findSome?_unknown (h : scan.Of p) (loc : Location) (segments : List Segment) :
    (segments.map (Located.mk loc)).findSome? (unknown? scan.symbols) =
      (Segment.references segments).findSome? fun label =>
        if p.Declares label then none else some ⟨loc, label⟩ := by
  induction segments with
  | nil => rfl
  | cons segment segments ih =>
    cases segment with
    | bytes raw =>
      rw [List.map_cons, List.findSome?_cons, Segment.references_cons]
      exact ih
    | label name =>
      by_cases hname : p.Declares name
      · simpa [unknown?, Segment.unknownLabel?, hname, (h.get?_isSome name).mpr hname] using ih
      · simp [unknown?, Segment.unknownLabel?, hname, mt (h.get?_isSome name).mp hname]

/-- The unknown reference in the code of a line is that of the line. -/
theorem findSome?_unknown_segments (h : scan.Of p) {line : Located Line}
    (hcode : line.val.isInstruction = true → line.val.code?.isSome) :
    (line.val.segments.map (Located.mk line.loc)).findSome? (unknown? scan.symbols) =
      p.undeclared? line := by
  rw [h.findSome?_unknown, Line.references_segments hcode]
  cases href : line.val.reference? with
  | none => simp [Program.undeclared?, href]
  | some label =>
    by_cases hlabel : p.Declares label
    · simp [Program.undeclared?, href, hlabel, Option.filter_some]
    · simp [Program.undeclared?, href, hlabel, Option.filter_some]

theorem firstUnknown?_eq (h : scan.Of p)
    (hcode : ∀ line ∈ p, line.val.isInstruction = true → line.val.code?.isSome) :
    scan.firstUnknown? = p.findSome? p.undeclared? := by
  -- some of the lines of the program, against the declarations of all
  have some_lines : ∀ q : Program,
      (∀ line ∈ q, line.val.isInstruction = true → line.val.code?.isSome) →
        q.segments.findSome? (unknown? scan.symbols) = q.findSome? p.undeclared? := by
    intro q hq
    induction q with
    | nil => rfl
    | cons line q ih =>
      have hcons : Program.segments (line :: q) =
          line.val.segments.map (Located.mk line.loc) ++ Program.segments q := by
        simp [Program.segments]
      rw [hcons, List.findSome?_append, h.findSome?_unknown_segments (hq line (by simp)),
        ih fun other hother => hq other (by simp [hother]), List.findSome?_cons]
      cases p.undeclared? line <;> rfl
  rw [firstUnknown?, h.segments]
  exact some_lines p hcode

end Scan.Of

/-- Assembling lines without directives ends at the first fault, or goes on with a scan of the
program. -/
theorem assembleLines_of_plain (load : Loader) {opts : Options} {lines : List (Located String)}
    (hplain : ∀ line ∈ lines, Line.classify line.val ≠ .directive) :
    (∃ scan : Scan, (Program.ofLines lines).Scannable opts ∧ scan.Of (Program.ofLines lines) ∧
      (assembleLines load opts lines).result = (scan.assemble opts).result) ∨
    ∃ line e, (Program.ofLines lines).FirstFault opts line e ∧
      (assembleLines load opts lines).result = .error (.scan ⟨line.loc, e⟩) := by
  have hscans : (Program.ofLines lines).ScansTo opts (scanLines load opts lines).result :=
    Scanner.scansTo_scanLines load hplain
  rw [result_assembleLines]
  generalize (scanLines load opts lines).result = r at hscans ⊢
  cases hscans with
  | scanned hp hscan => exact .inl ⟨_, hp, hscan, rfl⟩
  | fault hfault => exact .inr ⟨_, _, hfault, rfl⟩

end StackAsm
