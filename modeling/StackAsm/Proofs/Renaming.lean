import Mathlib.Logic.Equiv.Basic
import StackAsm.Proofs.Agreement
import StackAsm.Proofs.Resolving

/-!
# StackAsm.Proofs.Renaming

Label names do not reach the image.

Names are only ever compared with each other and with the empty name, and `main` is the one name
that the assembler brings in by itself. So if names are replaced one by one, the empty one by itself
and `main` by itself where it may be brought in, the two passes go on as before. They declare and
refer to labels at the same places, with the same ids and addresses, and what is said of labels is
said of the new names.

The scanners of the two runs are `Renamed` into each other: this is kept by every operation
(`Scanner.Renamed.declare`, `Scanner.Renamed.currentLabel`, `Scanner.Renamed.placed`), so by a turn
and by a run. The image is made of ids and addresses alone, and comes out the same
(`Scan.Renamed.assemble`).
-/

namespace StackAsm

/-! ### Renaming what is named -/

/-- Another value at the same place. -/
def Located.map {α β : Type} (f : α → β) (x : Located α) : Located β := ⟨x.loc, f x.val⟩

/-- A line with other label names. Only three instructions are followed by a label. -/
def Line.rename (r : String → String) : Line → Line
  | label name => .label (r name)
  | instruction mnemonic operand =>
    .instruction mnemonic (if mnemonic ∈ ["llbl", "jmpl", "jmpr"] then r operand else operand)
  | line => line

def Segment.rename (r : String → String) : Segment → Segment
  | label name => .label (r name)
  | bytes raw => .bytes raw

def Warning.rename (r : String → String) : Warning → Warning
  | labelRedefined name => .labelRedefined (r name)
  | automaticMain name => .automaticMain (r name)
  | unusedLabel name => .unusedLabel (r name)
  | missingIncludeGuard path => .missingIncludeGuard path
  | addZeroReadsStack => .addZeroReadsStack

def ScanError.rename (r : String → String) : ScanError → ScanError
  | unknownInstruction name label => .unknownInstruction name (r label)
  | invalidInstruction name label reason => .invalidInstruction name (r label) reason
  | e => e

def AssemblyError.rename (r : String → String) : AssemblyError → AssemblyError
  | scan cause => .scan (cause.map (ScanError.rename r))
  | unknownLabel name => .unknownLabel (name.map r)
  | missingEntryPoint name => .missingEntryPoint (r name)
  | e => e

def Encoded.rename (r : String → String) (code : Encoded) : Encoded :=
  ⟨code.segments.map (Segment.rename r), code.warnings.map (Warning.rename r)⟩

/-- The same choices for the renamed program. -/
def Options.rename (r : String → String) (opts : Options) : Options :=
  { opts with entryPoint := r opts.entryPoint }

/-- Two computations end alike: one says of the old names what the other says of the new ones. -/
abbrev AgreeRenamed (r : String → String) {α β : Type} (R : α → β → Prop) :
    Except AssemblyError α → Except AssemblyError β → Prop :=
  Agree (fun e e' => e' = e.rename r) R

/-- Names are replaced one by one, except those that mean something to the assembler. -/
structure Renaming (opts : Options) (r : String → String) : Prop where
  injective : Function.Injective r
  empty : r "" = ""
  main : opts.automaticMain = true → r Scanner.automaticMain = Scanner.automaticMain

theorem Renaming.eq_empty_iff {opts : Options} {r : String → String} (hr : Renaming opts r)
    (name : String) : r name = "" ↔ name = "" := by
  constructor
  · intro h
    exact hr.injective (h.trans hr.empty.symm)
  · rintro rfl
    exact hr.empty

/-! ### Code -/

theorem Segment.totalWidth_map_rename (r : String → String) (segments : List Segment) :
    totalWidth (segments.map (rename r)) = totalWidth segments := by
  induction segments with
  | nil => rfl
  | cons segment segments ih =>
    rw [List.map_cons, totalWidth_cons, totalWidth_cons, ih]
    cases segment <;> rfl

/-- Code without references stays as it is. -/
theorem Segment.map_rename_of_references_eq_nil (r : String → String) {segments : List Segment}
    (h : references segments = []) : segments.map (rename r) = segments := by
  induction segments with
  | nil => rfl
  | cons segment segments ih =>
    cases segment with
    | label name => simp at h
    | bytes raw =>
      rw [List.map_cons, ih h]
      rfl

section

variable {opts : Options} {r : String → String}

theorem Renaming.label (hr : Renaming opts r) (operand : String) :
    Operand.label (r operand) = (Operand.label operand).map r := by
  unfold Operand.label
  simp only [hr.eq_empty_iff]
  split <;> rfl

/-- The code of an instruction that takes a label is that of the old one, renamed. -/
theorem Renaming.encode_of_takesLabel (hr : Renaming opts r) {m : Mnemonic}
    (hm : m.takesLabel = true) (operand : String) :
    m.encode (r operand) = (m.encode operand).map (Encoded.rename r) := by
  have hlabel := hr.label operand
  cases m with
  | llbl | jmpl | jmpr =>
    simp only [Mnemonic.encode, hlabel]
    cases Operand.label operand <;> rfl
  | _ => cases hm

theorem Mnemonic.map_rename_encode (r : String → String) {m : Mnemonic}
    (hm : m.takesLabel = false) (operand : String) :
    (m.encode operand).map (Encoded.rename r) = m.encode operand := by
  cases hcode : m.encode operand with
  | error e => rfl
  | ok code =>
    have hsegments : code.segments.map (Segment.rename r) = code.segments := by
      apply Segment.map_rename_of_references_eq_nil
      rw [references_encode hcode, hm]
      rfl
    have hwarnings : code.warnings.map (Warning.rename r) = code.warnings := by
      rcases warnings_encode hcode with hnone | hzero
      · rw [hnone]
        rfl
      · rw [hzero]
        rfl
    show Except.ok (Encoded.mk _ _) = _
    rw [hsegments, hwarnings]

/-- The code of an instruction under a label goes with that of the renamed one. -/
theorem Renaming.encodeInstruction (hr : Renaming opts r) (mnemonic operand label : String) :
    Agree (fun e e' => e' = e.rename r) (fun code code' => code' = code.rename r)
      (encodeInstruction mnemonic operand label)
      (encodeInstruction mnemonic
        (if mnemonic ∈ ["llbl", "jmpl", "jmpr"] then r operand else operand) (r label)) := by
  unfold StackAsm.encodeInstruction
  cases hm : Mnemonic.ofName? mnemonic with
  | none => exact .error rfl
  | some m =>
    have hcode : m.encode (if mnemonic ∈ ["llbl", "jmpl", "jmpr"] then r operand else operand) =
        (m.encode operand).map (Encoded.rename r) := by
      by_cases htakes : m.takesLabel = true
      · rw [if_pos ((Line.takesLabel_iff hm).mp htakes), hr.encode_of_takesLabel htakes]
      · rw [if_neg (mt (Line.takesLabel_iff hm).mpr htakes),
          Mnemonic.map_rename_encode r (Bool.eq_false_iff.mpr htakes)]
    simp only [hcode]
    cases m.encode operand with
    | error reason => exact .error rfl
    | ok code => exact .ok rfl

end

/-! ### Symbol tables -/

namespace SymbolTable

theorem contains_bindings (t : SymbolTable) (name : String) :
    t.bindings.contains name = (t.get? name).isSome := by
  simp [get?]

theorem get?_insert (t : SymbolTable) (name other : String) (address : Address) (loc : Location) :
    (t.insert name address loc).get? other =
      if name = other then some ⟨UInt16.ofNat t.declared, address, loc⟩ else t.get? other := by
  simp [get?, insert, Std.TreeMap.getElem?_insert]

/-- The same symbols under other names. -/
structure Renamed (r : String → String) (t t' : SymbolTable) : Prop where
  declared : t'.declared = t.declared
  names : t'.names.toList = t.names.toList.map r
  get? : ∀ name, t'.get? (r name) = t.get? name

theorem renamed_empty (r : String → String) : ({} : SymbolTable).Renamed r {} where
  declared := rfl
  names := rfl
  get? name := by simp

namespace Renamed

variable {r : String → String} {t t' : SymbolTable}

theorem isFull (h : t.Renamed r t') : t'.isFull = t.isFull := by
  unfold SymbolTable.isFull
  rw [h.declared]

theorem insert (h : t.Renamed r t') (hr : Function.Injective r) (name : String)
    (address : Address) (loc : Location) :
    (t.insert name address loc).Renamed r (t'.insert (r name) address loc) where
  declared := by simp [SymbolTable.insert, h.declared]
  names := by
    simp only [SymbolTable.insert, contains_bindings, h.get?]
    split
    · exact h.names
    · simp [h.names]
  get? other := by
    rw [get?_insert, get?_insert, h.declared, h.get?]
    simp only [hr.eq_iff]

theorem toList (h : t.Renamed r t') :
    t'.toList = t.toList.map fun (name, symbol) => (r name, symbol) := by
  unfold SymbolTable.toList
  rw [h.names, List.filterMap_map, List.map_filterMap]
  congr 1
  funext name
  simp [h.get?, Function.comp_def]

theorem records (h : t.Renamed r t') : t'.records = t.records := by
  unfold SymbolTable.records
  rw [h.toList, List.map_map]
  rfl

end Renamed

end SymbolTable

/-! ### The first pass -/

/-- A scan of the same program under other names. -/
structure Scan.Renamed (r : String → String) (scan scan' : Scan) : Prop where
  symbols : scan.symbols.Renamed r scan'.symbols
  segments : scan'.segments.toList = scan.segments.toList.map (Located.map (Segment.rename r))
  warnings : scan'.warnings.toList = scan.warnings.toList.map (Located.map (Warning.rename r))

namespace Scanner

/-- A scanner that has come as far under other names. -/
structure Renamed (r : String → String) (s s' : Scanner) : Prop where
  label : s'.label = s.label.map r
  pointer : s'.pointer = s.pointer
  scan : s.scan.Renamed r s'.scan

theorem renamed_ofLines (r : String → String) (lines lines' : List (Located String)) :
    (ofLines lines).Renamed r (ofLines lines') where
  label := rfl
  pointer := rfl
  scan := ⟨SymbolTable.renamed_empty r, rfl, rfl⟩

namespace Renamed

variable {r : String → String} {opts : Options} {s s' : Scanner}

/-- The streams do not matter. -/
theorem withStream (h : s.Renamed r s') (stream stream' : Stream) :
    ({ s with stream } : Scanner).Renamed r { s' with stream := stream' } :=
  ⟨h.label, h.pointer, h.scan⟩

theorem warn (h : s.Renamed r s') (loc : Location) (ws : List Warning) :
    (s.warn loc ws).Renamed r (s'.warn loc (ws.map (Warning.rename r))) where
  label := h.label
  pointer := h.pointer
  scan := {
    symbols := h.scan.symbols
    segments := h.scan.segments
    warnings := by simp [Scanner.warn, h.scan.warnings, Located.map] }

theorem emitted (h : s.Renamed r s') (loc : Location) (segments : List Segment) :
    (s.emitted loc segments).Renamed r
      (s'.emitted loc (segments.map (Segment.rename r))) where
  label := h.label
  pointer := by simp only [Scanner.emitted, h.pointer, Segment.totalWidth_map_rename]
  scan := {
    symbols := h.scan.symbols
    segments := by simp [Scanner.emitted, h.scan.segments, Located.map]
    warnings := h.scan.warnings }

theorem declared (h : s.Renamed r s') (hr : Function.Injective r) (loc : Location)
    (name : String) : (s.declared loc name).Renamed r (s'.declared loc (r name)) := by
  have hinserted : ({ s with
        scan.symbols := s.scan.symbols.insert name s.pointer loc
        label := some name } : Scanner).Renamed r
      { s' with
        scan.symbols := s'.scan.symbols.insert (r name) s'.pointer loc
        label := some (r name) } := by
    rw [h.pointer]
    exact ⟨rfl, rfl, h.scan.symbols.insert hr name s.pointer loc, h.scan.segments,
      h.scan.warnings⟩
  have hremark :
      (if (s'.scan.symbols.get? (r name)).isSome then [.labelRedefined (r name)] else []) =
      (if (s.scan.symbols.get? name).isSome then [.labelRedefined name] else []).map
        (Warning.rename r) := by
    rw [h.scan.symbols.get?]
    split <;> rfl
  unfold Scanner.declared
  rw [hremark]
  exact hinserted.warn loc _

theorem declare (h : s.Renamed r s') (hr : Renaming opts r) (loc : Location) (name : String) :
    AgreeRenamed r (Renamed r) (s.declare loc name).result (s'.declare loc (r name)).result := by
  rw [result_declare, result_declare, h.scan.symbols.isFull]
  simp only [hr.eq_empty_iff]
  split
  · exact .error rfl
  · split
    · exact .error rfl
    · exact .ok (h.declared hr.injective loc name)

theorem currentLabel (h : s.Renamed r s') (hr : Renaming opts r) (loc : Location) :
    AgreeRenamed r (fun x y => y.1 = r x.1 ∧ x.2.Renamed r y.2)
      (Scanner.currentLabel opts s loc).result
      (Scanner.currentLabel (opts.rename r) s' loc).result := by
  rw [result_currentLabel, result_currentLabel, h.label]
  cases s.label with
  | some label => exact .ok ⟨rfl, h⟩
  | none =>
    show AgreeRenamed r _ (ite (opts.automaticMain = true) _ _)
      (ite (opts.automaticMain = true) _ _)
    by_cases hauto : opts.automaticMain = true
    · -- the label that is brought in is not renamed
      have hmain := hr.main hauto
      have hwarned := h.warn loc [.automaticMain automaticMain]
      have hdeclared := hwarned.declare hr loc automaticMain
      simp only [List.map_cons, List.map_nil, Warning.rename, hmain] at hdeclared
      rw [if_pos hauto, if_pos hauto]
      exact hdeclared.map fun t t' ht => ⟨hmain.symm, ht⟩
    · rw [if_neg hauto, if_neg hauto]
      exact .error rfl

theorem placed (h : s.Renamed r s') (hr : Renaming opts r) (loc : Location)
    (mnemonic operand label : String) :
    AgreeRenamed r (Renamed r) (s.placed loc mnemonic operand label)
      (s'.placed loc mnemonic
        (if mnemonic ∈ ["llbl", "jmpl", "jmpr"] then r operand else operand) (r label)) := by
  have hcode := hr.encodeInstruction mnemonic operand label
  unfold Scanner.placed
  generalize encodeInstruction mnemonic operand label = x at hcode ⊢
  generalize encodeInstruction mnemonic _ (r label) = y at hcode ⊢
  cases hcode with
  | error he =>
    rw [he]
    exact .error rfl
  | @ok code code' hcode =>
    have hwarned := h.warn loc code.warnings
    have hwidth : Segment.totalWidth code'.segments = Segment.totalWidth code.segments := by
      rw [hcode]
      exact Segment.totalWidth_map_rename r code.segments
    simp only [result_emit, hwidth]
    rw [hcode]
    show AgreeRenamed r _ (ite (s.pointer.toNat + _ < _) _ _) (ite (s'.pointer.toNat + _ < _) _ _)
    rw [h.pointer]
    split
    · exact .ok (hwarned.emitted loc code.segments)
    · exact .error rfl

/-- A line that is no directive, and the renamed line. -/
theorem step (h : s.Renamed r s') (hr : Renaming opts r) (load load' : Loader)
    {line line' : Located String} (hplain : Line.classify line.val ≠ .directive)
    (hloc : line'.loc = line.loc)
    (hline : Line.classify line'.val = (Line.classify line.val).rename r) :
    AgreeRenamed r (Renamed r) (s.step load opts line).result
      (s'.step load' (opts.rename r) line').result := by
  unfold Scanner.step
  rw [hline, hloc]
  cases hform : Line.classify line.val with
  | blank | comment => exact .ok h
  | directive => exact absurd hform hplain
  | label name => exact h.declare hr line.loc name
  | instruction mnemonic operand =>
    show AgreeRenamed r _ (s.instruction opts line.loc mnemonic operand).result
      (s'.instruction (opts.rename r) line.loc mnemonic _).result
    rw [result_instruction, result_instruction]
    refine (h.currentLabel hr line.loc).bind ?_
    rintro ⟨label, t⟩ ⟨label', t'⟩ ⟨hlabel, ht⟩
    obtain rfl : label' = r label := hlabel
    exact ht.placed hr line.loc mnemonic operand label

end Renamed

/-- Lines without directives, and the renamed lines at the same places. -/
def RenamedLines (r : String → String) : List (Located String) → List (Located String) → Prop :=
  List.Forall₂ fun line line' => Line.classify line.val ≠ .directive ∧
    line'.loc = line.loc ∧ Line.classify line'.val = (Line.classify line.val).rename r

/-- Renamed scanners that have renamed lines to come. -/
def Beside (r : String → String) (s s' : Scanner) : Prop :=
  s.Renamed r s' ∧ RenamedLines r (s.stream.queue.pending.map Pending.line)
    (s'.stream.queue.pending.map Pending.line)

namespace Beside

variable {r : String → String} {opts : Options} {s s' : Scanner}

theorem done (h : Beside r s s') (hnext : s.stream.next? = none) :
    s'.stream.next? = none ∧ s.scan.Renamed r s'.scan := by
  obtain ⟨hrenamed, hlines⟩ := h
  rw [next?_eq_none_iff.mp hnext] at hlines
  cases hlines' : s'.stream.queue.pending with
  | nil => exact ⟨next?_eq_none_iff.mpr hlines', hrenamed.scan⟩
  | cons p' rest' =>
    rw [hlines'] at hlines
    cases hlines

theorem turn {load load' : Loader} (h : Beside r s s') (hr : Renaming opts r)
    {line : Located String} {res : Except AssemblyError Scanner}
    (turn : Turn load opts s line res) :
    ∃ line' res', Turn load' (opts.rename r) s' line' res' ∧
      AgreeRenamed r (Beside r) res res' := by
  obtain ⟨p, rest, hpending, rfl, hstep⟩ := turn.exists_pending
  obtain ⟨hrenamed, hlines⟩ := h
  rw [hpending] at hlines
  cases hpending' : s'.stream.queue.pending with
  | nil =>
    rw [hpending'] at hlines
    cases hlines
  | cons p' rest' =>
    rw [hpending'] at hlines
    obtain ⟨⟨hplain, hloc, hline⟩, hrest⟩ := List.forall₂_cons.mp hlines
    have hplain' : Line.classify p'.line.val ≠ .directive := by
      rw [hline]
      cases hform : Line.classify p.line.val with
      | directive => exact absurd hform hplain
      | _ => simp [Line.rename]
    have hagree := (hrenamed.withStream ⟨⟨rest, p.includers⟩, s.stream.guards⟩
      ⟨⟨rest', p'.includers⟩, s'.stream.guards⟩).step hr load load' hplain hloc
        hline
    rw [hstep] at hagree
    refine ⟨p'.line, _, turn_of_pending hpending', ?_⟩
    generalize hstep' : Traced.result (Scanner.step load' _ _ p'.line) = res' at hagree ⊢
    cases hagree with
    | error he => exact .error he
    | ok ht =>
      -- lines that are no directives leave the lines to come alone
      refine .ok ⟨ht, ?_⟩
      rw [stream_of_step_plain hplain hstep, stream_of_step_plain hplain' hstep']
      exact hrest

end Beside

/-- The first passes over lines and over the renamed lines end alike. -/
theorem RenamedLines.agree_scanLines {r : String → String} {opts : Options}
    {lines lines' : List (Located String)} (h : RenamedLines r lines lines') (hr : Renaming opts r)
    (load load' : Loader) :
    AgreeRenamed r (Scan.Renamed r) (scanLines load opts lines).result
      (scanLines load' (opts.rename r) lines').result := by
  refine Scanner.agree_scanLines (R := Beside r) (fun s s' hs hnext => hs.done hnext)
    (fun s s' line res hs turn => hs.turn hr turn) ?_
  refine ⟨renamed_ofLines r lines lines', ?_⟩
  simpa [ofLines, LineQueue.pending_ofLines, Function.comp_def] using h

end Scanner

/-! ### The second pass -/

namespace Scan.Renamed

variable {r : String → String} {scan scan' : Scan}

theorem unknown? (h : scan.Renamed r scan') (segment : Located Segment) :
    Scan.unknown? scan'.symbols (segment.map (Segment.rename r)) =
      (Scan.unknown? scan.symbols segment).map (Located.map r) := by
  obtain ⟨loc, segment⟩ := segment
  cases segment with
  | bytes raw => rfl
  | label name =>
    simp only [Scan.unknown?, Segment.unknownLabel?, Located.map, Segment.rename, h.symbols.get?]
    split <;> rfl

theorem firstUnknown? (h : scan.Renamed r scan') :
    scan'.firstUnknown? = scan.firstUnknown?.map (Located.map r) := by
  unfold Scan.firstUnknown?
  rw [h.segments, List.findSome?_map, List.map_findSome?]
  congr 1
  funext segment
  exact h.unknown? segment

theorem filled (h : scan.Renamed r scan') : scan'.filled = scan.filled := by
  unfold Scan.filled
  rw [h.segments, List.flatMap_map]
  congr 1
  funext segment
  obtain ⟨loc, segment⟩ := segment
  cases segment with
  | bytes raw => rfl
  | label name => simp [Located.map, Segment.rename, Segment.resolve?, h.symbols.get?]

/-- A label is referred to if it is under its new name. -/
theorem contains_references (h : scan.Renamed r scan') (hr : Function.Injective r)
    (name : String) : scan'.references.contains (r name) = scan.references.contains name := by
  have hreference : ∀ segment : Located Segment,
      (segment.map (Segment.rename r)).val.reference? = segment.val.reference?.map r := by
    rintro ⟨loc, segment⟩
    cases segment <;> rfl
  have hrefs : scan'.segments.toList.filterMap (fun segment => segment.val.reference?) =
      (scan.segments.toList.filterMap fun segment => segment.val.reference?).map r := by
    rw [h.segments, List.filterMap_map, List.map_filterMap]
    congr 1
    funext segment
    exact hreference segment
  unfold Scan.references
  rw [hrefs, Std.TreeSet.contains_ofList, Std.TreeSet.contains_ofList, Bool.eq_iff_iff]
  simp [hr.eq_iff]

theorem unusedLabels (h : scan.Renamed r scan') (hr : Function.Injective r) (entry : String) :
    scan'.unusedLabels (r entry) =
      (scan.unusedLabels entry).map (Located.map (Warning.rename r)) := by
  unfold Scan.unusedLabels
  rw [h.symbols.toList, List.filterMap_map, List.map_filterMap]
  congr 1
  funext ⟨name, symbol⟩
  simp only [Function.comp_apply, h.contains_references hr, hr.eq_iff]
  split <;> rfl

/-- The image is the same, and the warnings are on the new names. -/
theorem assemble (h : scan.Renamed r scan') (hr : Function.Injective r) (opts : Options) :
    AgreeRenamed r
      (fun a a' => a'.image = a.image ∧
        a'.warnings = a.warnings.map (Located.map (Warning.rename r)))
      (scan.assemble opts).result (scan'.assemble (opts.rename r)).result := by
  rw [result_assemble, result_assemble]
  have hentry : scan'.symbols.get? (opts.rename r).entryPoint =
      scan.symbols.get? opts.entryPoint := h.symbols.get? opts.entryPoint
  rw [hentry, h.firstUnknown?]
  cases scan.symbols.get? opts.entryPoint with
  | none => exact .error rfl
  | some start =>
    cases scan.firstUnknown? with
    | some name => exact .error rfl
    | none =>
      refine .ok ⟨?_, ?_⟩
      · simp only [h.symbols.records, h.filled]
        rfl
      · simp only [h.warnings, List.map_append, ← h.unusedLabels hr]
        rfl

end Scan.Renamed

/-- **Label names do not reach the image.** If all names are replaced one by one in lines without
directives and in the entry point, then either both programs are assembled, to the same bytes and
with the same remarks on the new names, or both are refused, for the same reason. -/
theorem assembleLines_renamed (load load' : Loader) (opts : Options) (r : String → String)
    (hinjective : Function.Injective r) (hempty : r "" = "")
    (hmain : opts.automaticMain = true → r "main" = "main") (lines lines' : List (Located String))
    (hplain : ∀ line ∈ lines, Line.classify line.val ≠ .directive)
    (hlines : List.Forall₂ (fun line line' => line'.loc = line.loc ∧
      Line.classify line'.val = (Line.classify line.val).rename r) lines lines') :
    (∃ a a', (assembleLines load opts lines).result = .ok a ∧
      (assembleLines load' { opts with entryPoint := r opts.entryPoint } lines').result = .ok a' ∧
      a'.image.toBytes = a.image.toBytes ∧
      a'.warnings = a.warnings.map (Located.map (Warning.rename r))) ∨
    ∃ e, (assembleLines load opts lines).result = .error e ∧
      (assembleLines load' { opts with entryPoint := r opts.entryPoint } lines').result =
        .error (e.rename r) := by
  have hr : Renaming opts r := ⟨hinjective, hempty, hmain⟩
  have hrenamed : Scanner.RenamedLines r lines lines' :=
    (List.forall₂_and_left ..).mpr ⟨hplain, hlines⟩
  have hagree := (hrenamed.agree_scanLines hr load load').bind
    fun scan scan' hscan => hscan.assemble hinjective opts
  rw [← result_assembleLines, ← result_assembleLines] at hagree
  show (∃ a a', _ = _ ∧ (assembleLines load' (opts.rename r) lines').result = _ ∧ _) ∨
    ∃ e, _ = _ ∧ (assembleLines load' (opts.rename r) lines').result = _
  generalize (assembleLines load opts lines).result = x at hagree ⊢
  generalize (assembleLines load' (opts.rename r) lines').result = y at hagree ⊢
  cases hagree with
  | ok h => exact .inl ⟨_, _, rfl, rfl, by rw [h.1], h.2⟩
  | error he => exact .inr ⟨_, rfl, by rw [he]⟩

/-- A program with an automatic label, a label that is declared twice and one that is not used. -/
def crossing : List (Located String) :=
  [⟨⟨"f", 1⟩, "jmpl b"⟩, ⟨⟨"f", 2⟩, "a:"⟩, ⟨⟨"f", 3⟩, "llbl a"⟩, ⟨⟨"f", 4⟩, "b:"⟩,
    ⟨⟨"f", 5⟩, "jmpr a"⟩, ⟨⟨"f", 6⟩, "a:"⟩, ⟨⟨"f", 7⟩, "c:"⟩]

/-- The same with two names exchanged. -/
def crossed : List (Located String) :=
  [⟨⟨"f", 1⟩, "jmpl a"⟩, ⟨⟨"f", 2⟩, "b:"⟩, ⟨⟨"f", 3⟩, "llbl b"⟩, ⟨⟨"f", 4⟩, "a:"⟩,
    ⟨⟨"f", 5⟩, "jmpr b"⟩, ⟨⟨"f", 6⟩, "b:"⟩, ⟨⟨"f", 7⟩, "c:"⟩]

theorem crossing_renamed :
    ∃ a a', (assembleLines (fun _ => .error .notFound) { entryPoint := "a" } crossing).result =
        .ok a ∧
      (assembleLines (fun _ => .error .notFound) { entryPoint := "b" } crossed).result = .ok a' ∧
      a'.image.toBytes = a.image.toBytes ∧
      a.warnings.map Located.val = [.automaticMain "main", .labelRedefined "a", .unusedLabel "main",
        .unusedLabel "c"] ∧
      a'.warnings.map Located.val = [.automaticMain "main", .labelRedefined "b",
        .unusedLabel "main", .unusedLabel "c"] := by
  have hplain : ∀ line ∈ crossing, Line.classify line.val ≠ .directive := by decide
  have hlines : List.Forall₂ (fun line line' => line'.loc = line.loc ∧
      Line.classify line'.val = (Line.classify line.val).rename (Equiv.swap "a" "b"))
        crossing crossed := by decide
  have hwarnings : ((assembleLines (fun _ => .error .notFound) { entryPoint := "a" }
      crossing).result.map fun a => a.warnings.map Located.val).toOption =
        some [.automaticMain "main", .labelRedefined "a", .unusedLabel "main",
          .unusedLabel "c"] := by cbv
  obtain ⟨a, hok, hvalues⟩ := exists_ok_of_map hwarnings
  rcases assembleLines_renamed (fun _ => .error .notFound) (fun _ => .error .notFound)
      { entryPoint := "a" } (Equiv.swap "a" "b") (Equiv.injective _) (by decide) (by decide)
      crossing crossed hplain hlines with ⟨a₁, a', hok₁, hok', hbytes, hrenamed⟩ | ⟨e, herror, -⟩
  · obtain rfl : a = a₁ := Except.ok.inj (hok.symm.trans hok₁)
    rw [Equiv.swap_apply_left] at hok'
    refine ⟨a, a', hok, hok', hbytes, hvalues, ?_⟩
    have hnames : a'.warnings.map Located.val =
        (a.warnings.map Located.val).map (Warning.rename (Equiv.swap "a" "b")) := by
      rw [hrenamed, List.map_map, List.map_map]
      rfl
    rw [hnames, hvalues]
    decide
  · cases hok.symm.trans herror

end StackAsm
