import StackAsm.Proofs.Agreement
import StackAsm.Proofs.Resolving

/-!
# StackAsm.Proofs.Options

What each option can change.

The first pass asks one thing of the options, and only when an instruction comes before every label:
whether a label is declared for it. So the pass ends in the same way under options that agree on
that, and a scan that needed no such label is the scan under any options
(`Scanner.Runs.of_options`). The second pass asks for the entry point and for the stack size. The
stack size goes into two bytes of the image (`Image.getElem?_toBytes_stackSize`), and the entry
point into the header and into the choice of the labels that count as unused
(`Scan.filter_unusedLabels`).
-/

namespace StackAsm

/-! ### The first pass -/

/-- A computation under `opts` that ends in `r` ends there under `opts'` too, as far as the
automatic label goes: the options agree on it, or it was not allowed and nothing was refused. -/
def Options.Covers {α : Type} (opts opts' : Options) (r : Except AssemblyError α) : Prop :=
  opts.automaticMain = opts'.automaticMain ∨ opts.automaticMain = false ∧ ∃ a, r = .ok a

namespace Scanner

variable {load : Loader} {opts opts' : Options} {s : Scanner} {line : Located String}

theorem result_currentLabel_of_covers {loc : Location}
    (h : opts.Covers opts' (currentLabel opts s loc).result) :
    (currentLabel opts' s loc).result = (currentLabel opts s loc).result := by
  rcases h with hsame | ⟨hoff, found, hok⟩
  · rw [result_currentLabel, result_currentLabel, hsame]
  · -- without the automatic label there is a label only if one was declared
    rw [result_currentLabel] at hok
    cases hlabel : s.label with
    | some label => rw [result_currentLabel, result_currentLabel, hlabel]
    | none =>
      rw [hlabel, hoff] at hok
      cases hok

/-- Handling a line asks nothing else of the options. -/
theorem result_step_of_covers (h : opts.Covers opts' (s.step load opts line).result) :
    (s.step load opts' line).result = (s.step load opts line).result := by
  unfold step at h ⊢
  split
  · rfl
  · rfl
  · rfl
  · rfl
  · rename_i mnemonic operand hline
    rw [hline] at h
    rw [result_instruction] at h ⊢
    rw [result_instruction, result_currentLabel_of_covers]
    rcases h with hsame | ⟨hoff, s', hok⟩
    · exact .inl hsame
    · obtain ⟨found, hfound, -⟩ := exists_ok_of_bind hok
      exact .inr ⟨hoff, found, hfound⟩

theorem Turn.of_options {r : Except AssemblyError Scanner} (h : opts.Covers opts' r)
    (turn : Turn load opts s line r) : Turn load opts' s line r := by
  obtain ⟨stream, hnext, rfl⟩ := turn
  exact ⟨stream, hnext, result_step_of_covers h⟩

/-- A run is a run under other options, if these agree on the automatic label or the run ends in a
scan without it. -/
theorem Runs.of_options {read : List (Located String)} {r : Except AssemblyError Scan}
    (hruns : Runs load opts s read r) (h : opts.Covers opts' r) : Runs load opts' s read r := by
  induction hruns with
  | done hnext => exact .done hnext
  | refused turn =>
    rcases h with hsame | ⟨-, scan, hok⟩
    · exact .refused (turn.of_options (.inl hsame))
    · cases hok
  | next turn _ ih =>
    refine .next (turn.of_options ?_) (ih h)
    rcases h with hsame | ⟨hoff, -⟩
    · exact .inl hsame
    · exact .inr ⟨hoff, _, rfl⟩

end Scanner

theorem result_scanLines_of_covers {load : Loader} {opts opts' : Options}
    {lines : List (Located String)} (h : opts.Covers opts' (scanLines load opts lines).result) :
    (scanLines load opts' lines).result = (scanLines load opts lines).result := by
  obtain ⟨read, hruns⟩ := Scanner.exists_runs_scanLines load opts lines
  exact (hruns.of_options h).result_scanLines

/-! ### The second pass -/

/-- The stack size of an image is written in two bytes, after ten others. -/
theorem Image.exists_toBytes_stackSize (image : Image) :
    ∃ front back : List UInt8, front.length = 10 ∧
      ∀ size, ({ image with header.stackSize := size } : Image).toBytes =
        front ++ (BigEndian.bytes16 size ++ back) := by
  refine ⟨magic ++ [image.header.version, image.header.compression] ++
      BigEndian.bytes32 image.header.entry,
    BigEndian.bytes32 image.header.checksum ++
      BigEndian.bytes32 (UInt32.ofNat image.labels.length) ++
      image.labels.flatMap recordBytes ++ image.code, rfl, ?_⟩
  intro size
  simp [toBytes, headerBytes]

theorem Image.getElem?_toBytes_stackSize (image : Image) (size : UInt16) {i : Nat} (h₁₀ : i ≠ 10)
    (h₁₁ : i ≠ 11) :
    ({ image with header.stackSize := size } : Image).toBytes[i]? = image.toBytes[i]? := by
  obtain ⟨front, back, hfront, hbytes⟩ := image.exists_toBytes_stackSize
  have houter : ∀ w, (front ++ (BigEndian.bytes16 w ++ back))[i]? =
      if i < 10 then front[i]? else back[i - 12]? := by
    intro w
    have hwidth : (BigEndian.bytes16 w).length = 2 := rfl
    by_cases hi : i < 10
    · rw [if_pos hi, List.getElem?_append_left (by omega)]
    · rw [if_neg hi, List.getElem?_append_right (by omega), List.getElem?_append_right (by omega),
        hfront, hwidth, Nat.sub_sub]
  rw [hbytes, houter, show image.toBytes = _ from hbytes image.header.stackSize, houter]

/-- Whether a warning is something else than that one of two labels is unused. -/
def Warning.concernsOthers (name other : String) (warning : Located Warning) : Bool :=
  warning.val ≠ .unusedLabel name ∧ warning.val ≠ .unusedLabel other

/-- Two entry points lead to the same unused labels, these two apart. -/
theorem Scan.filter_unusedLabels (scan : Scan) (name other : String) :
    (scan.unusedLabels name).filter (Warning.concernsOthers name other) =
      (scan.unusedLabels other).filter (Warning.concernsOthers name other) := by
  unfold unusedLabels
  rw [List.filter_filterMap, List.filter_filterMap]
  refine List.filterMap_congr fun ⟨label, symbol⟩ _ => ?_
  by_cases hlabel : label = name ∨ label = other
  · -- neither side keeps a remark on one of the two
    have hdropped : Warning.concernsOthers name other ⟨symbol.loc, .unusedLabel label⟩ = false := by
      rcases hlabel with rfl | rfl <;> simp [Warning.concernsOthers]
    have hnone : ∀ entry, Option.filter (Warning.concernsOthers name other)
        (if label = entry ∨ scan.references.contains label then none
          else some ⟨symbol.loc, .unusedLabel label⟩) = none := by
      intro entry
      split <;> simp [hdropped]
    rw [hnone, hnone]
  · have hnames := not_or.mp hlabel
    simp only [hnames.1, hnames.2, false_or]

/-! ### Both passes -/

/-- What a stack size leaves alone in an assembly. -/
def Assembly.EqUpToStackSize (a b : Assembly) : Prop :=
  a.warnings = b.warnings ∧ ∀ i, i ≠ 10 → i ≠ 11 → a.image.toBytes[i]? = b.image.toBytes[i]?

/-- What the choice between two entry points leaves alone in an assembly. -/
def Assembly.EqUpToEntry (name other : String) (a b : Assembly) : Prop :=
  b.image = { a.image with header.entry := b.image.header.entry } ∧
    a.warnings.filter (Warning.concernsOthers name other) =
      b.warnings.filter (Warning.concernsOthers name other)

namespace Scan

variable (scan : Scan) (opts : Options)

theorem agree_assemble_stackSize (size : UInt16) :
    Agree Eq Assembly.EqUpToStackSize (scan.assemble opts).result
      (scan.assemble { opts with stackSize := size }).result := by
  rw [result_assemble, result_assemble]
  cases scan.symbols.get? opts.entryPoint with
  | none => exact .error rfl
  | some start =>
    cases scan.firstUnknown? with
    | some name => exact .error rfl
    | none =>
      refine .ok ⟨rfl, fun i h₁₀ h₁₁ => ?_⟩
      exact (Image.getElem?_toBytes_stackSize _ size h₁₀ h₁₁).symm

theorem agree_assemble_entryPoint {name : String}
    (hentry : (scan.symbols.get? opts.entryPoint).isSome)
    (hname : (scan.symbols.get? name).isSome) :
    Agree Eq (Assembly.EqUpToEntry opts.entryPoint name) (scan.assemble opts).result
      (scan.assemble { opts with entryPoint := name }).result := by
  obtain ⟨start, hstart⟩ := Option.isSome_iff_exists.mp hentry
  obtain ⟨start', hstart'⟩ := Option.isSome_iff_exists.mp hname
  rw [result_assemble, result_assemble, hstart, hstart']
  cases scan.firstUnknown? with
  | some name => exact .error rfl
  | none =>
    refine .ok ⟨rfl, ?_⟩
    rw [List.filter_append, List.filter_append, filter_unusedLabels]

end Scan

/-- **Options change only what they are for.** Another stack size leads to the same error, or to the
same warnings and to bytes that are the same at all offsets but 10 and 11. If the lines are scanned
and declare two labels, then with the one and with the other as entry point there is the same error,
or there are two images that are the same but for the entry point, with the same warnings but for
those on these two labels being unused. And if a program is assembled where no automatic label is
allowed, then it is assembled to the same result where one is. -/
theorem assembleFile_options (load : Loader) (opts : Options) (root : Path) :
    (∀ size, Agree Eq Assembly.EqUpToStackSize (assembleFile load opts root).result
      (assembleFile load { opts with stackSize := size } root).result) ∧
    (∀ name source scan, load root = .ok source →
      (scanLines load opts (sourceLines root.text source)).result = .ok scan →
      (scan.symbols.get? opts.entryPoint).isSome → (scan.symbols.get? name).isSome →
      Agree Eq (Assembly.EqUpToEntry opts.entryPoint name) (assembleFile load opts root).result
        (assembleFile load { opts with entryPoint := name } root).result) ∧
    ∀ assembly,
      (assembleFile load { opts with automaticMain := false } root).result = .ok assembly →
      (assembleFile load { opts with automaticMain := true } root).result = .ok assembly := by
  unfold assembleFile
  refine ⟨fun size => ?_, fun name source scan hsource hscan hentry hname => ?_,
    fun assembly hassembly => ?_⟩
  · cases load root with
    | error reason => exact .error rfl
    | ok source =>
      have hsame :
          (scanLines load { opts with stackSize := size } (sourceLines root.text source)).result =
            (scanLines load opts (sourceLines root.text source)).result :=
        result_scanLines_of_covers (.inl rfl)
      simp only [result_assembleLines, hsame]
      cases (scanLines load opts (sourceLines root.text source)).result with
      | error e => exact .error rfl
      | ok scan => exact scan.agree_assemble_stackSize opts size
  · rw [hsource]
    have hsame :
        (scanLines load { opts with entryPoint := name } (sourceLines root.text source)).result =
          (scanLines load opts (sourceLines root.text source)).result :=
      result_scanLines_of_covers (.inl rfl)
    simp only [result_assembleLines, hsame, hscan]
    exact scan.agree_assemble_entryPoint opts hentry hname
  · cases hsource : load root with
    | error reason =>
      rw [hsource] at hassembly
      cases hassembly
    | ok source =>
      rw [hsource] at hassembly
      simp only [result_assembleLines] at hassembly ⊢
      obtain ⟨scan, hscan, hassemble⟩ := exists_ok_of_bind hassembly
      have hsame : (scanLines load { opts with automaticMain := true }
          (sourceLines root.text source)).result = .ok scan :=
        (result_scanLines_of_covers (.inr ⟨rfl, scan, hscan⟩)).trans hscan
      rw [hsame]
      exact hassemble

/-- A file with two labels to start at, neither of which is referred to. -/
def twoStarts : Store :=
  (({} : Store).insert "g" "nop").insert "r" "main:\n#include g\nstart:"

theorem twoStarts_options :
    Agree Eq Assembly.EqUpToStackSize (assembleFile twoStarts.load {} "r").result
      (assembleFile twoStarts.load { stackSize := 0x1234 } "r").result ∧
    Agree Eq (Assembly.EqUpToEntry "main" "start") (assembleFile twoStarts.load {} "r").result
      (assembleFile twoStarts.load { entryPoint := "start" } "r").result ∧
    ∃ assembly,
      (assembleFile twoStarts.load { automaticMain := false } "r").result = .ok assembly ∧
      assembly.warnings = [⟨⟨"r", 2⟩, .missingIncludeGuard "g"⟩,
        ⟨⟨"r", 3⟩, .unusedLabel "start"⟩] ∧
      (assembleFile twoStarts.load { automaticMain := true } "r").result = .ok assembly := by
  obtain ⟨hsize, hentry, hauto⟩ := assembleFile_options twoStarts.load {} "r"
  have hscanned : ((scanLines twoStarts.load {} (sourceLines "r"
      "main:\n#include g\nstart:")).result.map fun scan =>
        ((scan.symbols.get? "main").isSome, (scan.symbols.get? "start").isSome)).toOption =
      some (true, true) := by cbv
  have hwarned : ((assembleFile twoStarts.load { automaticMain := false } "r").result.map
      Assembly.warnings).toOption = some [⟨⟨"r", 2⟩, .missingIncludeGuard "g"⟩,
        ⟨⟨"r", 3⟩, .unusedLabel "start"⟩] := by cbv
  obtain ⟨scan, hscan, hdeclared⟩ := exists_ok_of_map hscanned
  obtain ⟨hmain, hstart⟩ := Prod.mk.inj hdeclared
  obtain ⟨assembly, hassembly, hwarnings⟩ := exists_ok_of_map hwarned
  exact ⟨hsize 0x1234, hentry "start" _ scan (by cbv) hscan hmain hstart, assembly, hassembly,
    hwarnings, hauto assembly hassembly⟩

end StackAsm
