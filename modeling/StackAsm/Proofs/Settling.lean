import StackAsm.Proofs.Layout

/-!
# StackAsm.Proofs.Settling

The second pass is exact, and all or nothing.

The scan may be any: nothing is assumed of its table, nor that its segments come from instructions.
When the pass succeeds and with what error it fails is read off the scan (`Scan.Resolvable`,
`Scan.Unresolved`). So is the code: every segment has bytes of its own (`Segment.StandsFor`), and
they stand in the code at the width of all segments before it (`Scan.HasCode`). The widths are those
with which the first pass counts, so that what is said there of addresses holds of the code.
-/

namespace StackAsm

/-! ### One segment -/

namespace Segment

/-- The bytes that stand for a segment: its own, or the id of its label, high byte first. -/
inductive StandsFor (table : SymbolTable) : Segment → List UInt8 → Prop
  | bytes (raw : List UInt8) : StandsFor table (.bytes raw) raw
  | label {name : String} {symbol : Symbol} : table.get? name = some symbol →
      StandsFor table (.label name)
        [UInt8.ofNat (symbol.id.toNat / 256), UInt8.ofNat (symbol.id.toNat % 256)]

variable {table : SymbolTable} {segment : Segment} {raw : List UInt8}

/-- The width of a segment is known before its bytes are. -/
theorem StandsFor.length_eq (h : StandsFor table segment raw) : raw.length = segment.width := by
  cases h <;> rfl

/-- A segment has its bytes unless it refers to an unknown label. -/
theorem standsFor_resolve? (h : segment.unknownLabel? table = none) :
    StandsFor table segment ((segment.resolve? table).getD []) := by
  cases segment with
  | bytes raw => exact .bytes raw
  | label name =>
    cases hget : table.get? name with
    | none => simp [unknownLabel?, hget] at h
    | some symbol =>
      have hbytes : ((label name).resolve? table).getD [] =
          [UInt8.ofNat (symbol.id.toNat / 256), UInt8.ofNat (symbol.id.toNat % 256)] := by
        rw [resolve?, hget, Option.map_some, Option.getD_some, BigEndian.bytes16_eq]
      rw [hbytes]
      exact .label hget

theorem unknownLabel?_eq_some {name : String} :
    segment.unknownLabel? table = some name ↔ segment = .label name ∧ table.get? name = none := by
  cases segment with
  | bytes raw => simp [unknownLabel?]
  | label other =>
    cases hget : table.get? other with
    | none =>
      simp only [unknownLabel?, hget, Option.isSome_none, Bool.false_eq_true, if_false,
        Option.some.injEq, label.injEq]
      constructor
      · rintro rfl
        exact ⟨rfl, hget⟩
      · exact And.left
    | some symbol =>
      simp only [unknownLabel?, hget, Option.isSome_some, if_true, reduceCtorEq, label.injEq,
        false_iff, not_and]
      rintro rfl
      simp [hget]

theorem unknownLabel?_eq_none :
    segment.unknownLabel? table = none ↔
      ∀ name, segment = .label name → (table.get? name).isSome := by
  cases segment with
  | bytes raw => simp [unknownLabel?]
  | label other => simp [unknownLabel?, Option.isSome_iff_ne_none]

end Segment

namespace Scan

/-! ### When the pass succeeds -/

/-- Whether a label is in the table of a scan. -/
def Knows (scan : Scan) (name : String) : Prop := (scan.symbols.get? name).isSome

/-- The scans that the second pass gets through. -/
structure Resolvable (scan : Scan) (entryPoint : String) : Prop where
  entry : scan.Knows entryPoint
  references : ∀ segment ∈ scan.segments, ∀ name, segment.val = .label name → scan.Knows name

/-- The error of the second pass over a scan. -/
inductive Unresolved (scan : Scan) (entryPoint : String) : AssemblyError → Prop
  /-- The entry point is unknown, whatever else is. -/
  | entry : ¬ scan.Knows entryPoint → Unresolved scan entryPoint (.missingEntryPoint entryPoint)
  /-- The entry point is known, and of the references to unknown labels this is the first. -/
  | reference {before after : List (Located Segment)} {segment : Located Segment} {name : String} :
      scan.Knows entryPoint → scan.segments.toList = before ++ segment :: after →
      (∀ other ∈ before, ∀ label, other.val = .label label → scan.Knows label) →
      segment.val = .label name → ¬ scan.Knows name →
      Unresolved scan entryPoint (.unknownLabel ⟨segment.loc, name⟩)

variable {scan : Scan} {opts : Options}

theorem not_knows_iff {name : String} : ¬ scan.Knows name ↔ scan.symbols.get? name = none := by
  simp [Knows]

theorem unknown?_eq_none {segment : Located Segment} :
    unknown? scan.symbols segment = none ↔
      ∀ name, segment.val = .label name → scan.Knows name := by
  rw [unknown?, Option.map_eq_none_iff, Segment.unknownLabel?_eq_none]
  rfl

theorem unknown?_eq_some {segment : Located Segment} {name : Located String} :
    unknown? scan.symbols segment = some name ↔
      segment.val = .label name.val ∧ ¬ scan.Knows name.val ∧ name.loc = segment.loc := by
  obtain ⟨loc, label⟩ := name
  simp only [unknown?, Option.map_eq_some_iff, Segment.unknownLabel?_eq_some, Located.mk.injEq,
    not_knows_iff]
  constructor
  · rintro ⟨_, ⟨hsegment, hget⟩, rfl, rfl⟩
    exact ⟨hsegment, hget, rfl⟩
  · rintro ⟨hsegment, hget, rfl⟩
    exact ⟨label, ⟨hsegment, hget⟩, rfl, rfl⟩

theorem firstUnknown?_eq_none :
    scan.firstUnknown? = none ↔
      ∀ segment ∈ scan.segments, ∀ name, segment.val = .label name → scan.Knows name := by
  simp only [firstUnknown?, List.findSome?_eq_none_iff, unknown?_eq_none, Array.mem_toList_iff]

/-- The first unknown reference is the one with none before it. -/
theorem firstUnknown?_eq_some {name : Located String} :
    scan.firstUnknown? = some name ↔
      ∃ before segment after, scan.segments.toList = before ++ segment :: after ∧
        (∀ other ∈ before, ∀ label, other.val = .label label → scan.Knows label) ∧
        segment.val = .label name.val ∧ ¬ scan.Knows name.val ∧ name.loc = segment.loc := by
  simp only [firstUnknown?, List.findSome?_eq_some_iff, unknown?_eq_some, unknown?_eq_none]
  constructor
  · intro h
    obtain ⟨before, segment, after, hsplit, hsegment, hbefore⟩ := h
    exact ⟨before, segment, after, hsplit, hbefore, hsegment⟩
  · intro h
    obtain ⟨before, segment, after, hsplit, hbefore, hsegment⟩ := h
    exact ⟨before, segment, after, hsplit, hsegment, hbefore⟩

/-- A scan is resolved, or there is an error of the pass. -/
theorem resolvable_or_unresolved (scan : Scan) (opts : Options) :
    (scan.Resolvable opts.entryPoint ∧ ∃ found, (scan.resolve opts).result = .ok found) ∨
      ∃ e, (scan.resolve opts).result = .error e ∧ scan.Unresolved opts.entryPoint e := by
  rw [result_resolve]
  cases hentry : scan.symbols.get? opts.entryPoint with
  | none => exact .inr ⟨_, rfl, .entry (not_knows_iff.mpr hentry)⟩
  | some start =>
    have hknown : scan.Knows opts.entryPoint := by
      rw [Knows, hentry]
      rfl
    cases hfirst : scan.firstUnknown? with
    | none => exact .inl ⟨⟨hknown, firstUnknown?_eq_none.mp hfirst⟩, _, rfl⟩
    | some name =>
      obtain ⟨before, segment, after, hsplit, hbefore, hlabel, hname, hloc⟩ :=
        firstUnknown?_eq_some.mp hfirst
      obtain ⟨loc, label⟩ := name
      cases hloc
      exact .inr ⟨_, rfl, .reference hknown hsplit hbefore hlabel hname⟩

/-- A scan that can be resolved has no error. -/
theorem Resolvable.not_unresolved {entryPoint : String} (h : scan.Resolvable entryPoint)
    {e : AssemblyError} : ¬ scan.Unresolved entryPoint e := by
  intro hunresolved
  cases hunresolved with
  | entry hentry => exact hentry h.entry
  | @reference before after segment name _ hsplit _ hlabel hname =>
    have hmem : segment ∈ scan.segments.toList := by simp [hsplit]
    exact hname (h.references segment (Array.mem_toList_iff.mp hmem) name hlabel)

/-- There is one error at most. -/
theorem Unresolved.unique {entryPoint : String} {e₁ e₂ : AssemblyError}
    (h₁ : scan.Unresolved entryPoint e₁) (h₂ : scan.Unresolved entryPoint e₂) : e₁ = e₂ := by
  cases h₁ with
  | entry hentry =>
    cases h₂ with
    | entry _ => rfl
    | reference hknown => exact absurd hknown hentry
  | @reference _ _ segment₁ name₁ hknown hsplit₁ hbefore₁ hlabel₁ hname₁ =>
    cases h₂ with
    | entry hentry => exact absurd hknown hentry
    | @reference _ _ segment₂ name₂ _ hsplit₂ hbefore₂ hlabel₂ hname₂ =>
      -- both are found by searching the segments, and a search has one result
      have hfirst₁ : scan.firstUnknown? = some ⟨segment₁.loc, name₁⟩ :=
        firstUnknown?_eq_some.mpr ⟨_, _, _, hsplit₁, hbefore₁, hlabel₁, hname₁, rfl⟩
      have hfirst₂ : scan.firstUnknown? = some ⟨segment₂.loc, name₂⟩ :=
        firstUnknown?_eq_some.mpr ⟨_, _, _, hsplit₂, hbefore₂, hlabel₂, hname₂, rfl⟩
      rw [Option.some.inj (hfirst₁.symm.trans hfirst₂)]

/-! ### The code -/

/-- The width of some segments of a scan. -/
def widthOf (segments : List (Located Segment)) : Nat :=
  Segment.totalWidth (segments.map Located.val)

/-- Code in which every segment stands at its place. -/
structure HasCode (scan : Scan) (code : List UInt8) : Prop where
  length : code.length = widthOf scan.segments.toList
  /-- The bytes of a segment follow those of all segments before it. -/
  bytes : ∀ i segment, scan.segments[i]? = some segment →
    ∃ raw, segment.val.StandsFor scan.symbols raw ∧
      (code.drop (widthOf (scan.segments.toList.take i))).take segment.val.width = raw

/-- The bytes of segments without unknown labels take the width of the segments. -/
theorem length_flatMap_resolve? {table : SymbolTable} {segments : List (Located Segment)}
    (h : ∀ segment ∈ segments, segment.val.unknownLabel? table = none) :
    (segments.flatMap fun segment => (segment.val.resolve? table).getD []).length =
      widthOf segments := by
  induction segments with
  | nil => rfl
  | cons segment segments ih =>
    have hfirst := (Segment.standsFor_resolve? (h segment (by simp))).length_eq
    have hrest := ih fun other hother => h other (by simp [hother])
    rw [List.flatMap_cons, List.length_append, hfirst, hrest]
    rfl

theorem hasCode_filled (h : scan.firstUnknown? = none) : scan.HasCode scan.filled := by
  have hknown : ∀ segment ∈ scan.segments.toList,
      segment.val.unknownLabel? scan.symbols = none := by
    intro segment hsegment
    simpa [unknown?] using List.findSome?_eq_none_iff.mp h segment hsegment
  refine ⟨length_flatMap_resolve? hknown, ?_⟩
  intro i segment hget
  rw [← Array.getElem?_toList] at hget
  obtain ⟨hi, hsegment⟩ := List.getElem?_eq_some_iff.mp hget
  have hmem : segment ∈ scan.segments.toList := hsegment ▸ List.getElem_mem hi
  have hstands := Segment.standsFor_resolve? (hknown segment hmem)
  refine ⟨_, hstands, ?_⟩
  -- the code is that of the segments before, of this one, and of those behind
  have hsplit : scan.segments.toList =
      scan.segments.toList.take i ++ segment :: scan.segments.toList.drop (i + 1) := by
    rw [← hsegment, List.getElem_cons_drop, List.take_append_drop]
  have hbefore := length_flatMap_resolve? fun other hother =>
    hknown other (List.mem_of_mem_take (i := i) hother)
  rw [filled, ← hbefore]
  conv_lhs =>
    enter [2, 2]
    rw [hsplit]
  rw [List.flatMap_append, List.flatMap_cons, List.drop_left, List.take_left' hstands.length_eq]

/-! ### The pass as a whole -/

@[simp] theorem settle_snd (scan : Scan) (opts : Options) :
    (scan.settle opts).2 = scan.resolve opts := by
  cases h : (scan.resolve opts).result with
  | error e => rw [settle_of_error h]
  | ok found => rw [settle_of_ok h]

theorem result_resolve_isOk_iff :
    (∃ found, (scan.resolve opts).result = .ok found) ↔ scan.Resolvable opts.entryPoint := by
  obtain ⟨hresolvable, hok⟩ | ⟨e, herror, hunresolved⟩ := scan.resolvable_or_unresolved opts
  · exact ⟨fun _ => hresolvable, fun _ => hok⟩
  · constructor
    · intro h
      obtain ⟨found, hfound⟩ := h
      rw [herror] at hfound
      cases hfound
    · intro hresolvable
      exact absurd hunresolved hresolvable.not_unresolved

theorem result_resolve_eq_error_iff {e : AssemblyError} :
    (scan.resolve opts).result = .error e ↔ scan.Unresolved opts.entryPoint e := by
  obtain ⟨hresolvable, found, hok⟩ | ⟨e', herror, hunresolved⟩ := scan.resolvable_or_unresolved opts
  · rw [hok]
    simp [hresolvable.not_unresolved]
  · rw [herror]
    constructor
    · intro h
      cases h
      exact hunresolved
    · intro h
      rw [hunresolved.unique h]

/-- What the second pass finds. -/
theorem result_resolve_eq_ok {found : Resolved} (h : (scan.resolve opts).result = .ok found) :
    (∃ start, scan.symbols.get? opts.entryPoint = some start ∧ found.entry = start.address) ∧
      scan.HasCode found.code := by
  rw [result_resolve] at h
  split at h
  · cases h
  · cases h
  · rename_i start hentry hunknown
    cases h
    exact ⟨⟨start, hentry, rfl⟩, hasCode_filled hunknown⟩

/-- **The second pass is exact, and all or nothing.** It succeeds if and only if the entry point and
all labels that are referred to are in the table. Its error is the one on the entry point if that is
missing, and else the one on the first unknown reference; then the scan stays as it was. If it
succeeds, only warnings are added to the scan, and every segment stands in the code at the width of
those before it. -/
theorem settle_exact (scan : Scan) (opts : Options) :
    ((∃ found, (scan.settle opts).2.result = .ok found) ↔ scan.Resolvable opts.entryPoint) ∧
    (∀ e, (scan.settle opts).2.result = .error e ↔ scan.Unresolved opts.entryPoint e) ∧
    (∀ e, (scan.settle opts).2.result = .error e → (scan.settle opts).1 = scan) ∧
    ∀ found, (scan.settle opts).2.result = .ok found →
      (scan.settle opts).1 = { scan with warnings := scan.warnings ++ found.unused } ∧
      (∃ start, scan.symbols.get? opts.entryPoint = some start ∧ found.entry = start.address) ∧
      scan.HasCode found.code := by
  rw [settle_snd]
  refine ⟨result_resolve_isOk_iff, fun e => result_resolve_eq_error_iff, ?_, ?_⟩
  · intro e herror
    rw [settle_of_error herror]
  · intro found hfound
    rw [settle_of_ok hfound]
    exact ⟨rfl, result_resolve_eq_ok hfound⟩

/-- Two references among bytes of odd lengths, and a third one to a label that is not declared. -/
theorem settle_uneven :
    let line (n : Nat) : Location := ⟨"a.klt", n⟩
    let symbols := (({} : SymbolTable).insert "main" 0 (line 1)).insert "end" 3 (line 4)
    let segments : Array (Located Segment) := #[⟨line 2, .bytes [9]⟩,
      ⟨line 2, .label "end"⟩, ⟨line 3, .bytes [1, 2, 3]⟩, ⟨line 5, .label "main"⟩]
    let scan : Scan := { symbols, segments }
    let broken : Scan := { symbols, segments := segments.push ⟨line 6, .label "loop"⟩ }
    (∃ found, (scan.settle {}).2.result = .ok found ∧ found.code = [9, 0, 1, 1, 2, 3, 0, 0] ∧
      scan.HasCode found.code) ∧
    broken.Unresolved "main" (.unknownLabel ⟨line 6, "loop"⟩) ∧
    (broken.settle {}).1 = broken := by
  intro line symbols segments scan broken
  have hcode : ((scan.settle {}).2.result.map Resolved.code).toOption =
      some [9, 0, 1, 1, 2, 3, 0, 0] := by cbv
  obtain ⟨found, hfound, hbytes⟩ := exists_ok_of_map hcode
  have hbroken : (broken.settle {}).2.result = .error (.unknownLabel ⟨line 6, "loop"⟩) := by
    cbv
  obtain ⟨-, -, -, hok⟩ := settle_exact scan {}
  obtain ⟨-, herror, hkept, -⟩ := settle_exact broken {}
  exact ⟨⟨found, hfound, hbytes, (hok found hfound).2.2⟩, (herror _).mp hbroken, hkept _ hbroken⟩

end Scan

end StackAsm
