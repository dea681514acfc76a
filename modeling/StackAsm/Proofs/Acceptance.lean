import StackAsm.Proofs.Resolving

/-!
# StackAsm.Proofs.Acceptance

Which programs without directives can be assembled, and with what error the others fail.

`Program.Accepted` is the language: conditions on the program as a whole, none of which mentions the
two passes. `Program.FailsWith` is the order in which they count. A line that breaks a condition of
the first pass comes first, whatever else is wrong; of several such lines the first one counts, and
it is the first in a sense that depends on the program alone (`Program.FirstFault.unique`). The
entry point comes next and the references last.
-/

namespace StackAsm

namespace Program

variable {opts : Options} {p : Program}

/-- The programs that can be assembled. -/
structure Accepted (opts : Options) (p : Program) : Prop extends Scannable opts p where
  entry : p.Declares opts.entryPoint
  resolved : ∀ line ∈ p, ∀ label, line.val.reference? = some label → p.Declares label

/-- The error of a program that cannot be assembled. -/
inductive FailsWith (opts : Options) (p : Program) : AssemblyError → Prop
  /-- A line is refused by the first pass; all lines before it are in order. -/
  | fault {line : Located Line} {e : ScanError} :
      FirstFault opts p line e → FailsWith opts p (.scan ⟨line.loc, e⟩)
  /-- All lines are in order, and the entry point is declared by none of them. -/
  | entry : Scannable opts p → ¬ p.Declares opts.entryPoint →
      FailsWith opts p (.missingEntryPoint opts.entryPoint)
  /-- All lines are in order, the entry point is declared, and a line refers to a label that is not;
  the lines before it do not. -/
  | reference {before after : Program} {line : Located Line} {label : String} :
      Scannable opts p → p.Declares opts.entryPoint → p = before ++ line :: after →
      (∀ other ∈ before, ∀ name, other.val.reference? = some name → p.Declares name) →
      line.val.reference? = some label → ¬ p.Declares label →
      FailsWith opts p (.unknownLabel ⟨line.loc, label⟩)

/-! ### Exclusion -/

theorem findSome?_undeclared_of_reference {before after : Program} {line : Located Line}
    {label : String} (hp : p = before ++ line :: after)
    (hbefore : ∀ other ∈ before, ∀ name, other.val.reference? = some name → p.Declares name)
    (href : line.val.reference? = some label) (hlabel : ¬ p.Declares label) :
    p.findSome? p.undeclared? = some ⟨line.loc, label⟩ := by
  refine List.findSome?_eq_some_iff.mpr ⟨before, line, after, hp, ?_, ?_⟩
  · exact undeclared?_eq_some.mpr ⟨href, hlabel, rfl⟩
  · intro other hother
    exact undeclared?_eq_none.mpr (hbefore other hother)

/-- A program that can be assembled fails with nothing. -/
theorem Accepted.not_failsWith (h : Accepted opts p) {e : AssemblyError} :
    ¬ FailsWith opts p e := by
  intro hfails
  cases hfails with
  | fault hfault => exact hfault.not_scannable h.toScannable
  | entry _ hentry => exact hentry h.entry
  | reference _ _ hp _ href hlabel => exact hlabel (h.resolved _ (by simp [hp]) _ href)

/-- A program fails with one error at most. -/
theorem FailsWith.unique {e₁ e₂ : AssemblyError} (h₁ : FailsWith opts p e₁)
    (h₂ : FailsWith opts p e₂) : e₁ = e₂ := by
  cases h₁ with
  | fault hfault₁ =>
    cases h₂ with
    | fault hfault₂ =>
      obtain ⟨rfl, rfl⟩ := hfault₁.unique hfault₂
      rfl
    | entry hp _ => exact absurd hp hfault₁.not_scannable
    | reference hp => exact absurd hp hfault₁.not_scannable
  | entry hp hentry =>
    cases h₂ with
    | fault hfault₂ => exact absurd hp hfault₂.not_scannable
    | entry => rfl
    | reference _ hentry₂ => exact absurd hentry₂ hentry
  | reference hp hentry hp₁ hbefore₁ href₁ hlabel₁ =>
    cases h₂ with
    | fault hfault₂ => exact absurd hp hfault₂.not_scannable
    | entry _ hentry₂ => exact absurd hentry hentry₂
    | reference _ _ hp₂ hbefore₂ href₂ hlabel₂ =>
      have hfirst₁ := findSome?_undeclared_of_reference hp₁ hbefore₁ href₁ hlabel₁
      have hfirst₂ := findSome?_undeclared_of_reference hp₂ hbefore₂ href₂ hlabel₂
      rw [Option.some.inj (hfirst₁.symm.trans hfirst₂)]

end Program

/-! ### Both passes -/

/-- The second pass over the scan of a program. -/
theorem Scan.Of.accepted_or_fails {scan : Scan} {p : Program} {opts : Options} (h : scan.Of p)
    (hp : p.Scannable opts) :
    (∃ assembly, (scan.assemble opts).result = .ok assembly ∧ p.Accepted opts) ∨
      ∃ e, (scan.assemble opts).result = .error e ∧ p.FailsWith opts e := by
  rw [Scan.result_assemble, h.firstUnknown?_eq hp.encodable]
  cases hentry : scan.symbols.get? opts.entryPoint with
  | none =>
    have hundeclared : ¬ p.Declares opts.entryPoint := by
      rw [← h.get?_isSome, hentry]
      simp
    exact .inr ⟨_, rfl, .entry hp hundeclared⟩
  | some start =>
    have hdeclared : p.Declares opts.entryPoint := by
      rw [← h.get?_isSome, hentry]
      rfl
    cases hfirst : p.findSome? p.undeclared? with
    | none =>
      refine .inl ⟨_, rfl, { hp with entry := hdeclared, resolved := ?_ }⟩
      intro line hline
      exact Program.undeclared?_eq_none.mp (List.findSome?_eq_none_iff.mp hfirst line hline)
    | some name =>
      obtain ⟨before, line, after, hsplit, hline, hbefore⟩ := List.findSome?_eq_some_iff.mp hfirst
      obtain ⟨href, hlabel, hloc⟩ := Program.undeclared?_eq_some.mp hline
      obtain ⟨loc, label⟩ := name
      cases hloc
      refine .inr ⟨_, rfl, .reference hp hdeclared hsplit ?_ href hlabel⟩
      intro other hother
      exact Program.undeclared?_eq_none.mp (hbefore other hother)

theorem accepted_or_fails (load : Loader) {opts : Options} {lines : List (Located String)}
    (hplain : ∀ line ∈ lines, Line.classify line.val ≠ .directive) :
    (∃ assembly, (assembleLines load opts lines).result = .ok assembly ∧
      (Program.ofLines lines).Accepted opts) ∨
    ∃ e, (assembleLines load opts lines).result = .error e ∧
      (Program.ofLines lines).FailsWith opts e := by
  rcases assembleLines_of_plain load hplain with
    ⟨scan, hp, hscan, hresult⟩ | ⟨line, e, hfault, hresult⟩
  · rw [hresult]
    exact hscan.accepted_or_fails hp
  · exact .inr ⟨_, hresult, .fault hfault⟩

/-- **The assembler accepts exactly its language, and fails at the first fault.** Lines without
directives are assembled if and only if the program they make is accepted; and an error is returned
if and only if it is the one that the program fails with. -/
theorem assembleLines_accepted_iff (load : Loader) (opts : Options) (lines : List (Located String))
    (hplain : ∀ line ∈ lines, Line.classify line.val ≠ .directive) :
    ((∃ assembly, (assembleLines load opts lines).result = .ok assembly) ↔
      (Program.ofLines lines).Accepted opts) ∧
    ∀ e, (assembleLines load opts lines).result = .error e ↔
      (Program.ofLines lines).FailsWith opts e := by
  rcases accepted_or_fails load hplain with ⟨assembly, hresult, haccepted⟩ | ⟨e, hresult, hfails⟩
  · refine ⟨iff_of_true ⟨assembly, hresult⟩ haccepted, fun e => iff_of_false ?_ ?_⟩
    · simp [hresult]
    · exact haccepted.not_failsWith
  · refine ⟨iff_of_false ?_ fun haccepted => haccepted.not_failsWith hfails, fun e' => ?_⟩
    · simp [hresult]
    · rw [hresult]
      constructor
      · rintro ⟨⟩
        exact hfails
      · intro hfails'
        rw [hfails.unique hfails']

/-- A program with two faults. -/
def twoFaults : List (Located String) :=
  [⟨⟨"a", 1⟩, "start:"⟩, ⟨⟨"a", 2⟩, "  jump start"⟩, ⟨⟨"a", 3⟩, ":"⟩]

theorem twoFaults_fails_at_first :
    (∀ line ∈ twoFaults, Line.classify line.val ≠ .directive) ∧
    (assembleLines (fun _ => .error .notFound) {} twoFaults).result =
      .error (.scan ⟨⟨"a", 2⟩, .unknownInstruction "jump" "start"⟩) := by
  have hplain : ∀ line ∈ twoFaults, Line.classify line.val ≠ .directive := by decide
  refine ⟨hplain, ((assembleLines_accepted_iff _ _ _ hplain).2 _).mpr ?_⟩
  have hfirst : Program.Scannable {} [⟨⟨"a", 1⟩, .label "start"⟩] :=
    Program.scannable_nil.snoc (by decide)
  have hfault : Program.FirstFault {} (Program.ofLines twoFaults)
      ⟨⟨"a", 2⟩, .instruction "jump" "start"⟩ (.unknownInstruction "jump" "start") :=
    ⟨_, [⟨⟨"a", 3⟩, .label ""⟩], by decide, hfirst, by decide⟩
  exact .fault hfault

end StackAsm
