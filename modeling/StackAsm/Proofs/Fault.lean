import StackAsm.Proofs.Program

/-!
# StackAsm.Proofs.Fault

When the lines of a program are fit for the first pass, and what is wrong with the first that is
not.

`Program.Scannable` says of a whole program what its lines have to meet, without an order among
them. `Program.fault?` is the fault of one line after others. The two belong together
(`Program.scannable_append_singleton`): a program stays scannable exactly as long as the next line
has no fault. So the first faulty line is determined by the program (`Program.FirstFault.unique`).
-/

namespace StackAsm.Program

variable {opts : Options} {p : Program} {line : Located Line}

/-- What the lines of a program have to meet, each for itself and all together. -/
structure Scannable (opts : Options) (p : Program) : Prop where
  /-- No label line is without a name. -/
  named : ∀ line ∈ p, line.val ≠ .label ""
  /-- A label comes first, or does not have to. -/
  started : (∃ first name, p.find? (fun line => line.val.isItem) = some first ∧
      first.val = .label name) ∨
    opts.automaticMain = true ∨ ∀ line ∈ p, line.val.isInstruction = false
  /-- There are ids for all declarations, repeated ones included. -/
  counted : (declarations p).length ≤ SymbolTable.capacity
  /-- Every instruction is known and takes its operand. -/
  encodable : ∀ line ∈ p, line.val.isInstruction = true → line.val.code?.isSome
  /-- All addresses, the one past the code included, are 32-bit numbers. -/
  fits : width p < UInt32.size

/-- The label under which the line after a program stands. -/
def currentLabel (p : Program) : String :=
  ((declarations p).getLast?.map Declaration.name).getD Scanner.automaticMain

/-- What is wrong with a line after the lines `before`. -/
def fault? (opts : Options) (before : Program) : Line → Option ScanError
  | .label name =>
    if name = "" then some .emptyLabelName
    else if SymbolTable.capacity ≤ (declarations before).length then some .tooManyLabels
    else none
  | .instruction mnemonic operand =>
    if declarations before = [] ∧ opts.automaticMain = false then some .noLabel
    else
      match encodeInstruction mnemonic operand (currentLabel before) with
      | .error e => some e
      | .ok code =>
        if width before + Segment.totalWidth code.segments < UInt32.size then none
        else some .codeTooLarge
  | _ => none

/-! ### Lines without a fault -/

theorem fault?_label_eq_none {name : String} :
    fault? opts p (.label name) = none ↔
      name ≠ "" ∧ (declarations p).length < SymbolTable.capacity := by
  unfold fault?
  by_cases hname : name = ""
  · simp [hname]
  · by_cases hfull : SymbolTable.capacity ≤ (declarations p).length
    · simp [hname, hfull]
    · simp [hname, hfull, Nat.lt_of_not_le hfull]

theorem fault?_instruction_eq_none {mnemonic operand : String} :
    fault? opts p (.instruction mnemonic operand) = none ↔
      (declarations p = [] → opts.automaticMain = true) ∧
        ∃ code, (Line.instruction mnemonic operand).code? = some code ∧
          width p + Segment.totalWidth code.segments < UInt32.size := by
  simp only [fault?]
  by_cases hlabel : declarations p = [] ∧ opts.automaticMain = false
  · simp [hlabel]
  · have hauto : declarations p = [] → opts.automaticMain = true := by
      intro hnil
      simpa [hnil] using hlabel
    rw [if_neg hlabel, and_iff_right hauto]
    cases hcode : encodeInstruction mnemonic operand (currentLabel p) with
    | error e =>
      refine iff_of_false (by simp) ?_
      rintro ⟨code, hcode', -⟩
      cases hcode.symm.trans (Line.encodeInstruction_eq_ok_iff_code?.mpr hcode')
    | ok code =>
      rw [Line.encodeInstruction_eq_ok_iff_code?] at hcode
      simp [hcode]

/-- An automatic label is allowed where it is needed. -/
theorem started_iff :
    ((∃ first name, p.find? (fun line => line.val.isItem) = some first ∧
        first.val = .label name) ∨
      opts.automaticMain = true ∨ ∀ line ∈ p, line.val.isInstruction = false) ↔
    (bareStart? p ≠ none → opts.automaticMain = true) := by
  cases hfind : p.find? fun line => line.val.isItem with
  | none =>
    -- only blank lines and comments, which need no label
    have hnone : ∀ line ∈ p, line.val.isInstruction = false := by
      intro line hline
      have hitem := List.find?_eq_none.mp hfind line hline
      exact Line.isInstruction_of_not_isItem (by simpa using hitem)
    refine iff_of_true (.inr (.inr hnone)) ?_
    simp [bareStart?, hfind]
  | some first =>
    have hitem : first.val.isItem = true := by simpa using List.find?_some hfind
    cases hfirst : first.val with
    | label name => simp [bareStart?, hfind, hfirst]
    | instruction mnemonic operand =>
      have hinstruction : first.val.isInstruction = true := by rw [hfirst]; rfl
      have hsome : ¬ ∀ line ∈ p, line.val.isInstruction = false := by
        intro hnone
        simp [hnone first (List.mem_of_find?_eq_some hfind)] at hinstruction
      simp [bareStart?, hfind, hfirst, hsome]
    | blank | comment | directive => simp [hfirst, Line.isItem] at hitem

/-! ### One more line -/

theorem Scannable.init (h : Scannable opts (p ++ [line])) : Scannable opts p where
  named other hother := h.named other (by simp [hother])
  started := by
    refine started_iff.mpr fun hbare => ?_
    refine started_iff.mp h.started ?_
    rw [bareStart?_append_singleton]
    split
    · simp
    · exact hbare
  counted := by
    have := h.counted
    rw [declarations_append_singleton, List.length_append] at this
    omega
  encodable other hother := h.encodable other (by simp [hother])
  fits := by
    have := h.fits
    rw [width_append] at this
    omega

/-- The last line of a scannable program has no fault. -/
theorem Scannable.fault?_eq_none (h : Scannable opts (p ++ [line])) :
    fault? opts p line.val = none := by
  cases hline : line.val with
  | label name =>
    refine fault?_label_eq_none.mpr ⟨?_, ?_⟩
    · rintro rfl
      exact h.named line (by simp) hline
    · have hcounted := h.counted
      rwa [declarations_append_singleton, declaredAfter, hline, List.length_append] at hcounted
  | instruction mnemonic operand =>
    have hinstruction : line.val.isInstruction = true := by rw [hline]; rfl
    refine fault?_instruction_eq_none.mpr ⟨?_, ?_⟩
    · intro hnil
      refine started_iff.mp h.started ?_
      simp [bareStart?_append_singleton, hnil, hinstruction]
    · obtain ⟨code, hcode⟩ :=
        Option.isSome_iff_exists.mp (h.encodable line (by simp) hinstruction)
      have hfits := h.fits
      rw [width_append, width_singleton, Line.segments_of_code? hcode] at hfits
      exact ⟨code, hline ▸ hcode, hfits⟩
  | blank | comment | directive => rfl

/-- A line without a fault keeps a program scannable. -/
theorem Scannable.snoc (h : Scannable opts p) (hline : fault? opts p line.val = none) :
    Scannable opts (p ++ [line]) := by
  -- what the line itself has to meet; the rest is inherited
  suffices line.val ≠ .label "" ∧
      (declarations p = [] → line.val.isInstruction = true → opts.automaticMain = true) ∧
      (declarations (p ++ [line])).length ≤ SymbolTable.capacity ∧
      (line.val.isInstruction = true → line.val.code?.isSome) ∧
      width (p ++ [line]) < UInt32.size by
    obtain ⟨hnamed, hstarted, hcounted, hencodable, hfits⟩ := this
    refine ⟨?_, started_iff.mpr fun hbare => ?_, hcounted, ?_, hfits⟩
    · intro other hother
      rcases List.mem_append.mp hother with hp | hlast
      · exact h.named other hp
      · obtain rfl := List.mem_singleton.mp hlast
        exact hnamed
    · rw [bareStart?_append_singleton] at hbare
      split at hbare
      · rename_i hfirst
        exact hstarted hfirst.1 hfirst.2
      · exact started_iff.mp h.started hbare
    · intro other hother
      rcases List.mem_append.mp hother with hp | hlast
      · exact h.encodable other hp
      · obtain rfl := List.mem_singleton.mp hlast
        exact hencodable
  have hcounted := h.counted
  have hfits := h.fits
  rw [declarations_append_singleton, List.length_append, width_append, width_singleton]
  cases hform : line.val with
  | label name =>
    rw [hform, fault?_label_eq_none] at hline
    obtain ⟨hname, hroom⟩ := hline
    refine ⟨by simpa using hname, by simp, ?_, by simp, ?_⟩
    · rw [declaredAfter, hform]
      exact hroom
    · rwa [Line.segments_of_not_isInstruction rfl]
  | instruction mnemonic operand =>
    rw [hform, fault?_instruction_eq_none] at hline
    obtain ⟨hauto, code, hcode, hroom⟩ := hline
    refine ⟨by simp, fun hnil _ => hauto hnil, ?_, by simp [hcode], ?_⟩
    · by_cases hnil : declarations p = []
      · simp [declaredAfter, hform, hnil, SymbolTable.capacity]
      · simpa [declaredAfter, hform, hnil] using hcounted
    · rwa [Line.segments_of_code? hcode]
  | blank | comment | directive =>
    refine ⟨by simp, by simp [Line.isInstruction], ?_, by simp [Line.isInstruction], ?_⟩
    · simpa [declaredAfter, hform] using hcounted
    · rwa [Line.segments_of_not_isInstruction rfl]

theorem scannable_append_singleton :
    Scannable opts (p ++ [line]) ↔ Scannable opts p ∧ fault? opts p line.val = none :=
  ⟨fun h => ⟨h.init, h.fault?_eq_none⟩, fun h => h.1.snoc h.2⟩

theorem scannable_nil : Scannable opts [] where
  named := by simp
  started := .inr (.inr (by simp))
  counted := Nat.zero_le _
  encodable := by simp
  fits := by decide

theorem Scannable.of_append {q : Program} (h : Scannable opts (p ++ q)) : Scannable opts p := by
  induction q using List.reverseRecOn with
  | nil => simpa using h
  | append_singleton q last ih =>
    rw [← List.append_assoc] at h
    exact ih h.init

/-! ### The first fault -/

/-- Where a program has its first fault, and which. -/
def FirstFault (opts : Options) (p : Program) (line : Located Line) (e : ScanError) : Prop :=
  ∃ before after, p = before ++ line :: after ∧ Scannable opts before ∧
    fault? opts before line.val = some e

theorem FirstFault.not_scannable {e : ScanError} (h : FirstFault opts p line e) :
    ¬ Scannable opts p := by
  obtain ⟨before, after, rfl, -, hfault⟩ := h
  intro hp
  rw [List.append_cons] at hp
  obtain ⟨-, hnone⟩ := scannable_append_singleton.mp hp.of_append
  simp [hfault] at hnone

/-- A program has only one first fault. -/
theorem FirstFault.unique {line₁ line₂ : Located Line} {e₁ e₂ : ScanError}
    (h₁ : FirstFault opts p line₁ e₁) (h₂ : FirstFault opts p line₂ e₂) :
    line₁ = line₂ ∧ e₁ = e₂ := by
  obtain ⟨before₁, after₁, rfl, hbefore₁, hfault₁⟩ := h₁
  obtain ⟨before₂, after₂, heq, hbefore₂, hfault₂⟩ := h₂
  -- neither faulty line can be among the lines before the other
  rcases List.append_eq_append_iff.mp heq with ⟨between, rfl, hrest⟩ | ⟨between, rfl, hrest⟩
  · cases between with
    | nil =>
      obtain ⟨rfl, -⟩ := List.cons.inj hrest
      rw [List.append_nil, hfault₁] at hfault₂
      exact ⟨rfl, Option.some.inj hfault₂⟩
    | cons next between =>
      obtain ⟨rfl, -⟩ := List.cons.inj hrest
      exact absurd hbefore₂ (FirstFault.not_scannable ⟨_, _, rfl, hbefore₁, hfault₁⟩)
  · cases between with
    | nil =>
      obtain ⟨rfl, -⟩ := List.cons.inj hrest
      rw [List.append_nil, hfault₂] at hfault₁
      exact ⟨rfl, (Option.some.inj hfault₁).symm⟩
    | cons next between =>
      obtain ⟨rfl, -⟩ := List.cons.inj hrest
      exact absurd hbefore₁ (FirstFault.not_scannable ⟨_, _, rfl, hbefore₂, hfault₂⟩)

end StackAsm.Program
