import StackAsm.Source.Mnemonic

/-!
# StackAsm.Proofs.Encoding

What the code of an instruction is made of.

An instruction refers to a label exactly when it is one of the three that take a label, and then to
its operand and once (`Mnemonic.references_encode`). The only remark on an instruction is the one on
adding zero (`Mnemonic.warnings_encode`).
-/

namespace StackAsm

/-- A computation that gives a value went through a value before. -/
theorem exists_ok_of_bind {ε α β : Type} {x : Except ε α} {f : α → Except ε β} {b : β}
    (h : x >>= f = .ok b) : ∃ a, x = .ok a ∧ f a = .ok b := by
  cases x with
  | error e => cases h
  | ok a => exact ⟨a, rfl, h⟩

theorem exists_ok_of_map {ε α β : Type} {x : Except ε α} {f : α → β} {b : β}
    (h : (x.map f).toOption = some b) : ∃ a, x = .ok a ∧ f a = b := by
  cases x with
  | error e => cases h
  | ok a => exact ⟨a, rfl, Option.some.inj h⟩

namespace Segment

@[simp] theorem reference?_unit (op : Opcode) (operand : UInt16) :
    (unit op operand).reference? = none := rfl

@[simp] theorem reference?_opcode (op : Opcode) : (opcode op).reference? = none := rfl

@[simp] theorem reference?_label (name : String) : (label name).reference? = some name := rfl

/-- The labels that a list of segments refers to, in order. -/
def references (segments : List Segment) : List String := segments.filterMap reference?

@[simp] theorem references_nil : references [] = [] := rfl

@[simp] theorem references_cons (segment : Segment) (segments : List Segment) :
    references (segment :: segments) = segment.reference?.toList ++ references segments := by
  unfold references
  rw [List.filterMap_cons]
  cases segment.reference? <;> simp

theorem references_append (xs ys : List Segment) :
    references (xs ++ ys) = references xs ++ references ys := by
  simp [references]

end Segment

namespace Mnemonic

/-- The instructions that take a label. -/
def takesLabel : Mnemonic → Bool
  | llbl | jmpl | jmpr => true
  | _ => false

theorem references_loadLabel (label : String) :
    Segment.references (loadLabel label) = [label] := by
  simp [loadLabel]

theorem references_jump (label : String) : Segment.references (jump label) = [label] := by
  rw [jump, Segment.references_append, references_loadLabel]
  simp

theorem references_call (label : String) : Segment.references (call label) = [label] := by
  rw [call, Segment.references_append, references_jump]
  simp

/-- A label operand is taken as it stands. -/
theorem label_eq_ok {text label : String} (h : Operand.label text = .ok label) : label = text := by
  unfold Operand.label at h
  split at h
  · cases h
  · cases h
    rfl

/-- An instruction that takes a label refers to its operand; no other refers to anything. -/
theorem references_encode {m : Mnemonic} {operand : String} {code : Encoded}
    (h : m.encode operand = .ok code) :
    Segment.references code.segments = if m.takesLabel then [operand] else [] := by
  cases m with
  | nop | hlt | jmpa | ret | sl | rgw | rgr =>
    obtain ⟨_, -, hcode⟩ := exists_ok_of_bind h
    cases hcode
    simp [takesLabel, back]
  | spop =>
    simp only [encode] at h
    split at h
    · cases h
      simp [takesLabel]
    · obtain ⟨_, -, hcode⟩ := exists_ok_of_bind h
      cases hcode
      simp [takesLabel]
  | add =>
    simp only [encode, encodeAdd] at h
    split at h
    · cases h
      simp [takesLabel]
    · obtain ⟨_, -, hcode⟩ := exists_ok_of_bind h
      cases hcode
      simp [takesLabel]
  | llbl =>
    obtain ⟨label, hlabel, hcode⟩ := exists_ok_of_bind h
    cases hcode
    rw [label_eq_ok hlabel, references_loadLabel]
    rfl
  | jmpl =>
    obtain ⟨label, hlabel, hcode⟩ := exists_ok_of_bind h
    cases hcode
    rw [label_eq_ok hlabel, references_jump]
    rfl
  | jmpr =>
    obtain ⟨label, hlabel, hcode⟩ := exists_ok_of_bind h
    cases hcode
    rw [label_eq_ok hlabel, references_call]
    rfl

/-- There is nothing to remark on an instruction that does not add. -/
theorem warnings_encode_of_ne_add {m : Mnemonic} {operand : String} {code : Encoded} (hm : m ≠ .add)
    (h : m.encode operand = .ok code) : code.warnings = [] := by
  cases m with
  | add => exact absurd rfl hm
  | spop =>
    simp only [encode] at h
    split at h
    · cases h
      rfl
    · obtain ⟨_, -, hcode⟩ := exists_ok_of_bind h
      cases hcode
      rfl
  | _ =>
    obtain ⟨_, -, hcode⟩ := exists_ok_of_bind h
    cases hcode
    rfl

/-- There is nothing to remark on an instruction but that it adds zero. -/
theorem warnings_encode {m : Mnemonic} {operand : String} {code : Encoded}
    (h : m.encode operand = .ok code) :
    code.warnings = [] ∨ code.warnings = [.addZeroReadsStack] := by
  by_cases hm : m = .add
  · subst hm
    simp only [encode, encodeAdd] at h
    split at h
    · cases h
      exact .inl rfl
    · obtain ⟨w, -, hcode⟩ := exists_ok_of_bind h
      cases hcode
      by_cases hw : w = 0
      · exact .inr (if_pos hw)
      · exact .inl (if_neg hw)
  · exact .inl (warnings_encode_of_ne_add hm h)

end Mnemonic

end StackAsm
