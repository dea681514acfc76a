import StackAsm.Proofs.Execution
import StackAsm.Proofs.WellFormed

/-!
# StackAsm.Proofs.Calls

Calls return just past themselves.

A call saves an address in `R7`, and the address is computed by the code of the call itself: the
program counter as it is after the first unit, plus an offset. That the offset leads to the next
instruction holds because the code of a call has the same width for every label, although the label
has no id yet when the offset is chosen. The code of a line stands in the image where the lines
before it end (`Program.IsImage.codeAt`); from there on, what a call and a return do is what five
and two operations do (`Machine.run_call`, `Machine.run_return`).
-/

namespace StackAsm

/-! ### What a call and a return do -/

namespace Machine

variable {image : Image} {m : Machine}

/-- The code of a call saves an address past itself and goes on at the address of the label. -/
theorem run_call {k : UInt16} {id : LabelId} {target : Address}
    (hat : image.UnitsAt m.pc [(.rgr, Register.pc.index), (.add, k), (.rgw, Register.r7.index),
      (.llbl, id), (.jmpa, 0)])
    (hk : k ≠ 0) (htarget : image.addressOf? id = some target) :
    m.run image 5 = some { m with
      pc := target.toNat
      registers := Function.update m.registers .r7 (m.pc + CodeUnit.width + k.toNat) } := by
  have hrun := run_of_unitsAt [(.rgr, Register.pc.index), (.add, k), (.rgw, Register.r7.index),
    (.llbl, id)] (.jmpa, 0) hat (by simp [jumps]; decide)
  refine hrun.trans ?_
  simp [execAll, exec, Register.ofIndex?_index, read, next, write, hk, htarget]

/-- The code of a return goes on at the address that was saved. -/
theorem run_return (hat : image.UnitsAt m.pc [(.rgr, Register.r7.index), (.jmpa, 0)]) :
    m.run image 2 = some { m with pc := m.registers .r7 } := by
  have hrun := run_of_unitsAt [(.rgr, Register.r7.index)] (.jmpa, 0) hat (by simp [jumps])
  refine hrun.trans ?_
  simp [execAll, exec, Register.ofIndex?_index, read, next]

end Machine

/-! ### Their code -/

namespace Line

/-- The code of an instruction whose mnemonic is known. -/
theorem exists_encode (m : Mnemonic) {operand : String}
    (h : (instruction m.name operand).code?.isSome) :
    ∃ code, m.encode operand = .ok code ∧
      (instruction m.name operand).segments = code.segments := by
  obtain ⟨code, hcode⟩ := Option.isSome_iff_exists.mp h
  obtain ⟨m', hm', hencode⟩ := code?_instruction.mp hcode
  obtain rfl : m' = m := Option.some.inj (hm'.symm.trans (Mnemonic.ofName?_name m))
  exact ⟨code, hencode, segments_of_code? hcode⟩

/-- The units of a call. The offset is the width of the last four. -/
theorem segments_call {label : String} (h : (instruction "jmpr" label).code?.isSome) :
    (instruction "jmpr" label).segments =
      [SourceUnit.rgr .pc, .add 16, .rgw .r7, .llbl label, .jmpa].flatMap SourceUnit.segments := by
  obtain ⟨code, hencode, hsegments⟩ := exists_encode .jmpr h
  obtain ⟨label', hlabel, hcall⟩ := exists_ok_of_bind hencode
  obtain rfl := Mnemonic.label_eq_ok hlabel
  cases hcall
  exact hsegments

theorem segments_return {operand : String} (h : (instruction "ret" operand).code?.isSome) :
    (instruction "ret" operand).segments =
      [SourceUnit.rgr .r7, .jmpa].flatMap SourceUnit.segments := by
  obtain ⟨code, hencode, hsegments⟩ := exists_encode .ret h
  obtain ⟨-, -, hback⟩ := exists_ok_of_bind hencode
  cases hback
  exact hsegments

end Line

/-! ### Where code stands -/

namespace Program

/-- The code of a line stands in the image from an address on. -/
def CodeAt (p : Program) (image : Image) (address : Nat) (line : Line) : Prop :=
  line.segments.flatMap p.fill <+: image.code.drop address

namespace IsImage

variable {opts : Options} {p : Program} {image : Image}

/-- The code of a line stands where the code of the lines before it ends. -/
theorem codeAt (h : p.IsImage opts image) {before after : Program} {line : Located Line}
    (hp : p = before ++ line :: after) : p.CodeAt image before.width line.val := by
  have hbefore : before ⊆ p := by
    rw [hp]
    exact List.subset_append_left ..
  have hsplit : ∀ f : Located Line → List UInt8,
      p.flatMap f = before.flatMap f ++ (f line ++ after.flatMap f) := by
    intro f
    rw [hp, List.flatMap_append, List.flatMap_cons]
  rw [CodeAt, h.code, hsplit, List.drop_left' (h.length_fill hbefore)]
  exact List.prefix_append ..

/-- If the code of a line is made of certain units, these stand there. -/
theorem unitsAt (h : p.IsImage opts image) {before after : Program} {line : Located Line}
    (hp : p = before ++ line :: after) {us : List SourceUnit}
    (hus : line.val.segments = us.flatMap SourceUnit.segments) :
    image.UnitsAt before.width (us.map fun u => (u.op, u.operand p.labelId)) := by
  have hline : line ∈ p := by simp [hp]
  have hdeclared : ∀ u ∈ us, ∀ label, u.label? = some label → p.Declares label := by
    intro u hu label hlabel
    obtain ⟨other, hother, href⟩ := exists_reference (p := [line])
      (by simpa using h.encodable line hline) (by simpa using hus) hu hlabel
    obtain rfl := List.mem_singleton.mp hother
    exact h.resolved other hline label href
  have hcode := h.codeAt hp
  rw [CodeAt, hus, h.fill_units hdeclared] at hcode
  exact hcode

/-- The label table leads from the id of a label to its last declaration. -/
theorem exists_target (h : p.IsImage opts image) {label : String} (hlabel : p.Declares label) :
    ∃ (d : Declaration) (target : Address),
      Declaration.last? p.declarations label = some (d, (p.labelId label).toNat) ∧
      image.addressOf? (p.labelId label) = some target ∧ target.toNat = d.address := by
  obtain ⟨r, -, d, hlast, haddress⟩ :=
    exists_right_of_forall₂ h.labels (Declaration.mem_names.mpr hlabel)
  have hid : p.labelId label = r.id := by simp [labelId, hlast]
  rw [hid]
  exact ⟨d, r.address, hlast, (h.lookup _ _).mpr ⟨label, d, hlast, haddress⟩, haddress⟩

end IsImage

end Program

/-! ### Calls -/

namespace Program.IsImage

variable {opts : Options} {p before after : Program} {image : Image} {loc : Location}

/-- The code of a call is five units, and the label table knows the id in it. -/
theorem unitsAt_call (h : p.IsImage opts image) {label : String}
    (hp : p = before ++ ⟨loc, .instruction "jmpr" label⟩ :: after) :
    p.Declares label ∧
    image.UnitsAt before.width [(.rgr, Register.pc.index), (.add, 16), (.rgw, Register.r7.index),
      (.llbl, p.labelId label), (.jmpa, 0)] ∧
    width (before ++ [⟨loc, .instruction "jmpr" label⟩]) = before.width + 20 := by
  have hmem : ⟨loc, .instruction "jmpr" label⟩ ∈ p := by simp [hp]
  have hsegments := Line.segments_call (h.encodable _ hmem rfl)
  refine ⟨h.resolved _ hmem label rfl, h.unitsAt hp hsegments, ?_⟩
  rw [width_append, width_singleton, hsegments, SourceUnit.totalWidth_flatMap_segments]
  rfl

theorem unitsAt_return (h : p.IsImage opts image) {operand : String}
    (hp : p = before ++ ⟨loc, .instruction "ret" operand⟩ :: after) :
    image.UnitsAt before.width [(.rgr, Register.r7.index), (.jmpa, 0)] := by
  have hmem : ⟨loc, .instruction "ret" operand⟩ ∈ p := by simp [hp]
  exact h.unitsAt hp (Line.segments_return (h.encodable _ hmem rfl))

end Program.IsImage

/-- **Calls return just past themselves.** Wherever a call stands in a program that is assembled,
its code computes the address where the code of the next instruction starts, or where all code ends.
It saves that address in `R7` and goes on at the last declaration of its label; and every return of
the program, while the address is saved, goes on at that address. Both leave the stack as it was. -/
theorem call_returns_past_itself (load : Loader) (opts : Options) (lines : List (Located String))
    (assembly : Assembly) (hok : (assembleLines load opts lines).result = .ok assembly)
    (before after : Program) (loc : Location) (label : String)
    (hcall : Program.ofSource load lines =
      before ++ ⟨loc, .instruction "jmpr" label⟩ :: after) :
    ∃ (k : UInt16) (id : LabelId) (target : Declaration),
      assembly.image.UnitsAt before.width [(.rgr, Register.pc.index), (.add, k),
        (.rgw, Register.r7.index), (.llbl, id), (.jmpa, 0)] ∧
      k ≠ 0 ∧ before.width + 4 + k.toNat = before.width + 20 ∧
      (∀ (gap : Program) (next : Located Line) (rest : Program),
        after = gap ++ next :: rest → next.val.isInstruction = true →
        (∀ line ∈ gap, line.val.isInstruction = false) →
        Program.width (before ++ ⟨loc, .instruction "jmpr" label⟩ :: gap) = before.width + 20 ∧
        (Program.ofSource load lines).CodeAt assembly.image (before.width + 20) next.val) ∧
      ((∀ line ∈ after, line.val.isInstruction = false) →
        assembly.image.code.length = before.width + 20) ∧
      Declaration.last? (Program.ofSource load lines).declarations label =
        some (target, id.toNat) ∧
      (∀ m : Machine, m.pc = before.width → m.run assembly.image 5 = some { m with
        pc := target.address
        registers := Function.update m.registers .r7 (before.width + 20) }) ∧
      ∀ (before' after' : Program) (loc' : Location) (operand : String),
        Program.ofSource load lines = before' ++ ⟨loc', .instruction "ret" operand⟩ :: after' →
        ∀ m : Machine, m.pc = before'.width → m.registers .r7 = before.width + 20 →
          m.run assembly.image 2 = some { m with pc := before.width + 20 } := by
  have himage := assembleLines_ofSource hok
  obtain ⟨hdeclares, hunits, hwidth⟩ := himage.unitsAt_call hcall
  obtain ⟨target, address, hlast, haddress, htarget⟩ := himage.exists_target hdeclares
  -- lines that are no instructions take no space
  have hgap : ∀ gap : Program, (∀ line ∈ gap, line.val.isInstruction = false) →
      Program.width (before ++ ⟨loc, .instruction "jmpr" label⟩ :: gap) = before.width + 20 := by
    intro gap hnone
    rw [List.append_cons, Program.width_append, hwidth,
      Program.width_eq_zero_of_not_isInstruction hnone]
  refine ⟨16, _, target, hunits, by decide, rfl, ?_, ?_, hlast, ?_, ?_⟩
  · intro gap next rest hafter _ hnone
    have hnext : Program.ofSource load lines =
        (before ++ ⟨loc, .instruction "jmpr" label⟩ :: gap) ++ next :: rest := by
      rw [hcall, hafter, List.append_assoc]
      rfl
    have hcode := himage.codeAt hnext
    rw [hgap gap hnone] at hcode
    exact ⟨hgap gap hnone, hcode⟩
  · intro hnone
    rw [himage.length_code, hcall, hgap after hnone]
  · intro m hpc
    rw [Machine.run_call (hpc ▸ hunits) (by decide) haddress, htarget, hpc]
    rfl
  · intro before' after' loc' operand hreturn m hpc hsaved
    rw [Machine.run_return (hpc ▸ himage.unitsAt_return hreturn), hsaved]

/-- A file with a subroutine that is declared twice. -/
def subroutine : Store := ({} : Store).insert "g" "sub:\nhlt\nsub:\nret"

/-- A program that includes it right after a call. -/
def callingLines : List (Located String) := sourceLines "f" "main:\njmpr sub\n#include g\nhlt"

def callingProgram : Program :=
  [⟨⟨"f", 1⟩, .label "main"⟩, ⟨⟨"f", 2⟩, .instruction "jmpr" "sub"⟩,
    ⟨⟨"g", 1⟩, .label "sub"⟩, ⟨⟨"g", 2⟩, .instruction "hlt" ""⟩, ⟨⟨"g", 3⟩, .label "sub"⟩,
    ⟨⟨"g", 4⟩, .instruction "ret" ""⟩, ⟨⟨"f", 4⟩, .instruction "hlt" ""⟩]

theorem ofSource_callingLines :
    Program.ofSource subroutine.load callingLines = callingProgram := by
  have hlines : callingLines = [⟨⟨"f", 1⟩, "main:"⟩, ⟨⟨"f", 2⟩, "jmpr sub"⟩,
      ⟨⟨"f", 3⟩, "#include g"⟩, ⟨⟨"f", 4⟩, "hlt"⟩] := by cbv
  have hpaste : demand subroutine.load [] ∅ ⟨⟨"f", 3⟩, "#include g"⟩ =
      .ok (.paste ∅ [⟨⟨"g", 1⟩, "sub:"⟩, ⟨⟨"g", 2⟩, "hlt"⟩, ⟨⟨"g", 3⟩, "sub:"⟩,
        ⟨⟨"g", 4⟩, "ret"⟩]) := by
    unfold demand
    cbv
  unfold Program.ofSource
  rw [hlines]
  simp (disch := decide) only [expand_plain, expand_paste _ hpaste, expand_nil, Expansion.andThen]
  cbv

/-- The call at 0 enters the second declaration at 24, and the return there goes on at 20. -/
theorem callingLines_return :
    ∃ assembly, (assembleLines subroutine.load {} callingLines).result = .ok assembly ∧
      (∀ m : Machine, m.pc = 0 → m.run assembly.image 5 = some { m with
        pc := 24
        registers := Function.update m.registers .r7 20 }) ∧
      ∀ m : Machine, m.pc = 24 → m.registers .r7 = 20 →
        m.run assembly.image 2 = some { m with pc := 20 } := by
  have hcode : ((assembleLines subroutine.load {} callingLines).result.map fun assembly =>
      assembly.image.code.length).toOption = some 36 := by cbv
  obtain ⟨assembly, hok, -⟩ := exists_ok_of_map hcode
  have hcalling : Program.ofSource subroutine.load callingLines = callingProgram.take 1 ++
      ⟨⟨"f", 2⟩, .instruction "jmpr" "sub"⟩ :: callingProgram.drop 2 := ofSource_callingLines
  have hreturning : Program.ofSource subroutine.load callingLines = callingProgram.take 5 ++
      ⟨⟨"g", 4⟩, .instruction "ret" ""⟩ :: callingProgram.drop 6 := ofSource_callingLines
  have hwidth : Program.width (callingProgram.take 5) = 24 := by cbv
  have hsub : Declaration.last? callingProgram.declarations "sub" =
      some (⟨"sub", ⟨"g", 3⟩, 24⟩, 2) := by cbv
  obtain ⟨k, id, target, -, -, -, -, -, hlast, hcall, hreturn⟩ :=
    call_returns_past_itself _ _ _ assembly hok _ _ _ _ hcalling
  rw [ofSource_callingLines, hsub] at hlast
  obtain ⟨rfl, -⟩ := Prod.mk.inj (Option.some.inj hlast)
  refine ⟨assembly, hok, hcall, ?_⟩
  intro m hpc
  exact hreturn _ _ _ _ hreturning m (hpc.trans hwidth.symm)

end StackAsm
