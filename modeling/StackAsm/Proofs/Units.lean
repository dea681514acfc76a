import StackAsm.Disassembly
import StackAsm.Proofs.Encoding

/-!
# StackAsm.Proofs.Units

Code is made of whole units.

`SourceUnit` lists the units that instructions stand for while labels have no ids yet. Which operand
an operation takes is part of the type: there is no unit that names a register which does not exist,
and none that halts with an operand. The code of every instruction is a run of such units
(`Mnemonic.exists_units`), although a unit that loads a label is two segments there, and filling in
the ids gives the bytes of whole units (`SourceUnit.flatMap_segments`). Cut into units again, they
are these units (`disassemble_encodeAll`).
-/

namespace StackAsm

/-- The units that instructions stand for. -/
inductive SourceUnit where
  | nop | hlt | jmpa
  | sl (value : UInt16) | spop (count : UInt16) | add (value : UInt16)
  | rgw (r : Register) | rgr (r : Register)
  | llbl (label : String)
deriving DecidableEq, Repr

namespace SourceUnit

def op : SourceUnit → Opcode
  | nop => .nop
  | hlt => .hlt
  | jmpa => .jmpa
  | sl _ => .sl
  | spop _ => .spop
  | add _ => .add
  | rgw _ => .rgw
  | rgr _ => .rgr
  | llbl _ => .llbl

/-- The operand once labels have ids. -/
def operand (id : String → LabelId) : SourceUnit → UInt16
  | nop | hlt | jmpa => 0
  | sl value => value
  | spop count => count
  | add value => value
  | rgw r => r.index
  | rgr r => r.index
  | llbl label => id label

def label? : SourceUnit → Option String
  | llbl label => some label
  | _ => none

/-- The unit as code whose label ids are open. -/
def segments : SourceUnit → List Segment
  | nop => [.unit .nop 0]
  | hlt => [.unit .hlt 0]
  | jmpa => [.unit .jmpa 0]
  | sl value => [.unit .sl value]
  | spop count => [.unit .spop count]
  | add value => [.unit .add value]
  | rgw r => [.unit .rgw r.index]
  | rgr r => [.unit .rgr r.index]
  | llbl label => [.opcode .llbl, .label label]

theorem totalWidth_segments (u : SourceUnit) :
    Segment.totalWidth u.segments = CodeUnit.width := by
  cases u <;> rfl

theorem references_segments (u : SourceUnit) :
    Segment.references u.segments = u.label?.toList := by
  cases u <;> rfl

theorem totalWidth_flatMap_segments (us : List SourceUnit) :
    Segment.totalWidth (us.flatMap segments) = CodeUnit.width * us.length := by
  induction us with
  | nil => rfl
  | cons u us ih =>
    rw [List.flatMap_cons, Segment.totalWidth_append, totalWidth_segments, ih, List.length_cons,
      Nat.mul_succ, Nat.add_comm]

theorem references_flatMap_segments (us : List SourceUnit) :
    Segment.references (us.flatMap segments) = us.filterMap label? := by
  induction us with
  | nil => rfl
  | cons u us ih =>
    rw [List.flatMap_cons, Segment.references_append, references_segments, ih, List.filterMap_cons]
    cases u.label? <;> rfl

/-- With ids filled in, the segments of a unit are the bytes of a unit. -/
theorem flatMap_segments {fill : Segment → List UInt8} {id : String → LabelId} {u : SourceUnit}
    (hbytes : ∀ raw, fill (.bytes raw) = raw)
    (hlabel : ∀ label, u.label? = some label → fill (.label label) = BigEndian.bytes16 (id label)) :
    u.segments.flatMap fill = CodeUnit.encode u.op (u.operand id) := by
  cases u with
  | llbl label =>
    -- two segments, one for each half of the unit
    show fill (.bytes _) ++ (fill (.label label) ++ []) = _
    rw [hbytes, hlabel label rfl, List.append_nil]
    rfl
  | _ =>
    show fill (.bytes _) ++ [] = _
    rw [hbytes, List.append_nil]
    rfl

end SourceUnit

/-! ### From instructions to units -/

namespace Mnemonic

theorem exists_units_of_bind {α : Type} {x : Except OperandError α} {f : α → Encoded}
    (units : α → List SourceUnit)
    (hunits : ∀ a, (f a).segments = (units a).flatMap SourceUnit.segments) {code : Encoded}
    (h : (x >>= fun a => pure (f a)) = .ok code) :
    ∃ us : List SourceUnit, code.segments = us.flatMap SourceUnit.segments := by
  obtain ⟨a, -, hcode⟩ := exists_ok_of_bind h
  cases hcode
  exact ⟨units a, hunits a⟩

/-- The code of an instruction is a run of units. -/
theorem exists_units {m : Mnemonic} {operand : String} {code : Encoded}
    (h : m.encode operand = .ok code) :
    ∃ us : List SourceUnit, code.segments = us.flatMap SourceUnit.segments := by
  cases m with
  | nop => exact exists_units_of_bind (fun _ => [.nop]) (fun _ => rfl) h
  | hlt => exact exists_units_of_bind (fun _ => [.hlt]) (fun _ => rfl) h
  | jmpa => exact exists_units_of_bind (fun _ => [.jmpa]) (fun _ => rfl) h
  | sl => exact exists_units_of_bind (fun value => [.sl value]) (fun _ => rfl) h
  | rgw => exact exists_units_of_bind (fun r => [.rgw r]) (fun _ => rfl) h
  | rgr => exact exists_units_of_bind (fun r => [.rgr r]) (fun _ => rfl) h
  | llbl => exact exists_units_of_bind (fun label => [.llbl label]) (fun _ => rfl) h
  | jmpl => exact exists_units_of_bind (fun label => [.llbl label, .jmpa]) (fun _ => rfl) h
  | ret => exact exists_units_of_bind (fun _ => [.rgr .r7, .jmpa]) (fun _ => rfl) h
  | jmpr =>
    exact exists_units_of_bind (fun label =>
        [.rgr .pc, .add (UInt16.ofNat (returnOffset label)), .rgw .r7, .llbl label, .jmpa])
      (fun _ => rfl) h
  | spop =>
    simp only [encode] at h
    split at h
    · -- one value is popped unless there is an operand
      cases h
      exact ⟨[.spop 1], rfl⟩
    · exact exists_units_of_bind (fun count => [.spop count]) (fun _ => rfl) h
  | add =>
    simp only [encode, encodeAdd] at h
    split at h
    · -- both addends are on the stack unless there is an operand
      cases h
      exact ⟨[.add 0], rfl⟩
    · exact exists_units_of_bind (fun value => [.add value]) (fun _ => rfl) h

end Mnemonic

/-! ### From bytes to units -/

namespace CodeUnit

/-- The bytes of operations with their operands. -/
def encodeAll (units : List (Opcode × UInt16)) : List UInt8 :=
  units.flatMap fun unit => encode unit.1 unit.2

theorem length_encodeAll (units : List (Opcode × UInt16)) :
    (encodeAll units).length = width * units.length := by
  induction units with
  | nil => rfl
  | cons unit units ih =>
    show (encode unit.1 unit.2 ++ encodeAll units).length = _
    rw [List.length_append, length_encode, ih, List.length_cons, Nat.mul_succ, Nat.add_comm]

end CodeUnit

theorem quads_encodeAll (units : List (Opcode × UInt16)) :
    quads (CodeUnit.encodeAll units) = units.map fun unit => CodeUnit.encode unit.1 unit.2 := by
  induction units with
  | nil => rfl
  | cons unit units ih =>
    show CodeUnit.encode unit.1 unit.2 :: quads (CodeUnit.encodeAll units) = _
    rw [ih, List.map_cons]

theorem Instruction.ofBytes_encode (op : Opcode) (operand : UInt16) :
    ofBytes (CodeUnit.encode op operand) = .known op operand := by
  unfold ofBytes
  rw [CodeUnit.decode_encode]
  simp only [Opcode.ofValue?_value]

/-- Operations that are encoded are found again by cutting the code into units. -/
theorem disassemble_encodeAll (units : List (Opcode × UInt16)) :
    disassemble (CodeUnit.encodeAll units) = units.mapIdx fun i unit =>
      ⟨UInt32.ofNat (i * CodeUnit.width), CodeUnit.encode unit.1 unit.2,
        .known unit.1 unit.2⟩ := by
  unfold disassemble
  rw [quads_encodeAll, List.mapIdx_eq_zipIdx_map, List.mapIdx_eq_zipIdx_map, List.zipIdx_map,
    List.map_map]
  refine List.map_congr_left fun unit _ => ?_
  simp only [Function.comp_apply, Prod.map_fst, Prod.map_snd, id_eq, Instruction.ofBytes_encode]

end StackAsm
