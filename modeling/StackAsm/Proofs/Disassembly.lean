import Mathlib.Algebra.GroupWithZero.Nat
import StackAsm.Disassembly

/-!
# StackAsm.Proofs.Disassembly

Code cut into units is the same code.

The unit with index `i` holds the bytes from `4 * i` on, four of them or as many as are left, and
there is one for each `i` that lies in the code (`getElem?_disassemble`). All else is arithmetic:
where the units begin, how many there are, and that only the last one can be short. What a unit
stands for has the same bytes as the unit (`Instruction.Describes`), so that nothing is lost in its
reading either. Code that is put together from two parts is cut into the units of both, if the first
part is made of whole units (`disassemble_append`).
-/

namespace StackAsm

/-! ### What bytes stand for -/

namespace Opcode

theorem mem_all (op : Opcode) : op ∈ all := by
  cases op <;> decide

theorem ofValue?_eq_none_iff {w : UInt16} : ofValue? w = none ↔ ∀ op : Opcode, op.value ≠ w := by
  simp [ofValue?, mem_all]

end Opcode

namespace Instruction

/-- The bytes that an instruction can be read from. -/
inductive Describes : Instruction → List UInt8 → Prop
  | known (op : Opcode) (operand : UInt16) :
      Describes (.known op operand) (CodeUnit.encode op operand)
  | unknown (value operand : UInt16) : (∀ op : Opcode, op.value ≠ value) →
      Describes (.unknown value operand)
        (BigEndian.bytes16 value ++ BigEndian.bytes16 operand)
  | trailing (raw : List UInt8) : raw.length < 4 → Describes (.trailing raw) raw

/-- What bytes are read as describes them. -/
theorem describes_ofBytes {raw : List UInt8} (h : raw.length ≤ 4) :
    (ofBytes raw).Describes raw := by
  unfold ofBytes
  match raw, h with
  | [], _ | [_], _ | [_, _], _ | [_, _, _], _ => exact .trailing _ (by simp)
  | [a, b, c, d], _ =>
    have hraw : BigEndian.bytes16 (BigEndian.word16 a b) ++
        BigEndian.bytes16 (BigEndian.word16 c d) = [a, b, c, d] := by
      rw [BigEndian.bytes16_word16, BigEndian.bytes16_word16]
      rfl
    simp only [CodeUnit.decode]
    rw [← hraw]
    split
    · rename_i op hop
      rw [← Opcode.value_of_ofValue? hop]
      exact .known op _
    · rename_i hnone
      exact .unknown _ _ (Opcode.ofValue?_eq_none_iff.mp hnone)

/-- Exactly the bytes that are too few for a unit stand for themselves. -/
theorem Describes.eq_trailing_iff {i : Instruction} {raw bytes : List UInt8}
    (h : i.Describes raw) : i = .trailing bytes ↔ bytes = raw ∧ raw.length < 4 := by
  cases h with
  | known op operand => simp [CodeUnit.width]
  | unknown value operand => simp
  | trailing raw hshort => simp [hshort, eq_comm]

end Instruction

/-! ### Groups of four bytes -/

theorem getElem?_quads : ∀ (code : List UInt8) (i : Nat),
    (quads code)[i]? = if 4 * i < code.length then some ((code.drop (4 * i)).take 4) else none
  | [], i => by simp [quads]
  | [_], i | [_, _], i | [_, _, _], i => by
    cases i with
    | zero => rfl
    | succ i =>
      rw [if_neg (by simp only [List.length_cons, List.length_nil]; omega)]
      rfl
  | _ :: _ :: _ :: _ :: rest, 0 => by simp [quads]
  | _ :: _ :: _ :: _ :: rest, i + 1 => by
    rw [quads, List.getElem?_cons_succ, getElem?_quads rest i]
    simp [Nat.mul_succ]

theorem flatten_quads : ∀ code : List UInt8, (quads code).flatten = code
  | [] | [_] | [_, _] | [_, _, _] => rfl
  | a :: b :: c :: d :: rest => by
    rw [quads, List.flatten_cons, flatten_quads rest]
    rfl

theorem length_quads : ∀ code : List UInt8, (quads code).length = (code.length + 3) / 4
  | [] | [_] | [_, _] | [_, _, _] => by simp [quads]
  | a :: b :: c :: d :: rest => by
    rw [quads, List.length_cons, length_quads rest]
    simp only [List.length_cons]
    omega

/-- Behind whole groups, the cutting starts anew. -/
theorem quads_append : ∀ {c : List UInt8} (_ : 4 ∣ c.length) (d : List UInt8),
    quads (c ++ d) = quads c ++ quads d
  | [], _, d => rfl
  | [_], h, _ | [_, _], h, _ | [_, _, _], h, _ => by
    simp only [List.length_cons, List.length_nil] at h
    omega
  | a :: b :: c :: d :: rest, h, e => by
    have hrest : 4 ∣ rest.length := by
      simp only [List.length_cons] at h
      omega
    simp only [List.cons_append, quads, quads_append hrest e]

/-! ### Units -/

/-- The unit with a given index. -/
def unitAt (code : List UInt8) (i : Nat) : DisassembledUnit :=
  let raw := (code.drop (4 * i)).take 4
  ⟨UInt32.ofNat (i * CodeUnit.width), raw, Instruction.ofBytes raw⟩

theorem length_raw_unitAt (code : List UInt8) (i : Nat) :
    (unitAt code i).raw.length = min 4 (code.length - 4 * i) := by
  simp [unitAt]

theorem describes_unitAt (code : List UInt8) (i : Nat) :
    (unitAt code i).instruction.Describes (unitAt code i).raw :=
  Instruction.describes_ofBytes (List.length_take_le _ _)

theorem getElem?_disassemble (code : List UInt8) (i : Nat) :
    (disassemble code)[i]? = if 4 * i < code.length then some (unitAt code i) else none := by
  rw [disassemble, List.getElem?_mapIdx, getElem?_quads]
  split <;> rfl

theorem getElem?_disassemble_eq_some {code : List UInt8} {i : Nat} {unit : DisassembledUnit}
    (h : (disassemble code)[i]? = some unit) : 4 * i < code.length ∧ unit = unitAt code i := by
  rw [getElem?_disassemble] at h
  split at h
  · rename_i hi
    exact ⟨hi, (Option.some.inj h).symm⟩
  · cases h

theorem mem_disassemble {code : List UInt8} {unit : DisassembledUnit}
    (h : unit ∈ disassemble code) : ∃ i, 4 * i < code.length ∧ unit = unitAt code i := by
  obtain ⟨i, hi⟩ := List.mem_iff_getElem?.mp h
  exact ⟨i, getElem?_disassemble_eq_some hi⟩

theorem length_disassemble (code : List UInt8) :
    (disassemble code).length = (code.length + 3) / 4 := by
  rw [disassemble, List.length_mapIdx, length_quads]

theorem map_raw_disassemble (code : List UInt8) :
    (disassemble code).map DisassembledUnit.raw = quads code := by
  rw [disassemble, List.mapIdx_eq_zipIdx_map, List.map_map]
  exact List.zipIdx_map_fst 0 (quads code)

theorem flatMap_raw_disassemble (code : List UInt8) :
    (disassemble code).flatMap DisassembledUnit.raw = code := by
  rw [List.flatMap_def, map_raw_disassemble, flatten_quads]

theorem length_raw_le {code : List UInt8} {unit : DisassembledUnit}
    (h : unit ∈ disassemble code) : unit.raw.length ≤ 4 := by
  obtain ⟨i, -, rfl⟩ := mem_disassemble h
  rw [length_raw_unitAt]
  exact Nat.min_le_left _ _

/-- An address in the code is not cut off. -/
theorem toNat_address_unitAt {code : List UInt8} {i : Nat} (hi : 4 * i < code.length)
    (hcode : code.length ≤ 2 ^ 32) : (unitAt code i).address.toNat = 4 * i := by
  rw [unitAt, UInt32.toNat_ofNat_of_lt', Nat.mul_comm]
  · rfl
  · show i * 4 < 2 ^ 32
    omega

/-! ### Parts of a code section -/

/-- The unit further back in the code. -/
def DisassembledUnit.shift (distance : Nat) (unit : DisassembledUnit) : DisassembledUnit :=
  { unit with address := unit.address + UInt32.ofNat distance }

/-- Behind whole units, the units of more code are those of this code, further back. -/
theorem disassemble_append {c : List UInt8} (h : 4 ∣ c.length) (d : List UInt8) :
    disassemble (c ++ d) = disassemble c ++ (disassemble d).map (·.shift c.length) := by
  have hlength : (quads c).length * CodeUnit.width = c.length := by
    rw [length_quads]
    show (c.length + 3) / 4 * 4 = c.length
    omega
  unfold disassemble
  rw [quads_append h, List.mapIdx_append, List.mapIdx_eq_zipIdx_map (l := quads d),
    List.mapIdx_eq_zipIdx_map (l := quads d), List.map_map]
  refine congrArg _ (List.map_congr_left fun group _ => ?_)
  simp only [Function.comp_apply, DisassembledUnit.shift, Nat.add_mul, UInt32.ofNat_add, hlength]

/-- Units that make up a code section in their order. -/
structure IsPartition (code : List UInt8) (units : List DisassembledUnit) : Prop where
  /-- A quarter of the bytes, rounded up. -/
  length : units.length = (code.length + 3) / 4
  bytes : units.flatMap DisassembledUnit.raw = code
  address : ∀ i unit, units[i]? = some unit → unit.address.toNat = 4 * i
  whole : ∀ i unit, units[i]? = some unit → i + 1 < units.length → unit.raw.length = 4
  short_iff : ∀ i unit, units[i]? = some unit →
    (unit.raw.length < 4 ↔ i + 1 = units.length ∧ ¬ 4 ∣ code.length)
  trailing_iff : ∀ unit ∈ units, ∀ raw,
    unit.instruction = .trailing raw ↔ raw = unit.raw ∧ unit.raw.length < 4
  describes : ∀ unit ∈ units, unit.instruction.Describes unit.raw

theorem isPartition_disassemble {code : List UInt8} (h : code.length ≤ 2 ^ 32) :
    IsPartition code (disassemble code) where
  length := length_disassemble code
  bytes := flatMap_raw_disassemble code
  address i unit hunit := by
    obtain ⟨hi, rfl⟩ := getElem?_disassemble_eq_some hunit
    exact toNat_address_unitAt hi h
  whole i unit hunit hnext := by
    obtain ⟨hi, rfl⟩ := getElem?_disassemble_eq_some hunit
    rw [length_disassemble] at hnext
    rw [length_raw_unitAt]
    omega
  short_iff i unit hunit := by
    obtain ⟨hi, rfl⟩ := getElem?_disassemble_eq_some hunit
    rw [length_raw_unitAt, length_disassemble]
    omega
  trailing_iff unit hunit raw := by
    obtain ⟨i, -, rfl⟩ := mem_disassemble hunit
    exact (describes_unitAt code i).eq_trailing_iff
  describes unit hunit := by
    obtain ⟨i, -, rfl⟩ := mem_disassemble hunit
    exact describes_unitAt code i

/-- **Cutting code into units loses nothing.** Every code section that addresses can reach is the
bytes of its units one behind the other: a unit for every four bytes, at its place, with the bytes
that it stands for, and at the end the bytes that are too few for a unit. If it is made of two parts
and the first one ends where a unit ends, then its units are those of the first part and, with
addresses further back but never cut off, those of the second. -/
theorem disassemble_partition (code : List UInt8) (h : code.length ≤ 2 ^ 32) :
    IsPartition code (disassemble code) ∧
      ∀ c d, code = c ++ d → 4 ∣ c.length →
        disassemble code = disassemble c ++ (disassemble d).map (·.shift c.length) ∧
          ∀ unit ∈ disassemble d, unit.address.toNat + c.length < 2 ^ 32 := by
  refine ⟨isPartition_disassemble h, ?_⟩
  rintro c d rfl hc
  refine ⟨disassemble_append hc d, ?_⟩
  intro unit hunit
  obtain ⟨i, hi, rfl⟩ := mem_disassemble hunit
  rw [List.length_append] at h
  rw [toNat_address_unitAt hi (by omega)]
  omega

/-- A register, a number that no operation has, and two bytes that are left. -/
theorem disassemble_partition_short :
    let c : List UInt8 := [0x00, 0x11, 0x00, 0x0A]
    let d : List UInt8 := [0xBE, 0xEF, 0x00, 0x01, 0x00, 0x01]
    IsPartition (c ++ d) (disassemble (c ++ d)) ∧
      disassemble (c ++ d) = disassemble c ++ (disassemble d).map (·.shift 4) ∧
      disassemble d = [⟨0, [0xBE, 0xEF, 0x00, 0x01], .unknown 0xBEEF 1⟩,
        ⟨4, [0x00, 0x01], .trailing [0x00, 0x01]⟩] := by
  intro c d
  have h := disassemble_partition (c ++ d) (by decide)
  exact ⟨h.1, (h.2 c d rfl (by decide)).1, by decide⟩

end StackAsm
