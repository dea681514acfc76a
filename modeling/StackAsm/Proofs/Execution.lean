import Mathlib.Logic.Function.Basic
import StackAsm.Image
import StackAsm.Proofs.Units

/-!
# StackAsm.Proofs.Execution

The machine that images are made for.

The machine has a stack, registers, and a program counter that can be read and written like a
register. It runs the units of the code section one after another. Labels are looked up in the label
table when they are loaded, not before. Values and addresses have no bound here.

`Machine.step` runs one unit, as far as the meaning of the unit is fixed: a halt, an unknown unit
and an operation that lacks values on the stack have no successor. It takes the unit from the bytes
in front of the program counter, so that nothing is assumed of what stands elsewhere in the code.
For code that is known to stand somewhere and jumps only at its end, bytes and program counter can
be forgotten: it runs as its operations do, one after another (`Machine.run_of_unitsAt`).
-/

namespace StackAsm

/-- The state of the machine. -/
structure Machine where
  /-- The address of the unit that is run next. -/
  pc : Nat
  stack : List Nat
  /-- The registers; the program counter stands apart. -/
  registers : Register → Nat

namespace Machine

/-- What a unit reads from a register. The program counter is past the unit by then. -/
def read (m : Machine) : Register → Nat
  | .pc => m.pc + CodeUnit.width
  | r => m.registers r

/-- Sets a register. Execution goes on at what is written to the program counter. -/
def write (m : Machine) (r : Register) (value : Nat) : Machine :=
  match r with
  | .pc => { m with pc := value }
  | r => { m with registers := Function.update m.registers r value }

/-- Goes on with the following unit. -/
def next (m : Machine) (stack : List Nat) : Machine :=
  { m with pc := m.pc + CodeUnit.width, stack }

/-- Runs an operation. -/
def exec (image : Image) (m : Machine) (op : Opcode) (operand : UInt16) : Option Machine :=
  match op, m.stack with
  | .nop, stack => some (m.next stack)
  | .sl, stack => some (m.next (operand.toNat :: stack))
  | .spop, stack =>
    if operand.toNat ≤ stack.length then some (m.next (stack.drop operand.toNat)) else none
  | .llbl, stack => (image.addressOf? operand).map fun address => m.next (address.toNat :: stack)
  | .rgr, stack => (Register.ofIndex? operand).map fun r => m.next (m.read r :: stack)
  | .rgw, value :: stack => (Register.ofIndex? operand).map fun r => (m.next stack).write r value
  | .jmpa, address :: stack => some { m with pc := address, stack }
  | .add, value :: stack =>
    if operand ≠ 0 then some (m.next ((value + operand.toNat) :: stack))
    else stack.head?.map fun other => m.next ((value + other) :: stack.tail)
  | _, _ => none

/-- Runs the unit at the program counter. -/
def step (image : Image) (m : Machine) : Option Machine :=
  match Instruction.ofBytes ((image.code.drop m.pc).take CodeUnit.width) with
  | .known op operand => m.exec image op operand
  | .unknown .. | .trailing .. => none

/-- Runs a number of units. -/
def run (image : Image) : Nat → Machine → Option Machine
  | 0, m => some m
  | n + 1, m => (m.step image).bind (run image n)

end Machine

/-! ### Units in the code section -/

/-- Some units stand in the code section from an address on. -/
def Image.UnitsAt (image : Image) (address : Nat) (units : List (Opcode × UInt16)) : Prop :=
  CodeUnit.encodeAll units <+: image.code.drop address

namespace Image.UnitsAt

variable {image : Image} {address : Nat} {op : Opcode} {operand : UInt16}
  {units : List (Opcode × UInt16)}

theorem exists_drop_eq (h : image.UnitsAt address ((op, operand) :: units)) :
    ∃ rest, image.code.drop address =
      CodeUnit.encode op operand ++ (CodeUnit.encodeAll units ++ rest) := by
  obtain ⟨rest, hrest⟩ := h
  refine ⟨rest, ?_⟩
  rw [← hrest, ← List.append_assoc]
  rfl

/-- The first of the units is what the machine finds there. -/
theorem ofBytes (h : image.UnitsAt address ((op, operand) :: units)) :
    Instruction.ofBytes ((image.code.drop address).take CodeUnit.width) = .known op operand := by
  obtain ⟨rest, hcode⟩ := h.exists_drop_eq
  rw [hcode, List.take_left' (CodeUnit.length_encode op operand), Instruction.ofBytes_encode]

theorem tail (h : image.UnitsAt address ((op, operand) :: units)) :
    image.UnitsAt (address + CodeUnit.width) units := by
  obtain ⟨rest, hcode⟩ := h.exists_drop_eq
  refine ⟨rest, ?_⟩
  rw [← List.drop_drop, hcode, List.drop_left' (CodeUnit.length_encode op operand)]

end Image.UnitsAt

/-! ### Code that jumps only at its end -/

namespace Machine

variable {image : Image} {m m' : Machine}

/-- Whether execution may go on elsewhere than with the following unit. -/
def jumps : Opcode × UInt16 → Bool
  | (.jmpa, _) => true
  | (.rgw, operand) => operand = Register.pc.index
  | _ => false

theorem pc_write {r : Register} (hr : r ≠ .pc) (value : Nat) : (m.write r value).pc = m.pc := by
  cases r with
  | pc => exact absurd rfl hr
  | _ => rfl

/-- All other operations go on with the following unit. -/
theorem pc_of_exec {op : Opcode} {operand : UInt16} (hjumps : jumps (op, operand) = false)
    (h : m.exec image op operand = some m') : m'.pc = m.pc + CodeUnit.width := by
  cases op with
  | nop | sl =>
    obtain rfl := Option.some.inj h
    rfl
  | hlt => cases h
  | spop =>
    simp only [exec] at h
    split at h
    · obtain rfl := Option.some.inj h
      rfl
    · cases h
  | llbl | rgr =>
    obtain ⟨value, -, rfl⟩ := Option.map_eq_some_iff.mp h
    rfl
  | rgw =>
    unfold exec at h
    cases hstack : m.stack with
    | nil => simp [hstack] at h
    | cons value stack =>
      simp only [hstack] at h
      obtain ⟨r, hr, rfl⟩ := Option.map_eq_some_iff.mp h
      refine pc_write ?_ value
      rintro rfl
      simp [jumps, Register.index_of_ofIndex? hr] at hjumps
  | jmpa => cases hjumps
  | add =>
    unfold exec at h
    cases hstack : m.stack with
    | nil => simp [hstack] at h
    | cons value stack =>
      simp only [hstack] at h
      split at h
      · obtain rfl := Option.some.inj h
        rfl
      · obtain ⟨other, -, rfl⟩ := Option.map_eq_some_iff.mp h
        rfl

/-- Runs operations one after another. -/
def execAll (image : Image) : List (Opcode × UInt16) → Machine → Option Machine
  | [], m => some m
  | unit :: units, m => (m.exec image unit.1 unit.2).bind (execAll image units)

theorem step_of_unitsAt {op : Opcode} {operand : UInt16} {units : List (Opcode × UInt16)}
    (h : image.UnitsAt m.pc ((op, operand) :: units)) :
    m.step image = m.exec image op operand := by
  unfold step
  rw [h.ofBytes]

/-- Code that jumps only at its end runs as its operations do. -/
theorem run_of_unitsAt (body : List (Opcode × UInt16)) (last : Opcode × UInt16)
    (hat : image.UnitsAt m.pc (body ++ [last])) (hbody : ∀ unit ∈ body, jumps unit = false) :
    m.run image (body.length + 1) = m.execAll image (body ++ [last]) := by
  induction body generalizing m with
  | nil =>
    show (m.step image).bind _ = (m.exec image last.1 last.2).bind _
    rw [step_of_unitsAt hat]
    rfl
  | cons unit body ih =>
    show (m.step image).bind _ = (m.exec image unit.1 unit.2).bind _
    rw [step_of_unitsAt hat]
    cases hexec : m.exec image unit.1 unit.2 with
    | none => rfl
    | some m' =>
      -- the rest of the code is in front of the program counter now
      have hpc : m'.pc = m.pc + CodeUnit.width := pc_of_exec (hbody unit (by simp)) hexec
      exact ih (hpc ▸ hat.tail) fun other hother => hbody other (by simp [hother])

end Machine

end StackAsm
