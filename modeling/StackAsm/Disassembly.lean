import StackAsm.Machine.CodeUnit
import StackAsm.Machine.Register
import StackAsm.Text.Number

/-!
# StackAsm.Disassembly

The code section cut into units, and the text of each unit.
-/

namespace StackAsm

/-- What a unit stands for. -/
inductive Instruction where
  | known (op : Opcode) (operand : UInt16)
  /-- A whole unit, but no operation has its number. -/
  | unknown (value operand : UInt16)
  /-- Fewer bytes than a unit takes. -/
  | trailing (raw : List UInt8)
deriving DecidableEq, Repr

namespace Instruction

/-- What some bytes stand for. -/
def ofBytes (raw : List UInt8) : Instruction :=
  match CodeUnit.decode raw with
  | none => .trailing raw
  | some (value, operand) =>
    match Opcode.ofValue? value with
    | some op => .known op operand
    | none => .unknown value operand

/-- The text of an operation with its operand. -/
def renderKnown (op : Opcode) (operand : UInt16) : String :=
  match op with
  | .nop | .hlt | .jmpa => op.name
  | .sl | .spop => op.name ++ " " ++ Text.hexWord operand.toNat
  | .llbl => op.name ++ " #" ++ Text.decimal operand.toNat
  | .rgw | .rgr =>
    match Register.ofIndex? operand with
    | some r => op.name ++ " " ++ r.name
    | none => op.name ++ " ?" ++ Text.hexWord operand.toNat
  | .add => if operand = 0 then op.name else op.name ++ " " ++ Text.hexWord operand.toNat

/-- The text of a unit. -/
def render : Instruction → String
  | known op operand => renderKnown op operand
  | unknown value operand =>
    ".unit " ++ Text.hexWord value.toNat ++ " " ++ Text.hexWord operand.toNat
  | trailing raw => ".bytes " ++ Text.hexBytes raw

end Instruction

/-- A unit with its place in the code section. -/
structure DisassembledUnit where
  address : Address
  raw : List UInt8
  instruction : Instruction
deriving DecidableEq, Repr

/-- Cuts bytes into groups of four; the last group may be shorter. -/
def quads : List UInt8 → List (List UInt8)
  | a :: b :: c :: d :: rest => [a, b, c, d] :: quads rest
  | [] => []
  | raw => [raw]

/-- Cuts a code section into units. -/
def disassemble (code : List UInt8) : List DisassembledUnit :=
  (quads code).mapIdx fun i raw =>
    ⟨UInt32.ofNat (i * CodeUnit.width), raw, Instruction.ofBytes raw⟩

end StackAsm
