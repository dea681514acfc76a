import StackAsm.Machine.BigEndian
import StackAsm.Machine.Opcode

/-!
# StackAsm.Machine.CodeUnit

The code section is made of *units* of four bytes: the number of an operation, then its operand.
-/

namespace StackAsm

/-- An index into the code section, in bytes. -/
abbrev Address := UInt32

/-- The number that stands for a label in the code and in the label table. -/
abbrev LabelId := UInt16

namespace CodeUnit

/-- The bytes in a unit. -/
def width : Nat := 4

/-- The bytes of an operation with its operand. -/
def encode (op : Opcode) (operand : UInt16) : List UInt8 :=
  BigEndian.bytes16 op.value ++ BigEndian.bytes16 operand

/-- The operation number and the operand in a unit; `none` unless there are exactly four bytes. -/
def decode : List UInt8 → Option (UInt16 × UInt16)
  | [a, b, c, d] => some (BigEndian.word16 a b, BigEndian.word16 c d)
  | _ => none

@[simp] theorem length_encode (op : Opcode) (operand : UInt16) :
    (encode op operand).length = width := rfl

/-- Decoding gives back what was encoded. -/
theorem decode_encode (op : Opcode) (operand : UInt16) :
    decode (encode op operand) = some (op.value, operand) := by
  show some (_, _) = _
  rw [BigEndian.word16_bytes16, BigEndian.word16_bytes16]

end CodeUnit

end StackAsm
