/-!
# StackAsm.Machine.Opcode

The primitive operations of the machine and their numbers.
-/

namespace StackAsm

/-- The primitive operations. -/
inductive Opcode where
  /-- Do nothing. -/
  | nop
  /-- Halt. -/
  | hlt
  /-- Push the operand. -/
  | sl
  /-- Pop as many values as the operand says. -/
  | spop
  /-- Push the address of the label whose id is the operand. -/
  | llbl
  /-- Pop a value into the register that the operand names. -/
  | rgw
  /-- Push the register that the operand names. -/
  | rgr
  /-- Pop an address and go on there. -/
  | jmpa
  /-- Add the operand to the top value, or the two top values if it is zero. -/
  | add
deriving DecidableEq, Repr

namespace Opcode

/-- All operations, by increasing number. -/
def all : List Opcode := [nop, hlt, sl, spop, llbl, rgw, rgr, jmpa, add]

/-- The number that stands for an operation in the code. -/
def value : Opcode → UInt16
  | nop => 0x0000
  | hlt => 0x0001
  | sl => 0x0002
  | spop => 0x0003
  | llbl => 0x0004
  | rgw => 0x0010
  | rgr => 0x0011
  | jmpa => 0x0023
  | add => 0x0030

/-- The name of an operation. -/
def name : Opcode → String
  | nop => "nop"
  | hlt => "hlt"
  | sl => "sl"
  | spop => "spop"
  | llbl => "llbl"
  | rgw => "rgw"
  | rgr => "rgr"
  | jmpa => "jmpa"
  | add => "add"

/-- The operation with a given number, if there is one. -/
def ofValue? (w : UInt16) : Option Opcode := all.find? fun op => op.value = w

theorem ofValue?_value (op : Opcode) : ofValue? op.value = some op := by
  cases op <;> rfl

theorem value_of_ofValue? {w : UInt16} {op : Opcode} (h : ofValue? w = some op) :
    op.value = w := by
  simpa using List.find?_some h

end Opcode

end StackAsm
