import StackAsm.Machine.CodeUnit

/-!
# StackAsm.Source.Segment

The pieces of a code section whose label ids are still open.

A label reference takes two bytes whatever id it gets, so the width of a segment, and with it every
address, is known before any label is.
-/

namespace StackAsm

/-- A piece of the code section. -/
inductive Segment where
  /-- Bytes that are final. -/
  | bytes (raw : List UInt8)
  /-- The id of a label, to be filled in once all labels are declared. -/
  | label (name : String)
deriving DecidableEq, Repr

namespace Segment

/-- A whole unit. -/
def unit (op : Opcode) (operand : UInt16) : Segment := .bytes (CodeUnit.encode op operand)

/-- The first half of a unit, whose operand is another segment. -/
def opcode (op : Opcode) : Segment := .bytes (BigEndian.bytes16 op.value)

/-- The bytes that a segment takes in the code section. -/
def width : Segment → Nat
  | bytes raw => raw.length
  | label _ => 2

/-- The label that a segment refers to. -/
def reference? : Segment → Option String
  | bytes _ => none
  | label name => some name

/-- The bytes that a list of segments takes in the code section. -/
def totalWidth : List Segment → Nat
  | [] => 0
  | s :: segments => s.width + totalWidth segments

@[simp] theorem totalWidth_nil : totalWidth [] = 0 := rfl

@[simp] theorem totalWidth_cons (s : Segment) (segments : List Segment) :
    totalWidth (s :: segments) = s.width + totalWidth segments := rfl

theorem totalWidth_append (xs ys : List Segment) :
    totalWidth (xs ++ ys) = totalWidth xs + totalWidth ys := by
  induction xs with
  | nil => simp
  | cons s xs ih => rw [List.cons_append, totalWidth_cons, ih, totalWidth_cons, Nat.add_assoc]

end Segment

end StackAsm
