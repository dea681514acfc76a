import StackAsm.Machine.Register
import StackAsm.Source.Literal

/-!
# StackAsm.Source.Operand

The text after a mnemonic, read as a literal, a label or a register.
-/

namespace StackAsm

/-- What an instruction may want as its operand. -/
inductive OperandKind where
  | literal
  | label
  | register
deriving DecidableEq, Repr

/-- The name of a kind of operand. -/
def OperandKind.name : OperandKind → String
  | literal => "literal"
  | label => "label"
  | register => "register"

/-- Why an operand is refused. -/
inductive OperandError where
  | malformedLiteral (text : String) (fault : LiteralFault)
  | unknownRegister (name : String)
  | missing (kind : OperandKind)
  | unexpected (text : String)
deriving DecidableEq, Repr

/-- The refusal in words. -/
def OperandError.message : OperandError → String
  | malformedLiteral text fault => s!"Malformed literal '{text}': {fault.message}"
  | unknownRegister name => s!"Unknown register '{name}'"
  | missing kind => s!"Expected {kind.name} operand"
  | unexpected text => s!"Unexpected operand '{text}'"

namespace Operand

/-- There must be no operand. -/
def absent (text : String) : Except OperandError Unit :=
  if text = "" then .ok () else .error (.unexpected text)

/-- A word. Blanks around it do not matter. -/
def literal (text : String) : Except OperandError UInt16 :=
  let cs := Text.trimChars text.toList
  if cs = [] then .error (.missing .literal)
  else (Literal.parse cs).mapError (.malformedLiteral (String.ofList cs))

/-- A label is any text but the empty one. -/
def label (text : String) : Except OperandError String :=
  if text = "" then .error (.missing .label) else .ok text

/-- The name of a register. -/
def register (text : String) : Except OperandError Register :=
  if text = "" then .error (.missing .register)
  else match Register.ofName? text with
    | some r => .ok r
    | none => .error (.unknownRegister text)

end Operand

end StackAsm
