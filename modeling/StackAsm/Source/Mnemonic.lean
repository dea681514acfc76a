import StackAsm.Source.Operand
import StackAsm.Source.Segment
import StackAsm.Warning

/-!
# StackAsm.Source.Mnemonic

The instructions of the source language and the code they stand for.

Nine mnemonics are the operations of the machine, one unit each. Three are short for runs of them:
`jmpl` jumps to a label, `jmpr` does so after saving in `R7` the address just past itself, and `ret`
jumps to the address in `R7`.
-/

namespace StackAsm

/-- The instructions of the source language. -/
inductive Mnemonic where
  | nop | hlt
  | sl | spop | llbl
  | rgw | rgr
  | jmpa
  | add
  | jmpl | jmpr | ret
deriving DecidableEq, Repr

/-- The code of one instruction, and what there is to remark on it. -/
structure Encoded where
  segments : List Segment
  warnings : List Warning := []
deriving DecidableEq, Repr

namespace Mnemonic

/-- All mnemonics, in alphabetical order of their names. -/
def all : List Mnemonic := [add, hlt, jmpa, jmpl, jmpr, llbl, nop, ret, rgr, rgw, sl, spop]

/-- The spelling of a mnemonic. -/
def name : Mnemonic → String
  | nop => "nop"
  | hlt => "hlt"
  | sl => "sl"
  | spop => "spop"
  | llbl => "llbl"
  | rgw => "rgw"
  | rgr => "rgr"
  | jmpa => "jmpa"
  | add => "add"
  | jmpl => "jmpl"
  | jmpr => "jmpr"
  | ret => "ret"

/-- The mnemonic with a given spelling; case matters. -/
def ofName? (text : String) : Option Mnemonic := all.find? fun m => m.name = text

theorem ofName?_name (m : Mnemonic) : ofName? m.name = some m := by
  cases m <;> decide +kernel

/-! ### Runs of segments -/

/-- Pushes the address of a label. -/
def loadLabel (label : String) : List Segment := [.opcode .llbl, .label label]

/-- Jumps to a label. -/
def jump (label : String) : List Segment := loadLabel label ++ [.unit .jmpa 0]

/-- What `jmpr` adds to the address following `rgr PC`: the width of all the rest of its code, so
that the saved address is the one just past it. -/
def returnOffset (label : String) : Nat :=
  CodeUnit.width + (Segment.unit .rgw Register.r7.index).width + Segment.totalWidth (jump label)

/-- Saves the address just past this code in `R7` and jumps to a label. -/
def call (label : String) : List Segment :=
  [.unit .rgr Register.pc.index, .unit .add (UInt16.ofNat (returnOffset label)),
    .unit .rgw Register.r7.index] ++ jump label

/-- Jumps to the address in `R7`. -/
def back : List Segment := [.unit .rgr Register.r7.index, .unit .jmpa 0]

/-! ### Encoding -/

/-- An addition without operand takes both addends from the stack, and is encoded as an addition of
zero. So a literal zero cannot mean what it says. -/
def encodeAdd (operand : String) : Except OperandError Encoded :=
  if operand = "" then .ok ⟨[.unit .add 0], []⟩
  else do
    let w ← Operand.literal operand
    return ⟨[.unit .add w], if w = 0 then [.addZeroReadsStack] else []⟩

/-- The code of an instruction with its operand. -/
def encode (m : Mnemonic) (operand : String) : Except OperandError Encoded :=
  match m with
  | nop => do Operand.absent operand; return ⟨[.unit .nop 0], []⟩
  | hlt => do Operand.absent operand; return ⟨[.unit .hlt 0], []⟩
  | sl => do return ⟨[.unit .sl (← Operand.literal operand)], []⟩
  | spop =>
    if operand = "" then .ok ⟨[.unit .spop 1], []⟩
    else do return ⟨[.unit .spop (← Operand.literal operand)], []⟩
  | llbl => do return ⟨loadLabel (← Operand.label operand), []⟩
  | rgw => do return ⟨[.unit .rgw (← Operand.register operand).index], []⟩
  | rgr => do return ⟨[.unit .rgr (← Operand.register operand).index], []⟩
  | jmpa => do Operand.absent operand; return ⟨[.unit .jmpa 0], []⟩
  | add => encodeAdd operand
  | jmpl => do return ⟨jump (← Operand.label operand), []⟩
  | jmpr => do return ⟨call (← Operand.label operand), []⟩
  | ret => do Operand.absent operand; return ⟨back, []⟩

end Mnemonic

end StackAsm
