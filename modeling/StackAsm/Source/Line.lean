import StackAsm.Text.Blank

/-!
# StackAsm.Source.Line

What a source line is. Blanks around a line never matter. After that the first rule that applies
decides: nothing left is a blank line, `//` starts a comment, `#` starts a directive, a final `:`
makes a label declaration, and all else is an instruction, a mnemonic and its operand.
-/

namespace StackAsm

/-- A source line by its form. -/
inductive Line where
  | blank
  | comment
  | directive
  /-- A declaration of `name`, which may be empty and may hold blanks. -/
  | label (name : String)
  /-- An instruction; `operand` is empty or has no blanks at its ends. -/
  | instruction (mnemonic operand : String)
deriving DecidableEq, Repr

namespace Line

/-- The form of a line whose outer blanks are gone. -/
def ofTrimmed (cs : List Char) : Line :=
  if cs = [] then .blank
  else if ['/', '/'].isPrefixOf cs then .comment
  else if ['#'].isPrefixOf cs then .directive
  else if cs.getLast? = some ':' then .label (String.ofList cs.dropLast)
  else
    let (mnemonic, operand) := Text.splitWord cs
    .instruction (String.ofList mnemonic) (String.ofList operand)

/-- The form of a line. -/
def classify (text : String) : Line := ofTrimmed (Text.trimChars text.toList)

end Line

end StackAsm
