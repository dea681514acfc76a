import StackAsm.Path

/-!
# StackAsm.Warning

What the assembler remarks on without refusing the program.
-/

namespace StackAsm

/-- A remark on the program. -/
inductive Warning where
  /-- A label is declared again; the earlier declaration can no longer be referred to. -/
  | labelRedefined (name : String)
  /-- An instruction stands before every label, so a label is declared for it. -/
  | automaticMain (name : String)
  /-- A file without a guard line is pasted in. -/
  | missingIncludeGuard (path : Path)
  /-- No instruction refers to a label, and execution does not start there. -/
  | unusedLabel (name : String)
  /-- `add` with a literal zero, which means something else than adding zero. -/
  | addZeroReadsStack
deriving DecidableEq, Repr

/-- The warning in words. -/
def Warning.message : Warning → String
  | labelRedefined name =>
    s!"Redefined label '{name}', code under the old definition is unreachable through it"
  | automaticMain name =>
    s!"No label specified, assuming '{name}' (pass --no-automatic-main to disable this)"
  | missingIncludeGuard path =>
    s!"Included file '{path.text}' has no #ID line, it could be included more than once"
  | unusedLabel name => s!"Unused label '{name}'"
  | addZeroReadsStack => "'add 0' is encoded as the stack-operand form, it does not add zero"

end StackAsm
