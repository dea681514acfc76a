import StackAsm.Source.Directive
import StackAsm.Source.Operand

/-!
# StackAsm.Error

Why a program is refused, and the words for it.
-/

namespace StackAsm

/-- Why a label or an instruction is refused. -/
inductive ScanError where
  /-- An instruction stands before every label. -/
  | noLabel
  | emptyLabelName
  | tooManyLabels
  | codeTooLarge
  /-- No instruction has this name. -/
  | unknownInstruction (name label : String)
  /-- The instruction does not take this operand. -/
  | invalidInstruction (name label : String) (reason : OperandError)
deriving DecidableEq, Repr

/-- The refusal in words. -/
def ScanError.message : ScanError → String
  | noLabel => "No label specified"
  | emptyLabelName => "Label names must have nonzero length"
  | tooManyLabels => "Too many labels for 16-bit label ids"
  | codeTooLarge => "Code section exceeds 32-bit addressing"
  | unknownInstruction name label => s!"In label '{label}': unknown instruction '{name}'"
  | invalidInstruction name label reason =>
    s!"In label '{label}': instruction '{name}': {reason.message}"

/-- Why a program is refused. -/
inductive AssemblyError where
  /-- The outermost file cannot be read. -/
  | unreadable (path : Path) (reason : FileError)
  | directive (cause : Located DirectiveError)
  | scan (cause : Located ScanError)
  /-- An instruction refers to a label that is declared nowhere. -/
  | unknownLabel (name : Located String)
  /-- The label at which execution starts is declared nowhere. -/
  | missingEntryPoint (name : String)
deriving DecidableEq, Repr

namespace AssemblyError

/-- The part of the assembler that refuses the program. -/
def origin : AssemblyError → String
  | unreadable _ _ => "Reader"
  | directive _ => "Preprocessor"
  | scan _ => "Generator"
  | unknownLabel _ => "Resolver"
  | missingEntryPoint _ => "Resolver"

/-- The cause in words. -/
def detail : AssemblyError → String
  | unreadable path reason => s!"Could not read '{path.text}': {reason.message}"
  | directive cause => cause.render DirectiveError.message
  | scan cause => cause.render ScanError.message
  | unknownLabel name => name.render fun label => s!"Unknown label '{label}'"
  | missingEntryPoint name => s!"Could not find entry point label '{name}'"

/-- The error in words. -/
def message (e : AssemblyError) : String := s!"Assembly Error (in {e.origin}): {e.detail}"

/-- Where in the source the error lies, if it lies in a line. -/
def location? : AssemblyError → Option Location
  | unreadable _ _ => none
  | directive cause => some cause.loc
  | scan cause => some cause.loc
  | unknownLabel name => some name.loc
  | missingEntryPoint _ => none

end AssemblyError

end StackAsm
