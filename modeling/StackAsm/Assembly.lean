import StackAsm.Resolution

/-!
# StackAsm.Assembly

From source text to a binary image.
-/

namespace StackAsm

/-- An assembled program. -/
structure Assembly where
  image : Image
  warnings : List (Located Warning)
deriving DecidableEq, Repr

/-- What a source is called that is no file. -/
def inlineSource : String := "<input>"

/-- Makes the image of a program that is scanned. -/
def Scan.assemble (scan : Scan) (opts : Options) : Traced Assembly := do
  let (settled, resolving) := scan.settle opts
  let resolved ← resolving
  let image ← resolved.image settled.symbols opts
  return ⟨image, settled.warnings.toList⟩

/-- Assembles the lines of an outermost file. -/
def assembleLines (load : Loader) (opts : Options) (lines : List (Located String)) :
    Traced Assembly := do
  let scan ← scanLines load opts lines
  scan.assemble opts

/-- Assembles a source text that is no file. -/
def assembleText (load : Loader) (opts : Options) (source : String) : Traced Assembly :=
  assembleLines load opts (sourceLines inlineSource source)

/-- Assembles a file and all that it includes. Its lines are located in what its path is called, and
what they include is looked up from there. -/
def assembleFile (load : Loader) (opts : Options) (root : Path) : Traced Assembly :=
  match load root with
  | .error reason => .fail (.unreadable root reason)
  | .ok source => assembleLines load opts (sourceLines root.text source)

end StackAsm
