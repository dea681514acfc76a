import StackAsm.Path
import StackAsm.Text.Lines
import StackAsm.Text.Number

/-!
# StackAsm.Source.Location

Where things stand in the source: a file and a line in it, counted from one.

A file is called by the text of its path. If the path is no text, then this is not the path itself.
-/

namespace StackAsm

/-- A line of a file. -/
structure Location where
  /-- What the file is called. -/
  file : String
  line : Nat
deriving DecidableEq, Repr, Inhabited

/-- The text `file:line`. -/
def Location.render (loc : Location) : String := loc.file ++ ":" ++ Text.decimal loc.line

/-- A value together with the place it comes from. -/
structure Located (α : Type) where
  loc : Location
  val : α
deriving DecidableEq, Repr

namespace Located

/-- The text `file:line: value`. -/
def render {α : Type} (text : α → String) (x : Located α) : String :=
  x.loc.render ++ ": " ++ text x.val

end Located

/-- The lines of a text, each with its place in the file that the text comes from. -/
def sourceLines (file : String) (text : String) : List (Located String) :=
  (Text.lines text).mapIdx fun i line => ⟨⟨file, i + 1⟩, line⟩

end StackAsm
