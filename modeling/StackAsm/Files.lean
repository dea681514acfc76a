import StackAsm.Path

/-!
# StackAsm.Files

Reading source files: what can go wrong, and a store of texts held in memory.
-/

namespace StackAsm

/-- Why a file cannot be read or written. -/
inductive FileError where
  /-- A store in memory has no file with this path. -/
  | absent
  /-- A component of the path does not exist. -/
  | notFound
  /-- The path goes on through something that is no directory. -/
  | notADirectory
  /-- The path leads to a directory. -/
  | isADirectory
  /-- The path, or one of its names, is too long. -/
  | nameTooLong
  /-- The file may not be written. -/
  | denied
  /-- The bytes of the file are no text. -/
  | notText
  /-- A path cannot hold a NUL character. -/
  | nulInName
  /-- Anything else, in the words of the system. -/
  | other (message : String)
deriving DecidableEq, Repr

/-- The error in words. -/
def FileError.message : FileError → String
  | absent => "no such file"
  | notFound => "No such file or directory (os error 2)"
  | notADirectory => "Not a directory (os error 20)"
  | isADirectory => "Is a directory (os error 21)"
  | nameTooLong => "File name too long (os error 36)"
  | denied => "Permission denied (os error 13)"
  | notText => "stream did not contain valid UTF-8"
  | nulInName => "file name contained an unexpected NUL byte"
  | other message => message

/-- Where source texts come from. -/
abbrev Loader := Path → Except FileError String

/-- Texts held in memory, the latest first. -/
structure Store where
  files : List (Path × String) := []

namespace Store

/-- Puts a text under a path; it hides what was there before. -/
def insert (store : Store) (path : Path) (text : String) : Store := ⟨(path, text) :: store.files⟩

/-- The latest text under the same path. -/
def load (store : Store) : Loader := fun path =>
  match store.files.find? fun entry => entry.1.same path with
  | some entry => .ok entry.2
  | none => .error .absent

end Store

end StackAsm
