import StackAsm.Files

/-!
# StackAsm.Disk

Directories and files as a tree of names, and what opening a path in it finds.

A path is followed segment by segment, from the root or from the working directory. Every segment
but the last has to lead to a directory, and so has the one before a final `/`. Writing replaces or
creates exactly one file, in a directory that exists, or fails and changes nothing. It fails also
where it is not allowed.
-/

namespace StackAsm

/-- What a name in a directory stands for. -/
inductive DiskEntry where
  | directory
  | file (bytes : List UInt8)
deriving DecidableEq, Repr

/-- All directories and files, by the names on the way to them from the root. -/
structure Disk where
  /-- The entries, the latest first. -/
  entries : List (List FileName × DiskEntry) := []
  /-- The working directory. -/
  here : List FileName := []
  /-- Where no file can be written, whether there is one or not. -/
  sealed : List (List FileName) := []
deriving DecidableEq, Repr

namespace Disk

/-- The longest name, in bytes. -/
def maxName : Nat := 255

/-- The longest path, in bytes. -/
def maxPath : Nat := 4095

/-- What stands at a place; the root is always a directory. -/
def lookup? (disk : Disk) (place : List FileName) : Option DiskEntry :=
  if place = [] then some .directory
  else (disk.entries.find? fun e => e.1 = place).map Prod.snd

/-- Puts an entry at a place. -/
def put (disk : Disk) (place : List FileName) (entry : DiskEntry) : Disk :=
  { disk with entries := (place, entry) :: disk.entries.filter fun e => e.1 ≠ place }

/-! ### Following a path -/

/-- Refuses what is no path at all. -/
def checkPath (path : Path) : Except FileError Unit :=
  if path.bytes.contains 0 then .error .nulInName
  else if path.bytes = [] then .error .notFound
  else if maxPath < path.bytes.length then .error .nameTooLong
  else .ok ()

/-- The segments of a path. -/
def segments (path : Path) : List FileName := path.bytes.splitOn Path.slash

/-- Where following a path starts. -/
def start (disk : Disk) (path : Path) : List FileName := if path.isAbsolute then [] else disk.here

/-- Follows one segment. -/
def enter (disk : Disk) (place : List FileName) (segment : FileName) :
    Except FileError (List FileName) :=
  match disk.lookup? place with
  | none => .error .notFound
  | some (.file _) => .error .notADirectory
  | some .directory =>
    if segment = [] ∨ segment = [Path.dot] then .ok place
    else if segment = [Path.dot, Path.dot] then .ok place.dropLast
    else if maxName < segment.length then .error .nameTooLong
    else if (disk.lookup? (place ++ [segment])).isSome then .ok (place ++ [segment])
    else .error .notFound

/-- Follows segments. -/
def walk (disk : Disk) : List FileName → List FileName → Except FileError (List FileName)
  | place, [] => .ok place
  | place, segment :: rest => do disk.walk (← disk.enter place segment) rest

/-! ### Reading -/

/-- The bytes of the file at a path. -/
def read (disk : Disk) (path : Path) : Except FileError (List UInt8) := do
  checkPath path
  match disk.lookup? (← disk.walk (disk.start path) (segments path)) with
  | some (.file bytes) => return bytes
  | some .directory => throw .isADirectory
  | none => throw .notFound

/-- The text of the file at a path. -/
def load (disk : Disk) : Loader := fun path => do
  match String.fromUTF8? ⟨(← disk.read path).toArray⟩ with
  | some text => return text
  | none => throw .notText

/-! ### Writing -/

/-- The place of the file that writing to a path makes or replaces. -/
def target (disk : Disk) (path : Path) : Except FileError (List FileName) := do
  checkPath path
  let named := (segments path).filter (· ≠ [])
  match named.getLast? with
  | none => throw .isADirectory
  | some last =>
    if last = [Path.dot] ∨ last = [Path.dot, Path.dot] then
      let _ ← disk.walk (disk.start path) named
      throw .isADirectory
    else
      let place ← disk.walk (disk.start path) named.dropLast
      match disk.lookup? place with
      | some .directory =>
        if (segments path).getLast? = some [] then throw .isADirectory
        else if maxName < last.length then throw .nameTooLong
        else if disk.lookup? (place ++ [last]) = some .directory then throw .isADirectory
        else if disk.sealed.contains (place ++ [last]) then throw .denied
        else return place ++ [last]
      | some (.file _) => throw .notADirectory
      | none => throw .notFound

/-- Writes a file. -/
def write (disk : Disk) (path : Path) (bytes : List UInt8) : Except FileError Disk := do
  return disk.put (← disk.target path) (.file bytes)

/-! ### Making and comparing disks -/

/-- Makes a directory and those on the way to it. -/
def makeDirectory (disk : Disk) (place : List FileName) : Disk :=
  (List.range (place.length + 1)).foldl
    (fun disk n =>
      if (disk.lookup? (place.take n)).isSome then disk else disk.put (place.take n) .directory)
    disk

/-- Makes a file and the directories on the way to it. -/
def makeFile (disk : Disk) (place : List FileName) (bytes : List UInt8) : Disk :=
  (disk.makeDirectory place.dropLast).put place (.file bytes)

/-- The files below the working directory, each with the names on the way to it from there. -/
def files (disk : Disk) : List (List FileName × List UInt8) :=
  disk.entries.filterMap fun
    | (place, .file bytes) =>
      if disk.here.isPrefixOf place then some (place.drop disk.here.length, bytes) else none
    | (_, .directory) => none

/-- The files below the working directory that another disk does not hold with the same bytes. -/
def changes (before after : Disk) : List (List FileName × List UInt8) :=
  after.files.filter fun file => !before.files.contains file

end Disk

end StackAsm
