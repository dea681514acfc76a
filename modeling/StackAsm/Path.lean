import StackAsm.Text.Utf8

/-!
# StackAsm.Path

File paths as bytes with `/` between segments.

A path keeps the bytes it was written with: joining and taking a parent never fold `.` or `..`. Two
paths are *the same* when their components agree: empty segments and inner `.` segments do not
count, a leading `.` does.

Not every path is a text. What is printed for a path, and what a line of its file is located in, is
`Path.text`, where bytes that are no text are replaced. Different paths can have the same text.
-/

namespace StackAsm

/-- A name in a directory. -/
abbrev FileName := List UInt8

/-- A file path, kept as written. -/
structure Path where
  bytes : List UInt8
deriving DecidableEq, Repr, Inhabited

namespace Path

/-- The path that a text spells. -/
def ofText (text : String) : Path := ⟨Text.encode text⟩

instance : Coe String Path := ⟨ofText⟩

/-- What a path is called. -/
def text (p : Path) : String := Text.decode p.bytes

/-- The byte of `/`. -/
@[match_pattern] def slash : UInt8 := 0x2F

/-- The byte of `.`. -/
@[match_pattern] def dot : UInt8 := 0x2E

/-- What a path is made of. -/
inductive Component where
  /-- The `/` that an absolute path starts with. -/
  | root
  /-- A `.` at the very start of a relative path. -/
  | current
  /-- A `..`. -/
  | parent
  /-- Any other name. -/
  | name (name : FileName)
deriving DecidableEq, Repr

/-- How a path starts, and the segments of what follows. -/
structure Layout where
  /-- `/`, a leading `.`, or nothing. -/
  start : List UInt8
  /-- The segments after the start, empty ones and `.` included. -/
  segments : List FileName

/-- Takes a path apart at its start and at its slashes. -/
def layout (p : Path) : Layout :=
  match p.bytes with
  | slash :: rest => ⟨[slash], rest.splitOn slash⟩
  | [dot] => ⟨[dot], []⟩
  | dot :: slash :: rest => ⟨[dot], (slash :: rest).splitOn slash⟩
  | bytes => ⟨[], bytes.splitOn slash⟩

/-- Empty segments and `.` name no component. -/
def counts (segment : FileName) : Bool := segment ≠ [] && segment ≠ [dot]

/-- The component that a segment names. -/
def Component.ofSegment (segment : FileName) : Component :=
  if segment = [dot, dot] then .parent else .name segment

/-- The component that the start of a path names. -/
def Component.ofStart : List UInt8 → List Component
  | [slash] => [.root]
  | [dot] => [.current]
  | _ => []

/-- The components of a path, in order. -/
def components (p : Path) : List Component :=
  Component.ofStart p.layout.start ++ (p.layout.segments.filter counts).map Component.ofSegment

/-- Whether two paths have the same components. -/
def same (p q : Path) : Bool := p.components = q.components

/-- An absolute path starts with `/`. -/
def isAbsolute (p : Path) : Bool := p.bytes.head? = some slash

/-- Puts a start and segments back together. -/
def ofLayout (start : List UInt8) (segments : List FileName) : Path :=
  ⟨start ++ [slash].intercalate segments⟩

/-- Drops the segments at the end that name no component. -/
def dropIdle (segments : List FileName) : List FileName :=
  (segments.reverse.dropWhile fun s => !counts s).reverse

/-- The path without its last component, and without the separators and `.` segments around it. The
empty path and `/` have no parent. -/
def parent? (p : Path) : Option Path :=
  let l := p.layout
  let segments := dropIdle l.segments
  if segments = [] then
    if l.start = [dot] then some ⟨[]⟩ else none
  else
    some (ofLayout l.start (dropIdle segments.dropLast))

/-- A target seen from a directory: an absolute target stands for itself, and one `/` is put between
unless the directory is empty or already ends in one. -/
def join (dir target : Path) : Path :=
  if target.isAbsolute then target
  else match dir.bytes.getLast? with
    | none => target
    | some slash => ⟨dir.bytes ++ target.bytes⟩
    | some _ => ⟨dir.bytes ++ slash :: target.bytes⟩

/-! ### File names -/

/-- The last component, if it is a name. -/
def fileName? (p : Path) : Option FileName :=
  match p.components.getLast? with
  | some (.name name) => some name
  | _ => none

/-- A file name without its last extension. A dot at the very front starts no extension. -/
def stemOf (name : FileName) : FileName :=
  match name.reverse.dropWhile (· ≠ dot) with
  | [] => name
  | _ :: front => if front = [] then name else front.reverse

/-- The file name without its last extension. -/
def stem? (p : Path) : Option FileName := p.fileName?.map stemOf

/-- A name cut right after the dot of its last extension. A name without an extension stays
whole. -/
def cutExtension (name : FileName) : FileName :=
  if stemOf name = name then name else stemOf name ++ [dot]

/-- A name with its last extension replaced, or with one added. The old extension is cut off first,
and what is left takes the new one if it can be the name of a file: `.` and `..` are directories and
stay as they are. -/
def withExtension (name extension : FileName) : FileName :=
  let rest := cutExtension name
  if rest = [dot] ∨ rest = [dot, dot] then rest else stemOf rest ++ dot :: extension

end Path

end StackAsm
