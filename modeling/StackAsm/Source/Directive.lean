import Std.Data.TreeSet
import StackAsm.Files
import StackAsm.Source.Queue
import StackAsm.Text.Blank
import StackAsm.Warning

/-!
# StackAsm.Source.Directive

Lines that start with `#` steer the reading of the source itself.

* `#include path` pastes a file in at this place. The path is seen from the directory of the
  including file, and may stand in double quotes.
* `#ID tag` registers a *guard*. A file whose first line is such a line is pasted only if its tag is
  not registered yet; that line then registers it and is not read again.

A file may not be pasted into itself, and not more than `maxIncludeDepth` files deep. The tag of a
guarded file is registered before these two checks.
-/

namespace StackAsm

/-- Why a directive is refused. -/
inductive DirectiveError where
  | unknownDirective (name : String)
  | missingIncludePath
  | includeUnreadable (path : Path) (reason : FileError)
  | includeCycle (path : Path)
  | includeTooDeep (path : Path)
deriving DecidableEq, Repr

/-- The refusal in words. -/
def DirectiveError.message : DirectiveError → String
  | unknownDirective name => s!"Unknown directive '{name}'"
  | missingIncludePath => "Expected a path after 'include'"
  | includeUnreadable path reason =>
    s!"Could not read included file '{path.text}': {reason.message}"
  | includeCycle path => s!"File '{path.text}' includes itself without an #ID line"
  | includeTooDeep path =>
    s!"Including '{path.text}' nests more than {Text.decimal maxIncludeDepth} files deep"

/-! ### The text of a directive -/

namespace Directive

/-- The name and the argument of a directive: any number of `#` in front, then the name up to the
first blank, then the argument without its outer blanks. -/
def split (text : String) : String × String :=
  let (name, argument) := Text.splitWord ((Text.trimChars text.toList).dropWhile (· = '#'))
  (String.ofList name, String.ofList argument)

/-- The tag of a guard line: exactly one `#`, then `ID`, then the end or a blank. -/
def guardTag? (text : String) : Option String :=
  match Text.trimChars text.toList with
  | '#' :: 'I' :: 'D' :: rest =>
    match rest with
    | [] => some ""
    | c :: _ => if Text.isBlank c then some (String.ofList (Text.trimChars rest)) else none
  | _ => none

/-- Takes off a pair of double quotes; a quote at one end only is part of the text. -/
def unquote (text : String) : String :=
  match text.toList with
  | '"' :: rest => if rest.getLast? = some '"' then String.ofList rest.dropLast else text
  | _ => text

/-- The path that an include means in a file that is called so. -/
def targetPath (file target : String) : Path :=
  match (Path.ofText file).parent? with
  | some dir => dir.join target
  | none => target

/-- The file that a directive wants to have read, if it wants one. -/
def wanted? (line : Located String) : Option Path :=
  let (name, argument) := split line.val
  let target := unquote argument
  if name = "include" ∧ target ≠ "" then some (targetPath line.loc.file target) else none

end Directive

/-! ### Included files -/

/-- A file to be pasted: its guard tag, and its lines without the guard line. -/
structure Inclusion where
  path : Path
  tag : Option String
  body : List (Located String)
deriving DecidableEq, Repr

namespace Inclusion

/-- The file with the given lines. -/
def ofLines (path : Path) (lines : List (Located String)) : Inclusion :=
  match lines with
  | [] => ⟨path, none, []⟩
  | first :: rest =>
    match Directive.guardTag? first.val with
    | some tag => ⟨path, some tag, rest⟩
    | none => ⟨path, none, first :: rest⟩

/-- Reads the file that an include directive in `file` names. -/
def read (load : Loader) (file argument : String) : Except DirectiveError Inclusion :=
  let target := Directive.unquote argument
  if target = "" then .error .missingIncludePath
  else
    let path := Directive.targetPath file target
    match load path with
    | .error reason => .error (.includeUnreadable path reason)
    | .ok text => .ok (ofLines path (sourceLines path.text text))

end Inclusion

/-! ### Effects -/

/-- What a directive did. -/
inductive Effect where
  /-- A tag was registered. -/
  | registered (tag : String)
  /-- A guarded file was left out, because its tag was registered before. -/
  | skipped (path : Path)
  /-- A file was pasted in. -/
  | pasted (path : Path) (tag : Option String)
deriving DecidableEq, Repr

/-- A file that is pasted without a guard could be pasted again. -/
def Effect.warning? : Effect → Option Warning
  | pasted path none => some (.missingIncludeGuard path)
  | _ => none

/-- The source as far as it is not read yet: the lines to come and the tags registered so far. -/
structure Stream where
  queue : LineQueue := {}
  guards : Std.TreeSet String := ∅

namespace Stream

/-- Reads the next line. -/
def next? (s : Stream) : Option (Located String × Stream) :=
  s.queue.next?.map fun (line, queue) => (line, { s with queue })

/-- Registers a tag. -/
def register (s : Stream) (tag : String) : Stream := { s with guards := s.guards.insert tag }

/-- Registers a tag unless it is registered; says whether it was not. -/
def claim (s : Stream) (tag : String) : Bool × Stream :=
  if s.guards.contains tag then (false, s) else (true, s.register tag)

/-- The files that will be open below an include in `file`. -/
def chain (s : Stream) (file : String) : List Path := s.queue.includers ++ [.ofText file]

/-- Pastes a file in at the front, unless it is open already or too many files are. -/
def paste (s : Stream) (file : String) (inc : Inclusion) : Stream × Except DirectiveError Effect :=
  if (s.chain file).any (·.same inc.path) then (s, .error (.includeCycle inc.path))
  else if maxIncludeDepth ≤ (s.chain file).length then (s, .error (.includeTooDeep inc.path))
  else
    ({ s with queue := s.queue.splice inc.body (s.chain file) }, .ok (.pasted inc.path inc.tag))

/-- Handles a file that an include in `file` names. -/
def accept (s : Stream) (file : String) (inc : Inclusion) :
    Stream × Except DirectiveError Effect :=
  match inc.tag with
  | none => s.paste file inc
  | some tag =>
    let (isNew, s) := s.claim tag
    if isNew then s.paste file inc else (s, .ok (.skipped inc.path))

/-- Runs the directive on a line that was just read from the stream. -/
def directive (load : Loader) (line : Located String) (s : Stream) :
    Stream × Except DirectiveError Effect :=
  let (name, argument) := Directive.split line.val
  if name = "include" then
    match Inclusion.read load line.loc.file argument with
    | .error e => (s, .error e)
    | .ok inc => s.accept line.loc.file inc
  else if name = "ID" then (s.register argument, .ok (.registered argument))
  else (s, .error (.unknownDirective name))

/-- A file is left out if its tag is registered already, and is pasted otherwise. -/
theorem accept_eq_match (s : Stream) (file : String) (inc : Inclusion) :
    s.accept file inc =
      match inc.tag with
      | none => s.paste file inc
      | some tag =>
        if s.guards.contains tag then (s, .ok (.skipped inc.path))
        else (s.register tag).paste file inc := by
  unfold accept claim
  split
  · rfl
  · rename_i tag _
    by_cases hknown : s.guards.contains tag = true
    · simp only [hknown]
      rfl
    · simp only [if_neg hknown]
      rfl

/-- A directive asks for the file it wants and for no other. -/
theorem directive_congr {load load' : Loader} {line : Located String}
    (h : ∀ path, Directive.wanted? line = some path → load path = load' path) (s : Stream) :
    s.directive load line = s.directive load' line := by
  have same : (Directive.split line.val).1 = "include" →
      Inclusion.read load line.loc.file (Directive.split line.val).2 =
        Inclusion.read load' line.loc.file (Directive.split line.val).2 := by
    intro hname
    simp only [Inclusion.read]
    split
    · rfl
    · rename_i htarget
      rw [h _ (by simp [Directive.wanted?, hname, htarget])]
  unfold directive
  simp only
  split
  · rename_i hname
    rw [same hname]
  · rfl

/-! ### What reading and directives do to the lines to come -/

/-- Reading takes the first pending line and its include chain. -/
theorem next?_eq_some {s s' : Stream} {line : Located String} (h : s.next? = some (line, s')) :
    ∃ p rest, s.queue.pending = p :: rest ∧ line = p.line ∧
      s' = { s with queue := ⟨rest, p.includers⟩ } := by
  unfold next? LineQueue.next? at h
  split at h
  · cases h
  · rename_i p rest hp
    cases h
    exact ⟨p, rest, hp, rfl, rfl⟩

/-- Pasting leaves the lines to come alone, or puts lines of a longer chain in front of them. -/
theorem paste_pending (s : Stream) (file : String) (inc : Inclusion) :
    (s.paste file inc).1.queue.pending = s.queue.pending ∨
      ((s.chain file).length < maxIncludeDepth ∧
        (s.paste file inc).1.queue.pending =
          inc.body.map (fun line => ⟨line, s.chain file⟩) ++ s.queue.pending) := by
  unfold paste
  split
  · exact .inl rfl
  · split
    · exact .inl rfl
    · exact .inr ⟨by omega, rfl⟩

/-- A directive leaves the lines to come alone, or puts lines of a longer chain in front of them. -/
theorem directive_pending (load : Loader) (line : Located String) (s : Stream) :
    (s.directive load line).1.queue.pending = s.queue.pending ∨
      ∃ body : List (Located String), (s.chain line.loc.file).length < maxIncludeDepth ∧
        (s.directive load line).1.queue.pending =
          body.map (fun l => ⟨l, s.chain line.loc.file⟩) ++ s.queue.pending := by
  have included : ∀ inc : Inclusion,
      (s.accept line.loc.file inc).1.queue.pending = s.queue.pending ∨
        ∃ body : List (Located String), (s.chain line.loc.file).length < maxIncludeDepth ∧
          (s.accept line.loc.file inc).1.queue.pending =
            body.map (fun l => ⟨l, s.chain line.loc.file⟩) ++ s.queue.pending := by
    intro inc
    rw [accept_eq_match]
    split
    · exact (paste_pending s line.loc.file inc).imp_right fun h => ⟨inc.body, h⟩
    · split
      · exact .inl rfl
      · rename_i tag _ _
        exact (paste_pending (s.register tag) line.loc.file inc).imp_right fun h => ⟨inc.body, h⟩
  unfold directive
  simp only
  split
  · split
    · exact .inl rfl
    · exact included _
  · split <;> exact .inl rfl

end Stream

end StackAsm
