import StackAsm.Assembly
import StackAsm.Cli.Arguments
import StackAsm.Disk
import StackAsm.Listing

/-!
# StackAsm.Cli.Command

What the commands do on a disk, and what they print.

`asm` is all or nothing: unless the whole program assembles, no file is touched. `dump` only reads.
-/

namespace StackAsm.Cli

/-- What a command prints and how it ends. -/
structure Report where
  exitCode : UInt32
  stdout : String := ""
  stderr : String := ""
  /-- What a verbose command tells about its work. -/
  log : List Event := []
deriving DecidableEq, Repr

/-- A word in bold, in one of the terminal's colours. -/
def paint (colour : String) (word : String) : String :=
  "\x1b[1;" ++ colour ++ "m" ++ word ++ "\x1b[0m"

/-- The line of an error. -/
def errorLine (message : String) : String := paint "31" "error" ++ ": " ++ message ++ "\n"

/-- The line of a warning. -/
def warningLine (w : Located Warning) : String :=
  paint "33" "warning" ++ ": " ++ w.render Warning.message ++ "\n"

/-- A command that failed. -/
def Report.failure (message : String) : Report := { exitCode := 1, stderr := errorLine message }

/-- Where the image goes unless the caller says so: a name in the working directory, the stem of the
source with the extension `klb`. An extension that the stem itself has is replaced. -/
def defaultOutput (source : Path) : Path :=
  ⟨Path.withExtension (source.stem?.getD (Text.encode "out")) (Text.encode "klb")⟩

namespace AsmCommand

/-- Where the image goes. -/
def target (command : AsmCommand) : Path := command.output.getD (defaultOutput command.input)

/-- The events that are told. -/
def told (command : AsmCommand) (events : List Event) : List Event :=
  if command.verbose then events.filter fun e => !e.isDetail else []

/-- The report on a program that is refused. -/
def refused (command : AsmCommand) (e : AssemblyError) : Report :=
  .failure s!"failed to assemble '{command.input.text}': {e.message}"

/-- The report on an image that cannot be written. -/
def unwritten (command : AsmCommand) (e : FileError) : Report :=
  .failure s!"failed to write '{command.target.text}': {e.message}"

/-- The report on an image that is written. -/
def compiled (command : AsmCommand) (assembly : Assembly) : Report where
  exitCode := 0
  stdout := paint "32" "compiled" ++
    s!" '{command.target.text}', written {Text.decimal assembly.image.size} bytes\n"
  stderr := String.join (assembly.warnings.map warningLine)

/-- Assembles a file on a disk and writes the image. -/
def run (command : AsmCommand) (disk : Disk) : Report × Disk :=
  let traced := assembleFile disk.load command.options command.input
  let (report, disk) :=
    match traced.result with
    | .error e => (command.refused e, disk)
    | .ok assembly =>
      match disk.write command.target assembly.image.toBytes with
      | .error e => (command.unwritten e, disk)
      | .ok disk => (command.compiled assembly, disk)
  ({ report with log := command.told traced.events }, disk)

end AsmCommand

/-! ### Listing a file -/

/-- Why a file cannot be listed. -/
inductive DumpError where
  | unreadable (reason : FileError)
  | malformed (reason : Image.ReadError)
deriving DecidableEq, Repr

/-- Reads the bytes of a file as an image. -/
def imageOf (bytes : Except FileError (List UInt8)) : Except DumpError Image :=
  match bytes with
  | .error e => .error (.unreadable e)
  | .ok raw => (Image.ofBytes raw).mapError .malformed

/-- The report on a file to be listed. -/
def dumpReport (input : Path) : Except DumpError Image → Report
  | .error (.unreadable e) => .failure s!"failed to read '{input.text}': {e.message}"
  | .error (.malformed e) => .failure s!"failed to load '{input.text}': {e.message}"
  | .ok image => { exitCode := 0, stdout := image.listing }

/-- Runs a command on a disk. -/
def Command.run (command : Command) (disk : Disk) : Report × Disk :=
  match command with
  | .asm command => command.run disk
  | .dump input => (dumpReport input (imageOf (disk.read input)), disk)

end StackAsm.Cli
