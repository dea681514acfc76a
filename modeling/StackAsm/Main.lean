import StackAsm.Cli.Command

/-!
# StackAsm.Main

The command line program. All decisions are made elsewhere; here files are read and written, and
reports are printed.
-/

namespace StackAsm.Cli

/-- The file error that a system error stands for. Some actions report the negated code. -/
def fileError (code : UInt32) (details : String) : FileError :=
  match min code.toNat (0 - code).toNat with
  | 2 => .notFound
  | 13 => .denied
  | 20 => .notADirectory
  | 21 => .isADirectory
  | 36 => .nameTooLong
  | n => .other (details ++ " (os error " ++ Text.decimal n ++ ")")

/-- The file error of a failed action. -/
def fileErrorOf : IO.Error → FileError
  | .noFileOrDirectory _ code details => fileError code details
  | .invalidArgument _ code details => fileError code details
  | .permissionDenied _ code details => fileError code details
  | .resourceExhausted _ code details => fileError code details
  | .inappropriateType _ code details => fileError code details
  | .noSuchThing _ code details => fileError code details
  | .alreadyExists _ code details => fileError code details
  | e => .other e.toString

/-- Runs an action on a file, unless its path is no path at all. -/
def onFile {α : Type} (path : Path) (action : IO α) : IO (Except FileError α) := do
  match Disk.checkPath path with
  | .error e => return .error e
  | .ok () =>
    try
      return .ok (← action)
    catch e =>
      return .error (fileErrorOf e)

/-- The bytes of a file. -/
def readBytes (path : Path) : IO (Except FileError ByteArray) :=
  onFile path (IO.FS.readBinFile path.text)

/-- The text of a file. -/
def readText (path : Path) : IO (Except FileError String) := do
  return (← readBytes path).bind fun bytes =>
    match String.fromUTF8? bytes with
    | some text => .ok text
    | none => .error .notText

/-- The first pass, with files read as the lines ask for them. A step depends on the files only
through the one it asks for (`Scanner.step_congr`), so it may be given the answer for that one
alone. -/
partial def scanFiles (opts : Options) (s : Scanner) (log : Array Event) : IO (Traced Scan) := do
  match s.stream.next? with
  | none => return ⟨log.toList, .ok s.scan⟩
  | some (line, stream) =>
    let answer ← match Scanner.wanted? line with
      | some path => readText path
      | none => pure (.error .notFound)
    let stepped := ({ s with stream } : Scanner).step (fun _ => answer) opts line
    match stepped.result with
    | .error e => return ⟨(log ++ stepped.events).toList, .error e⟩
    | .ok s => scanFiles opts s (log ++ stepped.events)

/-- Assembles a file. -/
def assembleOnDisk (opts : Options) (root : Path) : IO (Traced Assembly) := do
  match ← readText root with
  | .error reason => return .fail (.unreadable root reason)
  | .ok source =>
    let scanned ← scanFiles opts (.ofLines (sourceLines root.text source)) #[]
    return scanned >>= fun scan => scan.assemble opts

/-- Carries out `asm`. -/
def runAsm (command : AsmCommand) : IO Report := do
  let traced ← assembleOnDisk command.options command.input
  let report ← match traced.result with
    | .error e => pure (command.refused e)
    | .ok assembly =>
      let bytes : ByteArray := ⟨assembly.image.toBytes.toArray⟩
      match ← onFile command.target (IO.FS.writeBinFile command.target.text bytes) with
      | .error e => pure (command.unwritten e)
      | .ok () => pure (command.compiled assembly)
  return { report with log := command.told traced.events }

/-- Carries out `dump`. -/
def runDump (input : Path) : IO Report := do
  let bytes ← readBytes input
  return dumpReport input (imageOf (bytes.map fun raw => raw.data.toList))

/-- How the program is called. -/
def usage : String :=
  "usage: asm <in> [out] [--entry-point LABEL] [--no-automatic-main] [--stack-size N] [-v]\n" ++
    "       dump <in>\n"

end StackAsm.Cli

open StackAsm.Cli in
/-- Runs the command that the arguments ask for. -/
def main (args : List String) : IO UInt32 := do
  match parseCommand args with
  | .error e =>
    if e.exitCode = 0 then IO.print usage else IO.eprint usage
    return e.exitCode
  | .ok command =>
    let report ← match command with
      | .asm command => runAsm command
      | .dump input => runDump input
    for event in report.log do
      IO.eprintln event.message
    IO.eprint report.stderr
    IO.print report.stdout
    return report.exitCode
