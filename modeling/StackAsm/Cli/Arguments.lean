import StackAsm.Cli.Similarity
import StackAsm.Options
import StackAsm.Path
import StackAsm.Source.Literal

/-!
# StackAsm.Cli.Arguments

The command line: `asm in [out]` with its options, and `dump in`.

Options may stand anywhere, as `--name value` or `--name=value`, and `--` ends them. Arguments are
looked at from left to right, and the first one that is unknown, or asks for help, decides. Only
when all are known is it checked that the required ones are there and that the values make sense.

Arguments are texts here, so that a command names no path that is not one.
-/

namespace StackAsm.Cli

/-- Why no command is run. -/
inductive UsageError where
  | missingRequiredArgument
  | unknownArgument
  | valueValidation
  | unexpectedMultipleUsage
  | missingArgumentOrSubcommand
  /-- An unknown subcommand that looks like a known one. -/
  | invalidSubcommand
  /-- Help is asked for on an unknown subcommand. -/
  | unrecognizedSubcommand
  | helpDisplayed
  | versionDisplayed
deriving DecidableEq, Repr

/-- Asking for help or for the version is no failure. -/
def UsageError.exitCode : UsageError → UInt32
  | helpDisplayed => 0
  | versionDisplayed => 0
  | _ => 1

/-- An option without a value. -/
structure Flag where
  long : String
  short : Option Char
deriving DecidableEq, Repr

/-- The arguments that a command takes. -/
structure Grammar where
  flags : List Flag := []
  /-- The options with a value. -/
  options : List String := []
  /-- How many other arguments there may be. -/
  positionals : Nat := 0

/-- The arguments that were found. -/
structure Arguments where
  /-- The flags, each time they are given. -/
  flags : List String := []
  /-- The options, each time they are given, with their values if there are any. -/
  options : List (String × Option String) := []
  positionals : List String := []

/-- Arguments under way. -/
structure ArgumentState where
  found : Arguments := {}
  /-- The option whose value may come next. -/
  pending : Option String := none
  /-- Whether `--` was given. -/
  ended : Bool := false

namespace Grammar

/-- Notes a flag, or ends in what it asks for. -/
def flag (g : Grammar) (state : ArgumentState) (isMeant : Flag → Bool) :
    Except UsageError ArgumentState :=
  if isMeant ⟨"help", some 'h'⟩ then .error .helpDisplayed
  else if isMeant ⟨"version", some 'V'⟩ then .error .versionDisplayed
  else match g.flags.find? isMeant with
    | none => .error .unknownArgument
    | some flag =>
      .ok { state with pending := none, found.flags := state.found.flags ++ [flag.long] }

/-- Takes `--name` or `--name=value`. All dashes in front, and all `=` before a value, are dropped;
a value after a flag is ignored. -/
def long (g : Grammar) (state : ArgumentState) (arg : List Char) :
    Except UsageError ArgumentState :=
  let body := arg.dropWhile (· = '-')
  let name := String.ofList (body.takeWhile (· ≠ '='))
  if g.options.contains name then
    if body.contains '=' then
      let value := String.ofList ((body.dropWhile (· ≠ '=')).dropWhile (· = '='))
      .ok { state with
        pending := none, found.options := state.found.options ++ [(name, some value)] }
    else .ok { state with pending := some name }
  else g.flag state fun flag => flag.long = name

/-- Takes the letters of `-abc` one after another. -/
def short (g : Grammar) (state : ArgumentState) (arg : List Char) :
    Except UsageError ArgumentState :=
  (arg.dropWhile (· = '-')).foldlM
    (fun state c => g.flag state fun flag => flag.short = some c) state

/-- Takes an argument that is no option. -/
def positional (g : Grammar) (state : ArgumentState) (arg : String) :
    Except UsageError ArgumentState :=
  if state.found.positionals.length < g.positionals then
    .ok { state with found.positionals := state.found.positionals ++ [arg] }
  else .error .unknownArgument

/-- Notes that the option whose value may have come next goes without one. -/
def settle (state : ArgumentState) : ArgumentState :=
  match state.pending with
  | none => state
  | some name =>
    { state with pending := none, found.options := state.found.options ++ [(name, none)] }

/-- Takes the next argument. -/
def next (g : Grammar) (state : ArgumentState) (arg : String) :
    Except UsageError ArgumentState :=
  if state.ended then g.positional state arg
  else match arg.toList with
    | ['-', '-'] => .ok { settle state with ended := true }
    | '-' :: '-' :: _ => g.long (settle state) arg.toList
    | '-' :: _ :: _ => g.short (settle state) arg.toList
    | _ =>
      match state.pending with
      | some name =>
        .ok { state with
          pending := none, found.options := state.found.options ++ [(name, some arg)] }
      | none => g.positional state arg

/-- Takes all arguments. -/
def parse (g : Grammar) (args : List String) : Except UsageError Arguments := do
  return (settle (← args.foldlM g.next {})).found

end Grammar

namespace Arguments

/-- The last value given for an option. -/
def value? (found : Arguments) (name : String) : Option String :=
  (found.options.filterMap fun o => if o.1 = name then o.2 else none).getLast?

/-- Whether a flag is given. -/
def has (found : Arguments) (name : String) : Bool := found.flags.contains name

/-- Refuses flags and options that are given more than once. -/
def checkOnce (found : Arguments) : Except UsageError Unit :=
  if (found.flags ++ found.options.map Prod.fst).Nodup then .ok ()
  else .error .unexpectedMultipleUsage

end Arguments

/-! ### Commands -/

/-- Assembles a file. -/
structure AsmCommand where
  input : Path
  output : Option Path
  options : Options
  verbose : Bool
deriving DecidableEq, Repr

/-- What to do. -/
inductive Command where
  | asm (command : AsmCommand)
  | dump (input : Path)
deriving DecidableEq, Repr

/-- A decimal word, perhaps with a plus sign. -/
def wordOfDecimal? (text : String) : Option UInt16 :=
  let digits := match text.toList with
    | '+' :: digits => digits
    | digits => digits
  if digits = [] then none
  else match Literal.readDigits 10 0 digits with
    | .ok n => some (UInt16.ofNat n)
    | .error _ => none

/-- The arguments of `asm`. -/
def asmGrammar : Grammar where
  flags := [⟨"no-automatic-main", none⟩, ⟨"verbose", some 'v'⟩]
  options := ["entry-point", "stack-size"]
  positionals := 2

/-- The arguments of `dump`. -/
def dumpGrammar : Grammar where
  positionals := 1

/-- Reads the arguments of `asm`. -/
def parseAsm (args : List String) : Except UsageError AsmCommand := do
  let found ← asmGrammar.parse args
  match found.positionals with
  | [] => throw .missingRequiredArgument
  | input :: rest =>
    let defaults : Options := {}
    match (found.options.filterMap fun o => if o.1 = "stack-size" then o.2 else none).mapM
        wordOfDecimal? with
    | none => throw .valueValidation
    | some sizes =>
      found.checkOnce
      return {
        input := .ofText input
        output := rest.head?.map Path.ofText
        options := {
          entryPoint := (found.value? "entry-point").getD defaults.entryPoint
          automaticMain := !found.has "no-automatic-main"
          stackSize := sizes.getLast?.getD defaults.stackSize }
        verbose := found.has "verbose" }

/-- Reads the arguments of `dump`. -/
def parseDump (args : List String) : Except UsageError Path := do
  let found ← dumpGrammar.parse args
  match found.positionals with
  | [] => throw .missingRequiredArgument
  | input :: _ => return .ofText input

/-- The words that may come first. -/
def subcommands : List String := ["asm", "dump", "help"]

/-- What is wrong with a word that should be a subcommand and is none. -/
def subcommandError (word : String) : UsageError :=
  if subcommands.any (isLike word) then .invalidSubcommand else .unknownArgument

/-- What asking for help on some words ends in. -/
def helpError : List String → UsageError
  | [] => .helpDisplayed
  | [word] => if subcommands.contains word then .helpDisplayed else .unrecognizedSubcommand
  | _ => .unrecognizedSubcommand

/-- Reads a command line that starts with a subcommand. -/
def parseCommand : List String → Except UsageError Command
  | [] => .error .missingArgumentOrSubcommand
  | "asm" :: args => (parseAsm args).map .asm
  | "dump" :: args => (parseDump args).map .dump
  | "help" :: words => .error (helpError words)
  | "--" :: [] => .error .missingArgumentOrSubcommand
  | "--" :: word :: _ => .error (subcommandError word)
  | word :: _ =>
    match word.toList with
    | '-' :: _ :: _ =>
      -- Only help and version are known here, and neither leads to a command.
      match ({} : Grammar).next {} word with
      | .error e => .error e
      | .ok _ => .error .missingArgumentOrSubcommand
    | _ => .error (subcommandError word)

end StackAsm.Cli
