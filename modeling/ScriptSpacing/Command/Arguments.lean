/-!
# `Command.Arguments` — what a command line asks for

The first argument names the command; without one, help is meant. The arguments of `fmt` are read in
order and the first wrong one is the fault, but a request for help among them comes before all faults.
Combinations that make no sense are faults of the whole list.
-/

namespace ScriptSpacing

/-- What to format, and how. -/
structure FormatOptions where
  check     : Bool := false
  fromInput : Bool := false
  preset?   : Option String := none
  paths     : List String := []
deriving Repr, DecidableEq, Inhabited

/-- A command. -/
inductive Command where
  | help
  | version
  | formatHelp
  | format (o : FormatOptions)
  | tokens (path : String)
  | pairs (path : String)
deriving Repr, DecidableEq, Inhabited

/-- Why the options of `fmt` are refused. -/
inductive OptionFault where
  | noPresetPath
  | unknown (option : String)
  | pathsWithInput
  | checkWithInput
deriving Repr, DecidableEq, Inhabited

/-- Why a command line is refused. -/
inductive UsageFault where
  | unknownCommand (name : String)
  | noFile (command : String)
  | option (f : OptionFault)
deriving Repr, DecidableEq, Inhabited

namespace OptionFault

/-- The words for a fault. -/
def message : OptionFault → String
  | .noPresetPath   => "--config requires a path"
  | .unknown option => s!"Unknown option: {option}"
  | .pathsWithInput => "Cannot specify paths with --stdin"
  | .checkWithInput => "Cannot use --check with --stdin"

end OptionFault

namespace FormatOptions

/-- The beginning of an option that names a preset file. -/
def presetOption : List Char := "--config=".toList

/-- Takes one more argument. -/
def take (o : FormatOptions) (arg : String) : Except OptionFault FormatOptions :=
  if presetOption.isPrefixOf arg.toList then
    let path := String.ofList (arg.toList.drop presetOption.length)
    if path = "" then .error .noPresetPath else .ok { o with preset? := some path }
  else if arg = "--check" then .ok { o with check := true }
  else if arg = "--stdin" then .ok { o with fromInput := true }
  else if arg.toList.head? = some '-' then .error (.unknown arg)
  else .ok { o with paths := o.paths ++ [arg] }

/-- Reads the arguments of `fmt`. -/
def ofArguments (args : List String) : Except OptionFault FormatOptions :=
  match args.foldlM take {} with
  | .error f => .error f
  | .ok o =>
    if o.fromInput && !o.paths.isEmpty then .error .pathsWithInput
    else if o.fromInput && o.check then .error .checkWithInput
    else .ok o

/-- The paths to format: the current directory unless others are given. -/
def targets (o : FormatOptions) : List String := if o.paths.isEmpty then ["."] else o.paths

end FormatOptions

namespace Command

/-- Reads the arguments of `fmt`, among which a request for help comes first. -/
def formatOf (args : List String) : Except UsageFault Command :=
  if args.contains "--help" || args.contains "-h" then .ok .formatHelp
  else match FormatOptions.ofArguments args with
    | .ok o    => .ok (.format o)
    | .error f => .error (.option f)

/-- Reads a command line. -/
def ofArguments : List String → Except UsageFault Command
  | [] => .ok .help
  | name :: args =>
    if name = "fmt" then formatOf args
    else if name = "lex" then
      match args with
      | path :: _ => .ok (.tokens path)
      | []        => .error (.noFile name)
    else if name = "parens" then
      match args with
      | path :: _ => .ok (.pairs path)
      | []        => .error (.noFile name)
    else if name = "help" || name = "--help" || name = "-h" then .ok .help
    else if name = "version" || name = "--version" || name = "-V" then .ok .version
    else .error (.unknownCommand name)

end Command
end ScriptSpacing
