import ScriptSpacing.Command.Arguments

/-!
# `Command.Outcome` — what a command says, and how it ends

A command writes to two streams, ends with an exit code that is zero or one, and may leave files to be
written. A refused command line has an outcome too.
-/

namespace ScriptSpacing

/-- The outcome of a command. -/
structure Outcome where
  stdout   : String := ""
  stderr   : String := ""
  isFailure : Bool := false
deriving Repr, DecidableEq, Inhabited

/-- Lines, each with its end. -/
def lines (l : List String) : String := String.join (l.map (· ++ "\n"))

namespace Outcome

/-- The exit code. -/
def code (o : Outcome) : UInt32 := if o.isFailure then 1 else 0

/-- Success with some lines. -/
def said (l : List String) : Outcome := { stdout := lines l }

/-- Failure with some lines. -/
def failed (l : List String) : Outcome := { stderr := lines l, isFailure := true }

end Outcome

namespace Command

/-- The help for all commands. -/
def helpLines : List String :=
  ["esf - expression parenthesis spacing for JavaScript",
   "",
   "Usage: esf <command> [options]",
   "",
   "Commands:",
   "  fmt [paths...]    Format .js files (see `esf fmt --help`)",
   "  lex <file>        Dump the token stream",
   "  parens <file>     List parenthesized nodes",
   "  help              Show this message",
   "  version           Show version",
   "",
   "Set RUST_LOG (e.g. RUST_LOG=esf_fmt=debug) for tracing output."]

/-- The help for `fmt`. -/
def formatHelpLines : List String :=
  ["Usage: esf fmt [options] [paths...]",
   "",
   "Apply expression parenthesis spacing to .js files.",
   "Directories are searched recursively; defaults to the current directory.",
   "",
   "Options:",
   "  --check            Report files that would change, exit 1 if any",
   "  --stdin            Read from stdin, write to stdout",
   "  --config=<file>    JSON config (\x7b\"whiteSpace\": \x7b\"before\": .., \"after\": ..\x7d\x7d)",
   "  -h, --help         Show this help"]

/-- The version. -/
def versionLine : String := "esf 0.1.0-alpha.1"

end Command

/-- The outcome of a refused command line. -/
def UsageFault.outcome : UsageFault → Outcome
  | .unknownCommand name =>
    { stdout := lines Command.helpLines, stderr := lines [s!"Unknown command: {name}", ""],
      isFailure := true }
  | .noFile command => .failed [s!"Usage: esf {command} <file.js>"]
  | .option f => .failed [f.message, "Run 'esf fmt --help' for usage"]

end ScriptSpacing
