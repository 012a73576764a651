import ScriptSpacing.Command.Inspect
import ScriptSpacing.FileTree.Batch
import ScriptSpacing.Spacing.PresetReader

/-!
# `Command.Run` — carrying out a command

Commands are functions of a volume and the bytes of the standard input. Only `fmt` on files changes the
volume. Its preset file is read before anything else, by the reader that is given; then the files of the paths
are looked for; then come the files in order, and a summary unless there is at most one result.
-/

namespace ScriptSpacing
namespace Command

/-! ## Formatting -/

/-- The preset that the options ask for, or the message about why there is none. -/
def presetFor (reader : PresetFile.Reader) (v : Volume) : Option String → Except String Preset
  | none => .ok .standard
  | some path =>
    match v.readText ⟨path, []⟩ with
    | .error f => .error s!"cannot read config `{path}`: {f.message}"
    | .ok text => (PresetFile.load reader text).mapError (PresetFile.describe text)

/-- Formats the standard input to the standard output. -/
def formatInput (preset : Preset) (input : ByteArray) : Outcome :=
  match textOfBytes input with
  | .error f => .failed [s!"Error reading from stdin: {f.message}"]
  | .ok source =>
    match formatSource source preset with
    | .error p => .failed [p.describe "<stdin>" source]
    | .ok text => { stdout := text }

/-- The lines about a file that changes. -/
def changeLines (p : Path) : FileResult → List String
  | .formatted   => [s!"Formatted: {p.text}"]
  | .wouldFormat => [s!"Would format: {p.text}"]
  | _            => []

/-- The lines about a file that was not formatted. -/
def failureLines (p : Path) : FileResult → List String
  | .failed f => [f.message p.text]
  | _         => []

/-- The lines that sum up a batch of more than one result. -/
def summaryLines (mode : Mode) (s : Summary) : List String :=
  if s.total ≤ 1 then []
  else match mode with
    | .check => ["",
        s!"{s.formatted} would be formatted, {s.unchanged} already formatted, {s.errors} errors"]
    | .write => ["", s!"{s.formatted} formatted, {s.unchanged} unchanged, {s.errors} errors"]

/-- What is said about a batch. -/
def batchOutcome (mode : Mode) (b : Batch) (results : List (Path × FileResult)) : Outcome :=
  let s := Summary.ofResults b.missing results
  { stdout := lines (results.flatMap (fun (p, r) => changeLines p r) ++ summaryLines mode s)
    stderr := lines (b.complaints ++ results.flatMap fun (p, r) => failureLines p r)
    isFailure := !s.isSuccess mode }

/-- What the options say to do with changes. -/
def modeOf (o : FormatOptions) : Mode := if o.check then .check else .write

/-- Formats files. -/
def formatPaths (preset : Preset) (mode : Mode) (paths : List String) (v : Volume) :
    Outcome × Volume :=
  let b := v.batch paths
  let (results, v) := v.formatFiles preset mode b.files
  (batchOutcome mode b results, v)

/-- Carries out `fmt`. -/
def runFormat (reader : PresetFile.Reader) (o : FormatOptions) (v : Volume) (input : ByteArray) :
    Outcome × Volume :=
  match presetFor reader v o.preset? with
  | .error message => (.failed [message], v)
  | .ok preset =>
    if o.fromInput then (formatInput preset input, v)
    else formatPaths preset (modeOf o) o.targets v

/-! ## All commands -/

/-- Carries out a command. -/
def run (reader : PresetFile.Reader) (c : Command) (v : Volume) (input : ByteArray) : Outcome × Volume :=
  match c with
  | .help        => (.said helpLines, v)
  | .version     => (.said [versionLine], v)
  | .formatHelp  => (.said formatHelpLines, v)
  | .format o    => runFormat reader o v input
  | .tokens path => (inspect v path (tokenLines path), v)
  | .pairs path  => (inspect v path (pairLines path), v)

/-- Carries out a command line. -/
def runLine (args : List String) (v : Volume) (input : ByteArray)
    (reader : PresetFile.Reader := PresetFile.reader) : Outcome × Volume :=
  match ofArguments args with
  | .ok c    => c.run reader v input
  | .error f => (f.outcome, v)

end Command
end ScriptSpacing
