import ScriptSpacing.Document
import ScriptSpacing.FileTree.Scripts

/-!
# `FileTree.Batch` — formatting the scripts of a volume

A batch is what a list of paths comes to: the scripts they stand for, one after the other and as often as
they are named, and the paths that lead nowhere. Each script is read, formatted and, if its text changes,
written before the next one is read. A check does the same without writing.
-/

namespace ScriptSpacing

/-! ## One file -/

/-- Why a file was not formatted. -/
inductive FileFault where
  | reading (f : AccessFault)
  /-- the text that was read, and the problem with it -/
  | problem (source : String) (p : Problem)
  | writing (f : AccessFault)
deriving Repr, DecidableEq, Inhabited

/-- What became of a file. -/
inductive FileResult where
  | unchanged
  | formatted
  /-- a check found that formatting would change the file -/
  | wouldFormat
  | failed (f : FileFault)
deriving Repr, DecidableEq, Inhabited

/-- What to do with a text that formatting changes. -/
inductive Mode where
  | write | check
deriving Repr, DecidableEq, Inhabited

/-- The message about a file at a path. -/
def FileFault.message (path : String) : FileFault → String
  | .reading f        => s!"error reading '{path}': {f.message}"
  | .problem source p => p.describe path source
  | .writing f        => s!"error writing '{path}': {f.message}"

/-- Formats a file: what becomes of it, and the file that is left. -/
def File.format (preset : Preset) (mode : Mode) (f : File) : FileResult × File :=
  match f.read with
  | .error fault => (.failed (.reading fault), f)
  | .ok source =>
    match formatSource source preset with
    | .error e => (.failed (.problem source e), f)
    | .ok text =>
      if text = source then (.unchanged, f)
      else match mode with
        | .check => (.wouldFormat, f)
        | .write =>
          match f.write text with
          | .error fault => (.failed (.writing fault), f)
          | .ok written  => (.formatted, written)

namespace Volume

/-- Formats the file that a path leads to. -/
def formatFile (preset : Preset) (mode : Mode) (p : Path) (v : Volume) : FileResult × Volume :=
  match v.fileOf p with
  | .error fault => (.failed (.reading fault), v)
  | .ok id =>
    let (r, f) := (v.files id).format preset mode
    (r, v.setFile id f)

/-- Formats files one after the other. -/
def formatFiles (preset : Preset) (mode : Mode) :
    List Path → Volume → List (Path × FileResult) × Volume
  | [], v => ([], v)
  | p :: ps, v =>
    let (r, v) := v.formatFile preset mode p
    let (rs, v) := formatFiles preset mode ps v
    ((p, r) :: rs, v)

end Volume

/-! ## Many files -/

/-- What a list of paths comes to. -/
structure Batch where
  /-- how many of the paths lead nowhere -/
  missing    : Nat
  /-- the files to format -/
  files      : List Path
  /-- what is said about paths that lead nowhere and folders that cannot be listed -/
  complaints : List String
deriving Repr, DecidableEq, Inhabited

/-- Counts over a batch. -/
structure Summary where
  formatted : Nat
  unchanged : Nat
  errors    : Nat
deriving Repr, DecidableEq, Inhabited

namespace Volume

/-- What is said while the scripts of a path are looked for. -/
def complaints (v : Volume) (path : String) : List String :=
  if v.isMissing path then [s!"Path not found: {path}"]
  else (v.refused path).map fun (p, fault) => s!"Error reading directory '{p.text}': {fault.message}"

/-- The batch of a list of paths. -/
def batch (v : Volume) (paths : List String) : Batch where
  missing    := paths.countP v.isMissing
  files      := paths.flatMap v.scripts
  complaints := paths.flatMap v.complaints

end Volume

namespace FileResult

/-- Whether formatting changes or would change the file. -/
def isChange : FileResult → Bool
  | .formatted | .wouldFormat => true
  | _ => false

/-- Whether the file was not formatted. -/
def isFailure : FileResult → Bool
  | .failed _ => true
  | _ => false

end FileResult

namespace Summary

/-- The counts of a batch: a missing path is an error, and so is a file that was not formatted. -/
def ofResults (missing : Nat) (results : List (Path × FileResult)) : Summary where
  formatted := results.countP (·.2.isChange)
  unchanged := results.countP (·.2 = .unchanged)
  errors    := missing + results.countP (·.2.isFailure)

/-- All files and missing paths. -/
def total (s : Summary) : Nat := s.formatted + s.unchanged + s.errors

/-- Whether a batch ends well: without errors, and in a check without files to change. -/
def isSuccess (s : Summary) (mode : Mode) : Bool :=
  s.errors = 0 && (mode = .write || s.formatted = 0)

end Summary
end ScriptSpacing
