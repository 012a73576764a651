import ScriptSpacing.Command.Run

/-!
# `Main` — the command line

The program takes the files and folders that its command names into a volume, carries the command out
there, and then writes the changed files and what the command says. Everything that is decided is decided
on the volume, so it is found out beforehand which files could be written and which folders can be listed.
The names that come from the system are texts here.
-/

namespace ScriptSpacing

/-- The paths that a command reads from. -/
def Command.sources : Command → List String
  | .format o    => o.preset?.toList ++ (if o.fromInput then [] else o.targets)
  | .tokens path => [path]
  | .pairs path  => [path]
  | _            => []

/-- Whether a command reads the standard input. -/
def Command.readsInput : Command → Bool
  | .format o => o.fromInput
  | _         => false

/-- Whether a path leads to a folder. -/
def isFolder (path : String) : IO Bool := do ((← IO.currentDir) / path).isDir

/-- The words of the system for an error. -/
def refusalOf : IO.Error → AccessFault
  | .permissionDenied _ code reason => .refused s!"{reason} (os error {code})"
  | e                               => .refused (toString e)

/-- Takes the file at a path into a volume. -/
def readFile (path : String) (place : List Name) (v : Volume) : IO Volume := do
  let (bytes, unreadable) ← try pure (← IO.FS.readBinFile path, none)
    catch e => pure (.empty, some (refusalOf e))
  let unwritable ← try
      let _ ← IO.FS.Handle.mk path .readWrite
      pure none
    catch e => pure (some (refusalOf e))
  return v.addFile place { bytes, unreadable, unwritable }

/-- The volume with a folder that cannot be listed. -/
def Volume.refuseListing (v : Volume) (place : List Name) (fault : AccessFault) : Volume :=
  { v with unlisted := fun other => if other = place then some fault else v.unlisted other }

/-- Takes the scripts below a folder at a place, and the folders that they are in, into a volume. -/
partial def readFolder (path : String) (place : List Name) (v : Volume) : IO Volume := do
  let mut v := v.makeFolder place
  let entries ← try ((← IO.currentDir) / path).readDir
    catch e => return v.refuseListing place (refusalOf e)
  for e in entries do
    let inner := Text.shown (Path.join (Text.bytes path) e.fileName)
    unless isHidden e.fileName do
      if ← isFolder inner then v ← readFolder inner (place ++ [(e.fileName : Name)]) v
      else if isScript e.fileName then v ← readFile inner (place ++ [(e.fileName : Name)]) v
  return v

/-- The beginnings of a path, from the first name to the whole. -/
def beginnings (path : String) : List String :=
  let names := path.splitOn "/"
  ((List.range names.length).map fun n => "/".intercalate (names.take (n + 1))).filter (· ≠ "")

/-- Takes what is at a path and on the way there into a volume; what cannot be found is left out. -/
def readPath (v : Volume) (path : String) : IO Volume := do
  let mut v := v
  for beginning in beginnings path do
    try
      let place := Path.place (← IO.FS.realPath beginning).toString
      if !(← isFolder beginning) then v ← readFile beginning place v
      else if beginning = path then v ← readFolder path place v
      else v := v.makeFolder place
    catch _ => pure ()
  return v

/-- Takes what a command reads from into a volume. -/
def readSources (c : Command) : IO Volume := do
  let start := Path.place (← IO.currentDir).toString
  c.sources.foldlM readPath (({ start } : Volume).makeFolder start)

/-- Writes the files of a batch whose texts have changed. -/
def writeChanges (before after : Volume) (targets : List String) : IO Unit := do
  for p in targets.flatMap after.scripts do
    match before.readText p, after.readText p with
    | .ok old, .ok new => if old ≠ new then IO.FS.writeFile p.text new
    | _, _ => pure ()

end ScriptSpacing

open ScriptSpacing in
/-- The program. -/
def main (args : List String) : IO UInt32 := do
  let c? := Command.ofArguments args
  let v ← match c? with
    | .ok c    => readSources c
    | .error _ => pure {}
  let input ← match c? with
    | .ok c    => if c.readsInput then (← IO.getStdin).readBinToEnd else pure .empty
    | .error _ => pure .empty
  let (outcome, after) := Command.runLine args v input PresetFile.reader
  match c? with
  | .ok (.format o) => writeChanges v after o.targets
  | _               => pure ()
  IO.print outcome.stdout
  IO.eprint outcome.stderr
  return outcome.code
