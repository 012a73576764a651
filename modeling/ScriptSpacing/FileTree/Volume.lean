import ScriptSpacing.FileTree.Directory

/-!
# `FileTree.Volume` — following paths

A volume is a directory tree, the files that the tree names by numbers, and the place in the tree that
relative paths start from. A file can have several names: a link to a file is one more name of it, and what
is written under one name is read under every other. The system may refuse to read a file, to write to it or
to list a folder; a refusal leaves everything as it is.

A path is followed name by name: every step needs a directory to be made from, also a step that stays (an
empty name or `.`) and one that goes back (`..`). So a slash at the end of a path asks for a directory. The
empty path leads nowhere, and a path or a name with too many bytes is refused.

Three things are left out. Every folder can be entered, so what is below it can be told by its path. A link
leads to a file: there are none to folders, and none that lead nowhere. And a file that is read or written,
like a folder that is listed, is so to its end.
-/

namespace ScriptSpacing

/-! ## Paths -/

/-- A path as it was given, and names below what it leads to. -/
structure Path where
  given : String
  below : List Name := []
deriving Repr, DecidableEq, Inhabited

namespace Name

/-- Whether a step by this name stays where it is. -/
def stays (n : Name) : Bool := n = "" || n = "."

/-- Whether a step by this name goes back. -/
def goesBack (n : Name) : Bool := n = ".."

end Name

namespace Path

/-- What must stand between a path and a name behind it. -/
def separator (path : List UInt8) : List UInt8 :=
  if path = [] ∨ path.getLast? = some slash then [] else [slash]

/-- A path and one more name. -/
def join (path : List UInt8) (name : Name) : List UInt8 := path ++ separator path ++ name.bytes

/-- The bytes of a path. -/
def bytes (p : Path) : List UInt8 := p.below.foldl join (Text.bytes p.given)

/-- A path as it is shown. -/
def text (p : Path) : String := Text.shown p.bytes

/-- The names between the slashes of a path. -/
def names (path : String) : List Name := ((Text.bytes path).splitOn slash).map Name.mk

/-- The place that a path from the root leads to when it makes no detours. -/
def place (path : String) : List Name := (names path).filter (!·.stays)

/-- Whether a path starts from the root. -/
def isAbsolute (path : String) : Bool := (Text.bytes path).head? = some slash

end Path

/-! ## Files -/

/-- Why something cannot be read or written. -/
inductive AccessFault where
  | notFound
  /-- a step was to be made from a file -/
  | notDirectory
  /-- a directory was to be read as a file -/
  | isDirectory
  /-- a path, or a name in it, has too many bytes -/
  | nameTooLong
  /-- the bytes are not the UTF-8 form of a text -/
  | notText
  /-- the system does not allow it, in its own words -/
  | refused (reason : String)
deriving Repr, DecidableEq, Inhabited

namespace AccessFault

/-- The words for a fault. -/
def message : AccessFault → String
  | .notFound       => "No such file or directory (os error 2)"
  | .notDirectory   => "Not a directory (os error 20)"
  | .isDirectory    => "Is a directory (os error 21)"
  | .nameTooLong    => "File name too long (os error 36)"
  | .notText        => "stream did not contain valid UTF-8"
  | .refused reason => reason

end AccessFault

/-- The text of which these are the UTF-8 bytes. -/
def textOfBytes (bytes : ByteArray) : Except AccessFault String :=
  match String.fromUTF8? bytes with
  | some s => .ok s
  | none   => .error .notText

/-- A file. -/
structure File where
  bytes      : ByteArray := .empty
  /-- why the file cannot be read, if the system refuses that -/
  unreadable : Option AccessFault := none
  /-- why the file cannot be written, if the system refuses that -/
  unwritable : Option AccessFault := none
deriving Inhabited

namespace File

/-- The text of a file. -/
def read (f : File) : Except AccessFault String :=
  match f.unreadable with
  | some fault => .error fault
  | none       => textOfBytes f.bytes

/-- The file with another text in it. -/
def write (text : String) (f : File) : Except AccessFault File :=
  match f.unwritable with
  | some fault => .error fault
  | none       => .ok { f with bytes := text.toUTF8 }

end File

/-! ## Volumes -/

/-- The number of a file. -/
abbrev FileId := Nat

/-- A directory tree, the files in it, and the place that relative paths start from. -/
structure Volume where
  tree     : Directory FileId := .empty
  files    : FileId → File := fun _ => {}
  /-- the number of the next file -/
  fresh    : FileId := 0
  start    : List Name := []
  /-- why the folder at a place cannot be listed, if the system refuses that -/
  unlisted : List Name → Option AccessFault := fun _ => none
deriving Inhabited

namespace Volume

/-- The most bytes of a name. -/
def nameLimit : Nat := 255

/-- The most bytes of a path. -/
def pathLimit : Nat := 4095

/-- Follows one name from a place. -/
def step (v : Volume) (place : List Name) (name : Name) : Except AccessFault (List Name) :=
  match v.tree.at? place with
  | none           => .error .notFound
  | some (.file _) => .error .notDirectory
  | some (.folder d) =>
    if name.stays then .ok place
    else if name.goesBack then .ok place.dropLast
    else if nameLimit < name.bytes.length then .error .nameTooLong
    else if (d.find? name).isSome then .ok (place ++ [name])
    else .error .notFound

/-- The place that a path as it was given leads to. -/
def follow (v : Volume) (path : String) : Except AccessFault (List Name) :=
  if path = "" then .error .notFound
  else (Path.names path).foldlM v.step (if Path.isAbsolute path then [] else v.start)

/-- The place that a path leads to. -/
def placeOf (v : Volume) (p : Path) : Except AccessFault (List Name) := do
  if pathLimit < p.bytes.length then .error .nameTooLong
  else return (← v.follow p.given) ++ p.below

/-- What a path leads to. -/
def locate (v : Volume) (p : Path) : Except AccessFault (Entry FileId) := do
  match v.tree.at? (← v.placeOf p) with
  | some e => return e
  | none   => .error .notFound

/-- What a path leads to, if it leads anywhere. -/
def entry? (v : Volume) (p : Path) : Option (Entry FileId) := (v.locate p).toOption

/-- Whether a path leads nowhere. -/
def isMissing (v : Volume) (path : String) : Bool := (v.entry? ⟨path, []⟩).isNone

/-- Why the folder at a place below what a path leads to cannot be listed. -/
def unlistedBelow (v : Volume) (path : String) (place : List Name) : Option AccessFault :=
  (v.placeOf ⟨path, []⟩).toOption.bind fun base => v.unlisted (base ++ place)

/-- The file that a path leads to. -/
def fileOf (v : Volume) (p : Path) : Except AccessFault FileId := do
  match ← v.locate p with
  | .file id  => return id
  | .folder _ => .error .isDirectory

/-- The text of the file that a path leads to. -/
def readText (v : Volume) (p : Path) : Except AccessFault String := do
  (v.files (← v.fileOf p)).read

/-- The volume with `f` as the file of a number. -/
def setFile (v : Volume) (id : FileId) (f : File) : Volume :=
  { v with files := fun other => if other = id then f else v.files other }

/-! ### Building a volume -/

/-- The volume with a new file at a place. -/
def addFile (v : Volume) (place : List Name) (f : File) : Volume :=
  { v.setFile v.fresh f with tree := v.tree.put place (.file v.fresh), fresh := v.fresh + 1 }

/-- The volume with some bytes as the file at a place. -/
def putFile (v : Volume) (place : List Name) (bytes : ByteArray) : Volume := v.addFile place { bytes }

/-- The volume with a folder at a place where nothing is. -/
def makeFolder (v : Volume) (place : List Name) : Volume :=
  { v with tree := v.tree.makeFolder place }

/-- The directory tree with the bytes of its files. -/
def root (v : Volume) : Directory ByteArray := v.tree.map fun id => (v.files id).bytes

end Volume

/-- **A written text is read back**, and what is read of some bytes was written as these. -/
theorem textOfBytes_eq_ok_iff {bytes : ByteArray} {s : String} : textOfBytes bytes = .ok s ↔ s.toUTF8 = bytes := by
  rw [textOfBytes, ← Text.fromUTF8?_eq_some_iff]
  cases String.fromUTF8? bytes <;> simp

end ScriptSpacing
