import ScriptSpacing.FileTree.Volume

/-!
# `FileTree.Scripts` — the scripts that a path stands for

A path to a file stands for that file, whatever its name. A path to a directory stands for the scripts
below it: the files whose extension is `js`, but none that is hidden or below something hidden. Only a name
that is a text can be hidden. The scripts are in the order of their places, compared name by name and byte by
byte, whatever the order of the listings. A folder whose path has too many bytes cannot be told from a file:
it is not searched, and its own name decides. A folder that cannot be listed has no scripts; the search tells
of it and goes on.
-/

namespace ScriptSpacing

/-- The extension of scripts. -/
def scriptExtension : List UInt8 := Text.bytes "js"

/-- Whether the search passes over what has this name. -/
def isHidden (name : Name) : Bool :=
  match name.text? with
  | some s => s.toList.head? = some '.' || s = "node_modules"
  | none   => false

/-- Whether a file of this name is a script. -/
def isScript (name : Name) : Bool := name.extension? = some scriptExtension

/-- Whether a place comes before another or is the same, name by name. -/
def placeLe : List Name → List Name → Bool
  | [], _            => true
  | _ :: _, []       => false
  | a :: as, b :: bs => if a = b then placeLe as bs else a.before b

/-- Which folders cannot be listed, and why. -/
abbrev Refusals := List Name → Option AccessFault

/-- The refusals below the folder of a name. -/
def Refusals.below (refusals : Refusals) (name : Name) : Refusals := fun place => refusals (name :: place)

namespace Directory
variable {α : Type}

/-- The places of the scripts below a directory, in the order of the listings, when the path of an entry
    has `room` for the bytes of its name. A folder that cannot be listed has none. -/
def listScripts (refusals : Refusals) (room : Nat) : Directory α → List (List Name)
  | .empty => []
  | .file name _ rest =>
    (if isScript name && !isHidden name then [[name]] else []) ++ rest.listScripts refusals room
  | .folder name entries rest =>
    (if isHidden name then []
      else if room < name.bytes.length then if isScript name then [[name]] else []
      else if (refusals [name]).isSome then []
      else (entries.listScripts (refusals.below name) (room - (name.bytes.length + 1))).map (name :: ·)) ++
    rest.listScripts refusals room

/-- The folders below a directory that the search comes to and cannot list, and why. -/
def listRefused (refusals : Refusals) (room : Nat) : Directory α → List (List Name × AccessFault)
  | .empty => []
  | .file _ _ rest => rest.listRefused refusals room
  | .folder name entries rest =>
    (if isHidden name || room < name.bytes.length then []
      else match refusals [name] with
        | some fault => [([name], fault)]
        | none =>
          (entries.listRefused (refusals.below name) (room - (name.bytes.length + 1))).map fun (place, fault) =>
            (name :: place, fault)) ++
    rest.listRefused refusals room

/-- The places of the scripts below a directory, in order. -/
def scripts (refusals : Refusals) (room : Nat) (d : Directory α) : List (List Name) :=
  if (refusals []).isSome then [] else (d.listScripts refusals room).mergeSort placeLe

/-- The folders that the search for the scripts of a directory comes to and cannot list, and why. -/
def refused (refusals : Refusals) (room : Nat) (d : Directory α) : List (List Name × AccessFault) :=
  match refusals [] with
  | some fault => [([], fault)]
  | none       => d.listRefused refusals room

end Directory

/-- The room that a path leaves for the bytes of a name below it. -/
def Path.room (path : List UInt8) : Nat := Volume.pathLimit - (path ++ Path.separator path).length

namespace Volume

/-- The scripts that a path stands for. -/
def scripts (v : Volume) (path : String) : List Path :=
  match v.entry? ⟨path, []⟩ with
  | some (.file _)   => [⟨path, []⟩]
  | some (.folder d) =>
    (d.scripts (v.unlistedBelow path) (Path.room (Text.bytes path))).map fun place => ⟨path, place⟩
  | none             => []

/-- The folders that the search for the scripts of a path comes to and cannot list, and why. -/
def refused (v : Volume) (path : String) : List (Path × AccessFault) :=
  match v.entry? ⟨path, []⟩ with
  | some (.folder d) =>
    (d.refused (v.unlistedBelow path) (Path.room (Text.bytes path))).map fun (place, fault) =>
      (⟨path, place⟩, fault)
  | _ => []

end Volume
end ScriptSpacing
