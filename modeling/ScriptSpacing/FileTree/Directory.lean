import ScriptSpacing.FileTree.Name

/-!
# `FileTree.Directory` — files and folders by name

A directory lists its entries in some order, each under a name: a file, of which it holds an `α`, or a
directory in turn. A place below a directory is the list of names that leads there; the empty list is the
directory itself. Changing the entry at a place leaves every other entry where it was in the listing.
-/

namespace ScriptSpacing

/-- A directory, as the list of its entries. -/
inductive Directory (α : Type) where
  | empty
  | file (name : Name) (held : α) (rest : Directory α)
  | folder (name : Name) (entries : Directory α) (rest : Directory α)
deriving Inhabited

/-- What a place holds. -/
inductive Entry (α : Type) where
  | file (held : α)
  | folder (entries : Directory α)
deriving Inhabited

variable {α β : Type}

namespace Directory

/-- A listing that begins with an entry. -/
def cons (name : Name) : Entry α → Directory α → Directory α
  | .file held, rest      => .file name held rest
  | .folder entries, rest => .folder name entries rest

/-- The entry of a name. -/
def find? (name : Name) : Directory α → Option (Entry α)
  | .empty => none
  | .file other held rest => if other = name then some (.file held) else rest.find? name
  | .folder other entries rest => if other = name then some (.folder entries) else rest.find? name

/-- Changes the entry of a name, or adds one at the end of the listing. -/
def alter (name : Name) (f : Option (Entry α) → Entry α) : Directory α → Directory α
  | .empty => cons name (f none) .empty
  | .file other held rest =>
    if other = name then cons name (f (some (.file held))) rest
    else .file other held (rest.alter name f)
  | .folder other entries rest =>
    if other = name then cons name (f (some (.folder entries))) rest
    else .folder other entries (rest.alter name f)

/-- The same directory with something else in place of what it holds of its files. -/
def map (f : α → β) : Directory α → Directory β
  | .empty                    => .empty
  | .file name held rest      => .file name (f held) (rest.map f)
  | .folder name entries rest => .folder name (entries.map f) (rest.map f)

/-- Puts an entry at a place, with the folders that lead there; what is in their way is replaced. -/
def put : List Name → Entry α → Directory α → Directory α
  | [], _, d => d
  | [name], e, d => d.alter name fun _ => e
  | name :: names, e, d => d.alter name fun
    | some (.folder entries) => .folder (put names e entries)
    | _                      => .folder (put names e .empty)

end Directory

namespace Entry

/-- What is at a place below an entry. -/
def at? : List Name → Entry α → Option (Entry α)
  | [], e                       => some e
  | name :: names, .folder d    => (d.find? name).bind (at? names)
  | _ :: _, .file _             => none

/-- The bytes of a file. -/
def bytes? : Entry ByteArray → Option ByteArray
  | .file bytes => some bytes
  | .folder _   => none

end Entry

namespace Directory

/-- What is at a place below a directory. -/
def at? (d : Directory α) (place : List Name) : Option (Entry α) := (Entry.folder d).at? place

/-- Makes a folder at a place where nothing is. -/
def makeFolder (place : List Name) (d : Directory α) : Directory α :=
  match d.at? place with
  | some _ => d
  | none   => d.put place (.folder .empty)

@[simp] theorem find?_cons (name other : Name) (e : Entry α) (d : Directory α) :
    (cons name e d).find? other = if name = other then some e else d.find? other := by
  cases e <;> rfl

/-- **Altering an entry decides its own name and no other.** -/
@[simp] theorem find?_alter (name other : Name) (f : Option (Entry α) → Entry α) (d : Directory α) :
    (d.alter name f).find? other =
      if name = other then some (f (d.find? name)) else d.find? other := by
  induction d with
  | empty => simp [alter, find?]
  | file first held rest ih =>
      unfold alter
      by_cases hf : first = name
      · subst hf
        by_cases h : first = other <;> simp [find?, h]
      · by_cases h : name = other
        · subst h
          simp [find?, hf, ih]
        · simp [find?, hf, h, ih]
  | folder first entries rest _ ih =>
      unfold alter
      by_cases hf : first = name
      · subst hf
        by_cases h : first = other <;> simp [find?, h]
      · by_cases h : name = other
        · subst h
          simp [find?, hf, ih]
        · simp [find?, hf, h, ih]

/-- **What was put at a place is there.** -/
theorem at?_put_self {place : List Name} (h : place ≠ []) (e : Entry α) (d : Directory α) :
    (d.put place e).at? place = some e := by
  induction place generalizing d with
  | nil => exact absurd rfl h
  | cons name names ih =>
      cases names with
      | nil => simp [put, at?, Entry.at?]
      | cons next names =>
          have below (sub : Directory α) :
              (Entry.folder (sub.put (next :: names) e)).at? (next :: names) = some e :=
            ih (by simp) sub
          simp only [put, at?, Entry.at?, find?_alter, if_true, Option.bind_some]
          split <;> exact below _

end Directory
end ScriptSpacing
