import ScriptSpacing.FileTree.Batch

/-!
# `Proofs.FileTree.Contents` — the names and the files of a volume

A volume is two things: a tree of names, and the files that the tree names by numbers. Paths are followed, and
scripts looked for, without the files, so volumes of one tree (`Volume.SameTree`) agree on all of that. Changing
a file keeps the tree and every other file.
-/

namespace ScriptSpacing

namespace Directory
variable {α : Type}

/-- The entry at a place below another one. -/
theorem at?_cons (d : Directory α) (name : Name) (names : List Name) :
    d.at? (name :: names) = (d.find? name).bind (Entry.at? names) := rfl

/-- A file is below folders. -/
theorem exists_folder {d : Directory α} {name next : Name} {names : List Name} {e : Entry α}
    (h : d.at? (name :: next :: names) = some e) :
    ∃ entries, d.find? name = some (.folder entries) ∧ entries.at? (next :: names) = some e := by
  rw [at?_cons] at h
  cases hfind : d.find? name with
  | none => rw [hfind] at h; cases h
  | some below =>
      rw [hfind] at h
      cases below with
      | file held => cases h
      | folder entries => exact ⟨entries, rfl, h⟩

end Directory

/-! ## Volumes of one tree -/

/-- **Two volumes have the same names for the same files**, whatever is in the files. -/
structure Volume.SameTree (v w : Volume) : Prop where
  tree     : w.tree = v.tree
  start    : w.start = v.start
  unlisted : w.unlisted = v.unlisted

namespace Volume

namespace SameTree

variable {u v w : Volume}

theorem refl (v : Volume) : v.SameTree v := ⟨rfl, rfl, rfl⟩

theorem trans (h : u.SameTree v) (h' : v.SameTree w) : u.SameTree w where
  tree := h'.tree.trans h.tree
  start := h'.start.trans h.start
  unlisted := h'.unlisted.trans h.unlisted

/-- **A path leads to the same place in both**, -/
theorem placeOf (h : v.SameTree w) : w.placeOf = v.placeOf := by
  obtain ⟨tree, files, fresh, start, unlisted⟩ := v
  obtain ⟨tree', files', fresh', start', unlisted'⟩ := w
  obtain ⟨htree, hstart, -⟩ := h
  cases htree
  cases hstart
  rfl

/-- and to the same there. -/
theorem locate (h : v.SameTree w) : w.locate = v.locate := by
  funext p
  rw [Volume.locate, Volume.locate, h.placeOf, h.tree]

theorem fileOf (h : v.SameTree w) : w.fileOf = v.fileOf := by
  funext p
  rw [Volume.fileOf, Volume.fileOf, h.locate]

theorem entry? (h : v.SameTree w) (p : Path) : Volume.entry? w p = Volume.entry? v p := by
  rw [Volume.entry?, Volume.entry?, h.locate]

theorem isMissing (h : v.SameTree w) : w.isMissing = v.isMissing := by
  funext path
  rw [Volume.isMissing, Volume.isMissing, h.entry?]

theorem unlistedBelow (h : v.SameTree w) (path : String) : w.unlistedBelow path = v.unlistedBelow path := by
  funext place
  rw [Volume.unlistedBelow, Volume.unlistedBelow, h.placeOf, h.unlisted]

theorem scripts (h : v.SameTree w) : w.scripts = v.scripts := by
  funext path
  rw [Volume.scripts, Volume.scripts, h.entry?, h.unlistedBelow]

theorem complaints (h : v.SameTree w) : w.complaints = v.complaints := by
  funext path
  rw [Volume.complaints, Volume.complaints, Volume.refused, Volume.refused, h.isMissing, h.entry?, h.unlistedBelow]

/-- **Paths come to the same batch in both.** -/
theorem batch (h : v.SameTree w) (paths : List String) : w.batch paths = v.batch paths := by
  rw [Volume.batch, Volume.batch, h.scripts, h.isMissing, h.complaints]

end SameTree

/-! ## Files -/

variable (v : Volume) (id : FileId) (f : File)

theorem sameTree_setFile : v.SameTree (v.setFile id f) := ⟨rfl, rfl, rfl⟩

theorem files_setFile (other : FileId) :
    (v.setFile id f).files other = if other = id then f else v.files other := rfl

/-- A file that is put where it was changes nothing. -/
theorem setFile_self : v.setFile id (v.files id) = v := by
  have hfiles : (fun other => if other = id then v.files id else v.files other) = v.files := by
    funext other
    split
    · next h => rw [h]
    · rfl
  rw [setFile, hfiles]

end Volume
end ScriptSpacing
