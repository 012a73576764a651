import Mathlib.Data.List.Nodup
import ScriptSpacing.Proofs.FileTree.Contents
import ScriptSpacing.Proofs.FileTree.Names
import ScriptSpacing.Proofs.FileTree.PlaceOrder

/-!
# `Proofs.FileTree.Relisted` — directories listed in another order

A directory is a list of its entries, but the order is an accident: `Relisted` relates two listings of the same
entries, at every level of the tree. As long as the names in each directory differ (`WellFormed`), a place holds
the same in both (`Relisted.at?`), so paths lead to the same places. The scripts are listed in another order,
and put in order they are the same (`Relisted.scripts_eq`), since the order of places is a linear one.
-/

namespace ScriptSpacing

variable {α : Type}

/-! ## Directories that can be -/

/-- **Every entry has a name, and no other entry beside it has the same.** -/
def Directory.WellFormed : Directory α → Prop
  | .empty                    => True
  | .file name _ rest         => IsName name ∧ rest.find? name = none ∧ rest.WellFormed
  | .folder name entries rest =>
    IsName name ∧ rest.find? name = none ∧ entries.WellFormed ∧ rest.WellFormed

/-- Whether the directories below an entry can be. -/
def Entry.WellFormed : Entry α → Prop
  | .file _   => True
  | .folder d => d.WellFormed

/-- **The same entries, listed in another order**, in the directory itself and in those below it. -/
inductive Directory.Relisted : Directory α → Directory α → Prop where
  | empty : Relisted .empty .empty
  | file {rest rest' : Directory α} (name : Name) (held : α) :
      Relisted rest rest' → Relisted (.file name held rest) (.file name held rest')
  | folder {entries entries' rest rest' : Directory α} (name : Name) :
      Relisted entries entries' → Relisted rest rest' →
      Relisted (.folder name entries rest) (.folder name entries' rest')
  | swap (name other : Name) (e e' : Entry α) (rest : Directory α) :
      Relisted (cons name e (cons other e' rest)) (cons other e' (cons name e rest))
  | trans {d d' d'' : Directory α} : Relisted d d' → Relisted d' d'' → Relisted d d''

/-- The same file, or the same folder listed in another order. -/
inductive Entry.Relisted : Entry α → Entry α → Prop where
  | file (held : α) : Relisted (.file held) (.file held)
  | folder {d d' : Directory α} : d.Relisted d' → Relisted (.folder d) (.folder d')

variable {d d' d'' : Directory α} {e e' e'' : Entry α} {name : Name} {place : List Name}

theorem Directory.wellFormed_cons :
    (cons name e d).WellFormed ↔ IsName name ∧ d.find? name = none ∧ e.WellFormed ∧ d.WellFormed := by
  cases e <;> simp [cons, WellFormed, Entry.WellFormed]

theorem Directory.Relisted.refl (d : Directory α) : d.Relisted d := by
  induction d with
  | empty => exact .empty
  | file name held rest ih => exact .file name held ih
  | folder name entries rest ihe ih => exact .folder name ihe ih

theorem Entry.Relisted.refl (e : Entry α) : e.Relisted e := by
  cases e with
  | file held => exact .file held
  | folder d   => exact .folder (.refl d)

theorem Entry.Relisted.trans (h : e.Relisted e') (h' : e'.Relisted e'') : e.Relisted e'' := by
  cases h with
  | file held => exact h'
  | folder hd =>
      cases h' with
      | folder hd' => exact .folder (hd.trans hd')

/-! ## What is at a place -/

variable {found found' found'' : Option (Entry α)}

theorem Entry.eq_none_of_rel (h : Option.Rel Relisted none found) : found = none := by
  cases h
  rfl

theorem Entry.rel_refl (found : Option (Entry α)) : Option.Rel Relisted found found := by
  cases found with
  | none   => exact .none
  | some e => exact .some (.refl e)

theorem Entry.rel_trans (h : Option.Rel Relisted found found') (h' : Option.Rel Relisted found' found'') :
    Option.Rel Relisted found found'' := by
  cases h with
  | none => exact h'
  | some h =>
      cases h' with
      | some h' => exact .some (h.trans h')

/-- **A name is that of the same entry in both listings**, and the other listing is one of a directory that can
    be, too. -/
theorem Directory.Relisted.find? (h : d.Relisted d') (hd : d.WellFormed) :
    d'.WellFormed ∧ ∀ name, Option.Rel Entry.Relisted (d.find? name) (d'.find? name) := by
  induction h with
  | empty => exact ⟨trivial, fun name => .none⟩
  | @file rest rest' first held _ ih =>
      obtain ⟨hname, hfresh, hrest⟩ := hd
      obtain ⟨hrest', hfind⟩ := ih hrest
      refine ⟨⟨hname, Entry.eq_none_of_rel (hfresh ▸ hfind first), hrest'⟩, fun name => ?_⟩
      rw [Directory.find?, Directory.find?]
      split
      · exact .some (.file held)
      · exact hfind name
  | @folder entries entries' rest rest' first hentries _ ihe ih =>
      obtain ⟨hname, hfresh, hbelow, hrest⟩ := hd
      obtain ⟨hrest', hfind⟩ := ih hrest
      refine ⟨⟨hname, Entry.eq_none_of_rel (hfresh ▸ hfind first), (ihe hbelow).1, hrest'⟩, fun name => ?_⟩
      rw [Directory.find?, Directory.find?]
      split
      · exact .some (.folder hentries)
      · exact hfind name
  | swap first second e e' rest =>
      simp only [wellFormed_cons, find?_cons] at hd ⊢
      obtain ⟨hfirst, hfresh, he, hsecond, hfresh', he', hrest⟩ := hd
      -- the entry behind has another name, so neither hides the other
      have hne : second ≠ first := fun heq => by rw [if_pos heq] at hfresh; cases hfresh
      rw [if_neg hne] at hfresh
      refine ⟨⟨hsecond, by rw [if_neg hne.symm, hfresh'], he', hfirst, hfresh, he, hrest⟩, fun name => ?_⟩
      by_cases h₁ : first = name
      · rw [if_pos h₁, if_neg (fun h₂ => hne (h₂.trans h₁.symm)), if_pos h₁]
        exact .some (.refl e)
      · rw [if_neg h₁, if_neg h₁]
        split
        · exact .some (.refl e')
        · exact Entry.rel_refl _
  | @trans d d' d'' _ _ ih ih' =>
      obtain ⟨hd', hfind⟩ := ih hd
      obtain ⟨hd'', hfind'⟩ := ih' hd'
      exact ⟨hd'', fun name => Entry.rel_trans (hfind name) (hfind' name)⟩

theorem Entry.wellFormed_of_find? (hd : d.WellFormed) (h : d.find? name = some e) : e.WellFormed := by
  induction d with
  | empty => cases h
  | file first held rest ih =>
      rw [Directory.find?] at h
      split at h
      · cases h
        trivial
      · exact ih hd.2.2 h
  | folder first entries rest _ ih =>
      rw [Directory.find?] at h
      split at h
      · cases h
        exact hd.2.2.1
      · exact ih hd.2.2.2 h

theorem Entry.wellFormed_of_at? (he : e.WellFormed) (h : e.at? place = some e') : e'.WellFormed := by
  induction place generalizing e with
  | nil =>
      cases h
      exact he
  | cons name names ih =>
      cases e with
      | file held => cases h
      | folder d =>
          obtain ⟨below, hfind, hbelow⟩ := Option.bind_eq_some_iff.mp h
          exact ih (wellFormed_of_find? he hfind) hbelow

/-- **A place holds the same in both listings.** -/
theorem Entry.Relisted.at? (h : e.Relisted e') (he : e.WellFormed) (place : List Name) :
    Option.Rel Relisted (e.at? place) (e'.at? place) := by
  induction place generalizing e e' with
  | nil => exact .some h
  | cons name names ih =>
      cases h with
      | file held => exact .none
      | @folder d d' hd =>
          have hfind := (hd.find? he).2 name
          have hwell : ∀ below, d.find? name = some below → below.WellFormed :=
            fun _ => wellFormed_of_find? he
          rw [Entry.at?, Entry.at?]
          generalize d.find? name = found at hfind hwell ⊢
          generalize d'.find? name = found' at hfind ⊢
          cases hfind with
          | none   => exact .none
          | some h => exact ih h (hwell _ rfl)

/-! ## Scripts -/

variable {refusals : Refusals} {room : Nat}

/-- The places that an entry adds to a listing. -/
def Entry.listScripts (refusals : Refusals) (room : Nat) (name : Name) : Entry α → List (List Name)
  | .file _   => if isScript name && !isHidden name then [[name]] else []
  | .folder d =>
    if isHidden name then []
    else if room < name.bytes.length then if isScript name then [[name]] else []
    else if (refusals [name]).isSome then []
    else (d.listScripts (refusals.below name) (room - (name.bytes.length + 1))).map (name :: ·)

theorem Directory.listScripts_cons (refusals : Refusals) (room : Nat) (name : Name) (e : Entry α)
    (d : Directory α) :
    (cons name e d).listScripts refusals room = e.listScripts refusals room name ++ d.listScripts refusals room := by
  cases e <;> rfl

/-- **Another listing has the same scripts, in another order.** -/
theorem Directory.Relisted.listScripts_perm (h : d.Relisted d') (refusals : Refusals) (room : Nat) :
    (d.listScripts refusals room).Perm (d'.listScripts refusals room) := by
  induction h generalizing refusals room with
  | empty => exact .refl _
  | file name held _ ih => exact (ih refusals room).append_left _
  | folder name _ _ ihe ih =>
      refine List.Perm.append ?_ (ih refusals room)
      split
      · exact .refl _
      split
      · exact .refl _
      split
      · exact .refl _
      · exact (ihe _ _).map _
  | swap name other e e' rest =>
      simp only [listScripts_cons]
      exact List.perm_append_comm_assoc _ _ _
  | trans _ _ ih ih' => exact (ih refusals room).trans (ih' refusals room)

theorem Directory.pairwise_mergeSort (refusals : Refusals) (room : Nat) (d : Directory α) :
    ((d.listScripts refusals room).mergeSort placeLe).Pairwise fun p q => placeLe p q = true := by
  have htrans : ∀ p q r, placeLe p q = true → placeLe q r = true → placeLe p r = true :=
    fun _ _ _ => placeLe_trans
  exact List.pairwise_mergeSort htrans placeLe_total _

/-- **In order they are the same.** -/
theorem Directory.Relisted.scripts_eq (h : d.Relisted d') (refusals : Refusals) (room : Nat) :
    d'.scripts refusals room = d.scripts refusals room := by
  have hsorted :
      (d'.listScripts refusals room).mergeSort placeLe = (d.listScripts refusals room).mergeSort placeLe := by
    refine List.Perm.eq_of_pairwise (fun p q _ _ => placeLe_antisymm) (pairwise_mergeSort refusals room d')
      (pairwise_mergeSort refusals room d) ?_
    exact (List.mergeSort_perm _ _).trans
      ((h.listScripts_perm refusals room).symm.trans (List.mergeSort_perm _ _).symm)
  rw [scripts, scripts, hsorted]

/-! ## Volumes -/

/-- **Two volumes have the same names for the same files**, listed in another order. -/
structure Volume.Relisted (v v' : Volume) : Prop where
  start    : v'.start = v.start
  unlisted : v'.unlisted = v.unlisted
  tree     : v.tree.Relisted v'.tree

namespace Volume.Relisted

variable {v v' : Volume}

theorem at? (h : v.Relisted v') (hv : v.tree.WellFormed) (place : List Name) :
    Option.Rel Entry.Relisted (v.tree.at? place) (v'.tree.at? place) :=
  Entry.Relisted.at? (.folder h.tree) hv place

theorem step (h : v.Relisted v') (hv : v.tree.WellFormed) : v'.step = v.step := by
  funext place name
  have hat := h.at? hv place
  have hwell : ∀ e, v.tree.at? place = some e → e.WellFormed :=
    fun _ => Entry.wellFormed_of_at? (e := .folder v.tree) hv
  rw [Volume.step, Volume.step]
  generalize v.tree.at? place = found at hat hwell ⊢
  generalize v'.tree.at? place = found' at hat ⊢
  cases hat with
  | none => rfl
  | some he =>
      cases he with
      | file held => rfl
      | @folder d d' hd =>
          have hfind := (hd.find? (hwell _ rfl)).2 name
          have hsome : (d'.find? name).isSome = (d.find? name).isSome := by
            generalize d.find? name = found at hfind ⊢
            generalize d'.find? name = found' at hfind ⊢
            cases hfind <;> rfl
          dsimp only
          rw [hsome]

/-- **A path leads to the same place in both.** -/
theorem placeOf (h : v.Relisted v') (hv : v.tree.WellFormed) : v'.placeOf = v.placeOf := by
  funext p
  rw [Volume.placeOf, Volume.placeOf, Volume.follow, Volume.follow, h.step hv, h.start]

/-- **A path leads to the same entry in both.** -/
theorem entry? (h : v.Relisted v') (hv : v.tree.WellFormed) (p : Path) :
    Option.Rel Entry.Relisted (v.entry? p) (v'.entry? p) := by
  rw [Volume.entry?, Volume.entry?, locate, locate, h.placeOf hv]
  cases v.placeOf p with
  | error fault => exact .none
  | ok place =>
      have hat := h.at? hv place
      simp only [bind, Except.bind]
      generalize v.tree.at? place = found at hat ⊢
      generalize v'.tree.at? place = found' at hat ⊢
      cases hat with
      | none    => exact .none
      | some he => exact .some he

theorem unlistedBelow (h : v.Relisted v') (hv : v.tree.WellFormed) (path : String) :
    v'.unlistedBelow path = v.unlistedBelow path := by
  funext place
  rw [Volume.unlistedBelow, Volume.unlistedBelow, h.placeOf hv, h.unlisted]

/-- **A path stands for the same scripts in both.** -/
theorem scripts (h : v.Relisted v') (hv : v.tree.WellFormed) (path : String) :
    v'.scripts path = v.scripts path := by
  have hentry := h.entry? hv ⟨path, []⟩
  rw [Volume.scripts, Volume.scripts, h.unlistedBelow hv]
  generalize v.entry? ⟨path, []⟩ = found at hentry ⊢
  generalize v'.entry? ⟨path, []⟩ = found' at hentry ⊢
  cases hentry with
  | none => rfl
  | some he =>
      cases he with
      | file held => rfl
      | folder hd => dsimp only; rw [hd.scripts_eq]

end Volume.Relisted
end ScriptSpacing
