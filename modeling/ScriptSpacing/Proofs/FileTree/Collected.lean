import ScriptSpacing.Proofs.FileTree.Relisted

/-!
# `Proofs.FileTree.Collected` — which scripts a path stands for

A search goes down a listing and collects places; what it collects is told by the tree alone. `Collected` says
it of one place: none of its names is passed over, the last one is that of a script, every folder on the way can
be listed and has a path that the system takes, and a file is there. There is one more way to be collected, since
a folder whose path has too many bytes cannot be told from a file: such a folder is collected when its own name
is that of a script, and nothing below it is found. Where all paths fit, all folders can be listed and all names
are texts, what is collected are the scripts that are not hidden, and nothing else.

Names differ within a directory, so no place is collected twice, and places are in the order of the bytes of
their names.
-/

namespace ScriptSpacing

variable {α : Type} {path : List UInt8} {name next : Name} {names place : List Name} {d : Directory α}
  {e : Entry α} {refusals : Refusals} {room : Nat}

/-! ## Collected places -/

namespace Directory

/-- **A place is collected in a search below `path`.** -/
structure Collected (refusals : Refusals) (d : Directory α) (path : List UInt8) (place : List Name) : Prop where
  shown   : ∀ name ∈ place, IsShown name
  script  : ∃ name, place.getLast? = some name ∧ HasExtension name
  /-- the folders on the way have paths that the system takes, and can be listed -/
  reached : ∀ q, q <+: place → q ≠ [] → q ≠ place → Fits path q ∧ refusals q = none
  /-- a file is there, or a folder that cannot be told from one -/
  held    : (∃ found, d.at? place = some (.file found)) ∨
    (∃ entries, d.at? place = some (.folder entries)) ∧ ¬Fits path place

/-- What is at a place is below folders. -/
theorem exists_folder_of_prefix {q : List Name} (h : d.at? place = some e) (hq : q <+: place)
    (hne : q ≠ place) : ∃ entries, d.at? q = some (.folder entries) := by
  induction q generalizing d place with
  | nil => exact ⟨d, rfl⟩
  | cons name q ih =>
      obtain ⟨rest, rfl⟩ := hq
      cases hrest : q ++ rest with
      | nil =>
          obtain ⟨rfl, rfl⟩ := List.append_eq_nil_iff.mp hrest
          exact absurd rfl hne
      | cons next names =>
          rw [List.cons_append, hrest] at h
          obtain ⟨entries, hfind, hbelow⟩ := exists_folder h
          rw [at?_cons, hfind]
          exact ih (hrest ▸ hbelow) (List.prefix_append q rest) fun heq => hne (by rw [List.cons_append, ← heq])

theorem isName_of_find? (hd : d.WellFormed) (h : d.find? name = some e) : IsName name := by
  induction d with
  | empty => cases h
  | file first held rest ih =>
      rw [find?] at h
      split at h
      · next heq => exact heq ▸ hd.1
      · exact ih hd.2.2 h
  | folder first entries rest _ ih =>
      rw [find?] at h
      split at h
      · next heq => exact heq ▸ hd.1
      · exact ih hd.2.2.2 h

/-- **A listing has the places that its entries have**, each found by its name. -/
theorem mem_listScripts_iff (hd : d.WellFormed) : place ∈ d.listScripts refusals room ↔
    ∃ name e, d.find? name = some e ∧ place ∈ e.listScripts refusals room name := by
  -- the entry in front hides none of those behind it, whose names are others
  have hcons : ∀ {first : Name} {e : Entry α} {rest : Directory α}, rest.find? first = none →
      (place ∈ rest.listScripts refusals room ↔
        ∃ name e, rest.find? name = some e ∧ place ∈ e.listScripts refusals room name) →
      (place ∈ (cons first e rest).listScripts refusals room ↔
        ∃ name e', (cons first e rest).find? name = some e' ∧ place ∈ e'.listScripts refusals room name) := by
    intro first e rest hfresh ih
    rw [listScripts_cons, List.mem_append, ih]
    constructor
    · rintro (hown | ⟨name, e', hfind, hmem⟩)
      · exact ⟨first, e, by rw [find?_cons, if_pos rfl], hown⟩
      · refine ⟨name, e', ?_, hmem⟩
        rw [find?_cons, if_neg, hfind]
        rintro rfl
        cases hfresh.symm.trans hfind
    · rintro ⟨name, e', hfind, hmem⟩
      rw [find?_cons] at hfind
      split at hfind
      · next heq =>
          cases hfind
          exact .inl (heq ▸ hmem)
      · exact .inr ⟨name, e', hfind, hmem⟩
  induction d with
  | empty => simp [listScripts, find?]
  | file first held rest ih => exact hcons (e := .file held) hd.2.1 (ih hd.2.2)
  | folder first entries rest _ ih => exact hcons (e := .folder entries) hd.2.1 (ih hd.2.2.2)

end Directory

/-- **The places that an entry adds to a listing** begin with its name: the name alone for a script, or for a
    folder whose path does not fit, and otherwise the places below the folder, if it can be listed. -/
theorem Entry.mem_listScripts_iff : place ∈ e.listScripts refusals room name ↔
    ∃ names, place = name :: names ∧ IsShown name ∧
      ((names = [] ∧ HasExtension name ∧
          ((∃ found, e = .file found) ∨ (∃ d, e = .folder d) ∧ ¬name.bytes.length ≤ room)) ∨
        ∃ d, e = .folder d ∧ name.bytes.length ≤ room ∧ refusals [name] = none ∧
          names ∈ d.listScripts (refusals.below name) (room - (name.bytes.length + 1))) := by
  cases hhidden : isHidden name with
  | true =>
      have hnot : ¬IsShown name := fun h => by
        rw [isHidden_eq_false_iff.mpr h] at hhidden
        cases hhidden
      cases e <;> simp [listScripts, hhidden, hnot]
  | false =>
      have hshown := isHidden_eq_false_iff.mp hhidden
      have hscript : isScript name = true ↔ HasExtension name := isScript_iff
      cases e with
      | file found => simp [listScripts, hhidden, hshown, hscript, and_comm]
      | folder d =>
          by_cases hfits : name.bytes.length ≤ room
          · have hlt : ¬room < name.bytes.length := Nat.not_lt.mpr hfits
            cases hrefused : refusals [name] with
            | none =>
                have hlist : (Entry.folder d).listScripts refusals room name =
                    (d.listScripts (refusals.below name) (room - (name.bytes.length + 1))).map (name :: ·) := by
                  rw [listScripts, hhidden, if_neg Bool.false_ne_true, if_neg hlt, hrefused]
                  exact if_neg Bool.false_ne_true
                rw [hlist, List.mem_map]
                constructor
                · rintro ⟨names, hmem, rfl⟩
                  exact ⟨names, rfl, hshown, .inr ⟨d, rfl, hfits, rfl, hmem⟩⟩
                · rintro ⟨names, rfl, -, ⟨-, -, ⟨found, hfile⟩ | ⟨-, hlong⟩⟩ | ⟨entries, hfolder, -, -, hmem⟩⟩
                  · cases hfile
                  · exact absurd hfits hlong
                  · cases hfolder
                    exact ⟨names, hmem, rfl⟩
            | some fault => simp [listScripts, hhidden, hfits, hlt, hrefused]
          · simp [listScripts, hhidden, hshown, hfits, Nat.lt_of_not_le hfits, hscript, and_comm]

namespace Directory

/-! ## A listing has the collected places -/

/-- What it is for a name alone to be collected. -/
theorem collected_singleton : d.Collected refusals path [name] ↔
    IsShown name ∧ HasExtension name ∧ ((∃ found, d.find? name = some (.file found)) ∨
      (∃ entries, d.find? name = some (.folder entries)) ∧ ¬Fits path [name]) := by
  have hat : d.at? [name] = d.find? name := by
    rw [at?_cons]
    cases d.find? name <;> rfl
  constructor
  · rintro ⟨hshown, ⟨last, hlast, hscript⟩, -, hheld⟩
    cases hlast
    rw [hat] at hheld
    exact ⟨hshown name List.mem_cons_self, hscript, hheld⟩
  · rintro ⟨hshown, hscript, hheld⟩
    refine ⟨fun n hn => List.mem_singleton.mp hn ▸ hshown, ⟨name, rfl, hscript⟩, ?_, by rwa [hat]⟩
    intro q hq hne hne'
    rcases List.prefix_cons_iff.mp hq with rfl | ⟨rest, rfl, hrest⟩
    · exact absurd rfl hne
    · rw [List.prefix_nil] at hrest
      exact absurd (hrest ▸ rfl) hne'

/-- What it is for a place below a folder to be collected. -/
theorem collected_cons_cons : d.Collected refusals path (name :: next :: names) ↔
    IsShown name ∧ ∃ entries, d.find? name = some (.folder entries) ∧ Fits path [name] ∧ refusals [name] = none ∧
      entries.Collected (refusals.below name) (Path.join path name) (next :: names) := by
  have hat : ∀ {entries}, d.find? name = some (.folder entries) →
      d.at? (name :: next :: names) = entries.at? (next :: names) := by
    intro entries hfind
    rw [at?_cons, hfind]
    rfl
  constructor
  · rintro ⟨hshown, ⟨last, hlast, hscript⟩, hreached, hheld⟩
    have hfolder : ∃ entries, d.find? name = some (.folder entries) := by
      rcases hheld with ⟨found, hfile⟩ | ⟨⟨entries, hfolder⟩, -⟩
      · exact (exists_folder hfile).imp fun _ h => h.1
      · exact (exists_folder hfolder).imp fun _ h => h.1
    obtain ⟨entries, hfind⟩ := hfolder
    obtain ⟨hfits, hlisted⟩ :=
      hreached [name] (List.prefix_cons_inj name |>.mpr List.nil_prefix) (by simp) (by simp)
    rw [hat hfind] at hheld
    refine ⟨hshown name List.mem_cons_self, entries, hfind, hfits, hlisted, ?_, ⟨last, hlast, hscript⟩, ?_, hheld⟩
    · exact fun n hn => hshown n (List.mem_cons_of_mem name hn)
    · intro q hq hne hne'
      exact hreached (name :: q) ((List.prefix_cons_inj name).mpr hq) (by simp) (by simpa using hne')
  · rintro ⟨hshown, entries, hfind, hfits, hlisted, hbelow, ⟨last, hlast, hscript⟩, hreached, hheld⟩
    refine ⟨?_, ⟨last, hlast, hscript⟩, ?_, by rwa [hat hfind]⟩
    · intro n hn
      rcases List.mem_cons.mp hn with rfl | hn
      · exact hshown
      · exact hbelow n hn
    · intro q hq hne hne'
      rcases List.prefix_cons_iff.mp hq with rfl | ⟨rest, rfl, hrest⟩
      · exact absurd rfl hne
      · cases rest with
        | nil => exact ⟨hfits, hlisted⟩
        | cons first rest => exact hreached _ hrest (by simp) fun heq => hne' (by rw [heq])

/-- **A listing has the collected places.** -/
theorem mem_listScripts_iff_collected (hd : d.WellFormed) :
    place ∈ d.listScripts refusals (Path.room path) ↔ d.Collected refusals path place := by
  induction place generalizing d path refusals with
  | nil =>
      constructor
      · intro h
        obtain ⟨name, e, -, hmem⟩ := (mem_listScripts_iff hd).mp h
        obtain ⟨names, hnames, -⟩ := Entry.mem_listScripts_iff.mp hmem
        cases hnames
      · rintro ⟨-, ⟨name, hlast, -⟩, -, -⟩
        cases hlast
  | cons name names ih =>
      -- the name decides the entry, and below it the search goes on in what room there is
      have hbelow : ∀ {entries}, d.find? name = some (.folder entries) →
          (names ∈ entries.listScripts (refusals.below name) (Path.room path - (name.bytes.length + 1)) ↔
            entries.Collected (refusals.below name) (Path.join path name) names) := by
        intro entries hfind
        rw [← Path.room_join (isName_of_find? hd hfind)]
        exact ih (Entry.wellFormed_of_find? hd hfind)
      have hfits : ∀ {e}, d.find? name = some e →
          (name.bytes.length ≤ Path.room path ↔ Fits path [name]) :=
        fun hfind => le_room_iff (isName_of_find? hd hfind)
      rw [mem_listScripts_iff hd]
      constructor
      · rintro ⟨first, e, hfind, hmem⟩
        obtain ⟨rest, hrest, hshown, howns⟩ := Entry.mem_listScripts_iff.mp hmem
        obtain ⟨rfl, rfl⟩ := List.cons.inj hrest
        rcases howns with ⟨rfl, hscript, ⟨found, rfl⟩ | ⟨⟨entries, rfl⟩, hlong⟩⟩ |
          ⟨entries, rfl, hroom, hlisted, hmem⟩
        · exact collected_singleton.mpr ⟨hshown, hscript, .inl ⟨found, hfind⟩⟩
        · exact collected_singleton.mpr
            ⟨hshown, hscript, .inr ⟨⟨entries, hfind⟩, fun h => hlong ((hfits hfind).mpr h)⟩⟩
        · have hcollected := (hbelow hfind).mp hmem
          cases names with
          | nil =>
              obtain ⟨last, hlast, -⟩ := hcollected.script
              cases hlast
          | cons next names =>
              exact collected_cons_cons.mpr
                ⟨hshown, entries, hfind, (hfits hfind).mp hroom, hlisted, hcollected⟩
      · intro h
        cases names with
        | nil =>
            obtain ⟨hshown, hscript, ⟨found, hfind⟩ | ⟨⟨entries, hfind⟩, hlong⟩⟩ :=
              collected_singleton.mp h
            · exact ⟨name, _, hfind, Entry.mem_listScripts_iff.mpr
                ⟨[], rfl, hshown, .inl ⟨rfl, hscript, .inl ⟨found, rfl⟩⟩⟩⟩
            · exact ⟨name, _, hfind, Entry.mem_listScripts_iff.mpr ⟨[], rfl, hshown,
                .inl ⟨rfl, hscript, .inr ⟨⟨entries, rfl⟩, fun h => hlong ((hfits hfind).mp h)⟩⟩⟩⟩
        | cons next names =>
            obtain ⟨hshown, entries, hfind, hroom, hlisted, hcollected⟩ := collected_cons_cons.mp h
            exact ⟨name, _, hfind, Entry.mem_listScripts_iff.mpr ⟨_, rfl, hshown,
              .inr ⟨entries, rfl, (hfits hfind).mpr hroom, hlisted, (hbelow hfind).mpr hcollected⟩⟩⟩

/-- An entry in front adds places under its name, which none of those behind it has. -/
theorem nodup_listScripts_cons (hd : d.WellFormed) (hfresh : d.find? name = none)
    (hown : (e.listScripts refusals room name).Nodup) (hothers : (d.listScripts refusals room).Nodup) :
    ((cons name e d).listScripts refusals room).Nodup := by
  rw [listScripts_cons, List.nodup_append]
  refine ⟨hown, hothers, ?_⟩
  rintro p hp _ hq rfl
  obtain ⟨names, rfl, -⟩ := Entry.mem_listScripts_iff.mp hp
  obtain ⟨other, e', hfind, hmem⟩ := (mem_listScripts_iff hd).mp hq
  obtain ⟨names', hnames, -⟩ := Entry.mem_listScripts_iff.mp hmem
  obtain ⟨rfl, -⟩ := List.cons.inj hnames
  cases hfresh.symm.trans hfind

/-- **No place is listed twice.** -/
theorem nodup_listScripts (hd : d.WellFormed) (refusals : Refusals) (room : Nat) :
    (d.listScripts refusals room).Nodup := by
  induction d generalizing refusals room with
  | empty => exact List.nodup_nil
  | file first held rest ih =>
      refine nodup_listScripts_cons (e := .file held) hd.2.2 hd.2.1 ?_ (ih hd.2.2 _ _)
      rw [Entry.listScripts]
      split
      · exact List.nodup_singleton _
      · exact List.nodup_nil
  | folder first entries rest ihe ih =>
      refine nodup_listScripts_cons (e := .folder entries) hd.2.2.2 hd.2.1 ?_ (ih hd.2.2.2 _ _)
      rw [Entry.listScripts]
      split
      · exact List.nodup_nil
      split
      · split
        · exact List.nodup_singleton _
        · exact List.nodup_nil
      split
      · exact List.nodup_nil
      · exact (ihe hd.2.2.1 _ _).map fun p q h => (List.cons.inj h).2

/-- The scripts of a directory that can be listed are those of its listing, -/
theorem mem_scripts_iff : place ∈ d.scripts refusals room ↔
    refusals [] = none ∧ place ∈ d.listScripts refusals room := by
  rw [scripts]
  cases refusals [] with
  | none => simp [List.mem_mergeSort]
  | some fault => simp

/-- **in the order of their places**, each once. -/
theorem pairwise_placeBefore (hd : d.WellFormed) (refusals : Refusals) (room : Nat) :
    (d.scripts refusals room).Pairwise PlaceBefore := by
  rw [scripts]
  split
  · exact .nil
  · have hnodup : ((d.listScripts refusals room).mergeSort placeLe).Nodup :=
      (List.mergeSort_perm _ _).nodup_iff.mpr (nodup_listScripts hd refusals room)
    refine ((pairwise_mergeSort refusals room d).and hnodup).imp fun h => ?_
    exact (placeLe_iff.mp h.1).resolve_left h.2

end Directory

/-! ## The scripts of a path -/

namespace Volume

variable {v : Volume}

theorem wellFormed_of_entry? (hv : v.tree.WellFormed) {p : Path} {e : Entry FileId} (h : v.entry? p = some e) :
    e.WellFormed := by
  rw [Volume.entry?, locate] at h
  cases hplace : v.placeOf p with
  | error fault =>
      rw [hplace] at h
      cases h
  | ok place =>
      rw [hplace] at h
      cases hat : v.tree.at? place with
      | none =>
          simp only [bind, Except.bind, hat] at h
          cases h
      | some found =>
          simp only [bind, Except.bind, hat] at h
          cases h
          exact Entry.wellFormed_of_at? (e := .folder v.tree) hv hat

/-- **What a path stands for**, told by the tree alone. A path to a file stands for that file. A path to a
    directory that can be listed stands for the collected places below it, each once and in the order of the bytes
    of their names; where the paths of all folders that are not hidden fit and these can be listed, and every
    hidden name is a text, these are the files with the extension of scripts, none of whose names below the path
    is hidden. And it does not matter in which order the entries of the directories are listed. -/
theorem scripts_collected (hv : v.tree.WellFormed) (path : String) :
    (∀ id, v.entry? ⟨path, []⟩ = some (.file id) → v.scripts path = [⟨path, []⟩]) ∧
    (∀ d, v.entry? ⟨path, []⟩ = some (.folder d) →
      ∃ places : List (List Name), v.scripts path = places.map (fun place => ⟨path, place⟩) ∧
        places.Pairwise PlaceBefore ∧ places.Nodup ∧
        (∀ place, place ∈ places ↔ v.unlistedBelow path [] = none ∧
          d.Collected (v.unlistedBelow path) (Text.bytes path) place) ∧
        ((∀ place entries, d.at? place = some (.folder entries) → (∀ name ∈ place, IsPlain name) →
            Fits (Text.bytes path) place ∧ v.unlistedBelow path place = none) →
          (∀ place e, d.at? place = some e → ∀ name ∈ place, IsPlain name ∨ IsText name) →
          ∀ place, place ∈ places ↔
            (∃ id, d.at? place = some (.file id)) ∧ (∀ name ∈ place, IsPlain name) ∧
              ∃ name, place.getLast? = some name ∧ HasExtension name)) ∧
    ∀ v', v.Relisted v' → v'.scripts path = v.scripts path := by
  refine ⟨fun id h => ?_, fun d h => ?_, fun v' h => h.scripts hv path⟩
  · rw [scripts, h]
  · have hd : d.WellFormed := wellFormed_of_entry? hv h
    have hbefore := Directory.pairwise_placeBefore hd (v.unlistedBelow path) (Path.room (Text.bytes path))
    have hmem : ∀ place, place ∈ d.scripts (v.unlistedBelow path) (Path.room (Text.bytes path)) ↔
        v.unlistedBelow path [] = none ∧ d.Collected (v.unlistedBelow path) (Text.bytes path) place :=
      fun place => by rw [Directory.mem_scripts_iff, Directory.mem_listScripts_iff_collected hd]
    refine ⟨d.scripts (v.unlistedBelow path) (Path.room (Text.bytes path)), by rw [scripts, h], hbefore,
      hbefore.imp fun hlt => ne_of_irrefl hlt, hmem, ?_⟩
    -- where no name is outside texts, what is shown is plain; where the paths of all folders fit, no folder is
    -- taken for a file and none is left out
    intro hfolders hnames place
    rw [hmem]
    have hplain : ∀ {q e}, d.at? q = some e → (∀ name ∈ q, IsShown name) → ∀ name ∈ q, IsPlain name :=
      fun hat hshown name hname => (hshown name hname).elim id fun hnot =>
        (hnames _ _ hat name hname).resolve_right hnot
    constructor
    · rintro ⟨-, hshown, hscript, -, ⟨id, hfile⟩ | ⟨⟨entries, hfolder⟩, hlong⟩⟩
      · exact ⟨⟨id, hfile⟩, hplain hfile hshown, hscript⟩
      · exact absurd (hfolders place entries hfolder (hplain hfolder hshown)).1 hlong
    · rintro ⟨hfile, hshown, hscript⟩
      refine ⟨(hfolders [] d rfl (by simp)).2, fun name hname => .inl (hshown name hname), hscript,
        fun q hq _ hne => ?_, .inl hfile⟩
      obtain ⟨entries, hfolder⟩ := Directory.exists_folder_of_prefix hfile.choose_spec hq hne
      exact hfolders q entries hfolder fun name hname => hshown name (hq.subset hname)

/-- A directory with a hidden file, listed in two ways. -/
theorem scripts_collected_hidden :
    ∃ v v' : Volume, v.tree.WellFormed ∧ v.Relisted v' ∧ v'.tree ≠ v.tree ∧
      v'.scripts "lib" = v.scripts "lib" ∧
      ∀ d, v.entry? ⟨"lib", []⟩ = some (.folder d) → ∃ places : List (List Name),
        v.scripts "lib" = places.map (fun place => ⟨"lib", place⟩) ∧ places.Pairwise PlaceBefore := by
  have hv : (Directory.folder "lib" (.file "b.js" 0 (.file ".a.js" 1 .empty)) .empty).WellFormed := by
    simp only [Directory.WellFormed, IsName, Directory.find?]
    decide
  have hrelisted : Volume.Relisted { tree := .folder "lib" (.file "b.js" 0 (.file ".a.js" 1 .empty)) .empty }
      { tree := .folder "lib" (.file ".a.js" 1 (.file "b.js" 0 .empty)) .empty } :=
    ⟨rfl, rfl, .folder "lib" (.swap "b.js" ".a.js" (.file 0) (.file 1) .empty) .empty⟩
  have h := scripts_collected (v := { tree := _ }) hv "lib"
  refine ⟨_, _, hv, hrelisted, by simp, h.2.2 _ hrelisted, fun d hd => ?_⟩
  obtain ⟨places, hplaces, horder, -⟩ := h.2.1 d hd
  exact ⟨places, hplaces, horder⟩

/-- A name that begins with a dot and is not a text is not passed over. -/
example : (Directory.file ⟨[0x2E, 0xFF, 0x2E, 0x6A, 0x73]⟩ 0 .empty).listScripts (fun _ => none) 4000 =
    [[⟨[0x2E, 0xFF, 0x2E, 0x6A, 0x73]⟩]] := by
  decide +kernel

/-! ### A path with too many bytes -/

/-- A path that stays where it starts: a dot and slashes. -/
def slashes (n : Nat) : String := String.ofList ('.' :: List.replicate n '/')

theorem bytes_slashes (n : Nat) : Text.bytes (slashes n) = Name.dot :: List.replicate n slash := by
  have hslashes : Text.encode (List.replicate n '/') = List.replicate n slash := by
    induction n with
    | zero => rfl
    | succ n ih =>
        rw [List.replicate_succ, Text.encode_cons, ih]
        rfl
  rw [slashes, Text.bytes_ofList, Text.encode_cons, hslashes]
  rfl

theorem names_slashes (n : Nat) : Path.names (slashes n) = ⟨[Name.dot]⟩ :: List.replicate n ⟨[]⟩ := by
  have hsplit : ∀ n, (List.replicate n slash).splitOn slash = List.replicate (n + 1) [] := by
    intro n
    induction n with
    | zero => rfl
    | succ n ih =>
        rw [List.replicate_succ, ← List.nil_append (slash :: _), List.splitOn_append_cons_self, ih]
        rfl
  rw [Path.names, bytes_slashes]
  cases n with
  | zero => rfl
  | succ n =>
      rw [List.replicate_succ, ← List.singleton_append, List.splitOn_append_cons_self, hsplit,
        List.map_append, List.map_replicate]
      rfl

/-- A step that stays needs a directory, and there is one. -/
theorem foldlM_step_of_stays {d : Directory FileId} (h : v.tree.at? v.start = some (.folder d))
    {names : List Name} (hnames : ∀ name ∈ names, name.stays = true) :
    names.foldlM v.step v.start = .ok v.start := by
  induction names with
  | nil => rfl
  | cons name names ih =>
      have hstep : v.step v.start name = .ok v.start := by
        rw [step, h]
        exact if_pos (hnames name List.mem_cons_self)
      rw [List.foldlM_cons, hstep]
      exact ih fun name hname => hnames name (List.mem_cons_of_mem _ hname)

theorem placeOf_slashes {d : Directory FileId} {n : Nat} (h : v.tree.at? v.start = some (.folder d))
    (hn : n < pathLimit) : v.placeOf ⟨slashes n, []⟩ = .ok v.start := by
  have hsize : (Path.bytes ⟨slashes n, []⟩).length ≤ pathLimit := by
    rw [Path.bytes, List.foldl_nil, bytes_slashes, List.length_cons, List.length_replicate]
    exact hn
  have hne : slashes n ≠ "" := by
    rw [slashes, Ne, String.ofList_eq_empty_iff]
    exact List.cons_ne_nil _ _
  have hrelative : Path.isAbsolute (slashes n) = false := by
    rw [Path.isAbsolute, bytes_slashes]
    rfl
  have hfollow : v.follow (slashes n) = .ok v.start := by
    rw [follow, if_neg hne, hrelative, names_slashes]
    refine foldlM_step_of_stays h fun name hname => ?_
    rcases List.mem_cons.mp hname with rfl | hname
    · decide
    · rw [List.eq_of_mem_replicate hname]
      decide
  rw [placeOf, if_neg (Nat.not_lt.mpr hsize), hfollow]
  simp only [bind, Except.bind, List.append_nil]
  rfl

theorem entry?_slashes {d : Directory FileId} {n : Nat} (h : v.tree.at? v.start = some (.folder d))
    (hn : n < pathLimit) : v.entry? ⟨slashes n, []⟩ = some (.folder d) := by
  rw [Volume.entry?, locate, placeOf_slashes h hn]
  simp only [bind, Except.bind, h]
  rfl

theorem room_slashes (n : Nat) : Path.room (Text.bytes (slashes (n + 1))) = pathLimit - (n + 2) := by
  have hlast : (Text.bytes (slashes (n + 1))).getLast? = some slash := by
    rw [bytes_slashes, List.replicate_succ', ← List.cons_append, List.getLast?_concat]
  rw [Path.room, Path.separator, if_pos (.inr hlast), List.append_nil, bytes_slashes, List.length_cons,
    List.length_replicate]

/-- **A script below a folder is lost when the folder's path has too many bytes**: nothing is collected. -/
theorem scripts_below_long_path :
    ∃ v : Volume, v.tree.WellFormed ∧ (∀ place, v.unlisted place = none) ∧
      v.entry? ⟨slashes 4093, []⟩ = some (.folder v.tree) ∧
      (∃ id, v.tree.at? ["lib", "a.js"] = some (.file id)) ∧
      (∀ name ∈ [("lib" : Name), "a.js"], IsPlain name ∧ IsText name) ∧ HasExtension "a.js" ∧
      v.scripts (slashes 4093) = [] := by
  have hentry : ∀ d : Directory FileId,
      Volume.entry? { tree := d } ⟨slashes 4093, []⟩ = some (.folder d) :=
    fun d => entry?_slashes rfl (by decide)
  refine ⟨{ tree := .folder "lib" (.file "a.js" 0 .empty) .empty }, ?_, fun _ => rfl, hentry _, ⟨_, rfl⟩, ?_,
    ⟨Text.bytes "a", by decide, by decide⟩, ?_⟩
  · simp only [Directory.WellFormed, IsName, Directory.find?]
    decide
  · intro name hname
    rcases List.mem_pair.mp hname with rfl | rfl
    · exact ⟨⟨by decide, by decide⟩, "lib", rfl⟩
    · exact ⟨⟨by decide, by decide⟩, "a.js", rfl⟩
  · have hlist (refusals : Refusals) : (Directory.folder "lib" (.file "a.js" 0 .empty) .empty).scripts refusals
        (pathLimit - 4094) = [] := by
      have hnone : (Directory.folder "lib" (.file "a.js" 0 .empty) .empty).listScripts refusals
          (pathLimit - 4094) = [] := by
        rfl
      rw [Directory.scripts, hnone, List.mergeSort_nil, ite_self]
    rw [scripts, hentry, room_slashes]
    dsimp only
    rw [hlist, List.map_nil]

end Volume
end ScriptSpacing
