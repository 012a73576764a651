import ScriptSpacing.Command.Run
import ScriptSpacing.Proofs.Document.Format
import ScriptSpacing.Proofs.FileTree.Contents

/-!
# `Proofs.FileTree.Batch` — what a batch makes of a volume

What becomes of a file is decided by that file alone (`File.Formatting`). A file that was rewritten stays as it
is, since a formatted text is its own formatted text, and a file that the system does not let be written is left
as it was. So a volume on the way through a batch is the one before it with some files rewritten (`Rewrites`),
and what the batch does next can be told from the volume before it: a change that a check foretells is made
where the system allows it and it was not made already.
-/

namespace ScriptSpacing

/-- **A formatted text is formatted.** -/
theorem formatSource_formatted {s t : String} {preset : Preset} (h : formatSource s preset = .ok t) :
    formatSource t preset = .ok t := by
  obtain ⟨d, ts, us, d', hof, rfl, hr, rfl⟩ := Document.exists_respaced h
  obtain ⟨vs, d'', hr'⟩ := hr.reread.respaced preset
  have hgaps : Token.gaps vs = Token.gaps us := by
    rw [hr'.gaps, hr.marks, hr.gaps]
    exact Mark.overwrite_absorb (fun _ _ h => h) _
  obtain rfl := Token.eq_of_solids_gaps hr'.solids hgaps
  exact hr.reread.formatSource_eq hr'

/-! ## One file -/

namespace File

/-- What a check says of a file. -/
def verdict (preset : Preset) (f : File) : FileResult := (f.format preset .check).1

/-- The file that a rewrite leaves. -/
def rewritten (preset : Preset) (f : File) : File := (f.format preset .write).2

/-- **What formatting makes of a file**: all that can become of it, in either mode. -/
inductive Formatting (preset : Preset) (f : File) : Prop where
  | unread {fault : AccessFault} (hread : f.read = .error fault)
      (hformat : ∀ mode, f.format preset mode = (.failed (.reading fault), f))
  | problem {source : String} {e : Problem} (hread : f.read = .ok source)
      (htext : formatSource source preset = .error e)
      (hformat : ∀ mode, f.format preset mode = (.failed (.problem source e), f))
  | same {source : String} (hread : f.read = .ok source) (htext : formatSource source preset = .ok source)
      (hformat : ∀ mode, f.format preset mode = (.unchanged, f))
  /-- the text changes, but the file cannot be written -/
  | refused {source text : String} {fault : AccessFault} (hread : f.read = .ok source)
      (htext : formatSource source preset = .ok text) (hrefused : f.unwritable = some fault)
      (hcheck : f.format preset .check = (.wouldFormat, f))
      (hwrite : f.format preset .write = (.failed (.writing fault), f))
  | changed {source text : String} (hread : f.read = .ok source)
      (htext : formatSource source preset = .ok text) (hwritable : f.unwritable = none)
      (hcheck : f.format preset .check = (.wouldFormat, f))
      (hwrite : f.format preset .write = (.formatted, { f with bytes := text.toUTF8 }))

variable {preset : Preset} {f : File} {fault : AccessFault}

theorem formatting (preset : Preset) (f : File) : Formatting preset f := by
  cases hread : f.read with
  | error fault => exact .unread hread fun mode => by rw [format, hread]
  | ok source =>
      cases htext : formatSource source preset with
      | error e =>
          refine .problem hread htext fun mode => ?_
          rw [format, hread]
          dsimp only
          rw [htext]
      | ok text =>
          by_cases hsame : text = source
          · subst hsame
            refine .same hread htext fun mode => ?_
            rw [format, hread]
            dsimp only
            rw [htext]
            exact if_pos rfl
          · have hcheck : f.format preset .check = (.wouldFormat, f) := by
              rw [format, hread]
              dsimp only
              rw [htext]
              exact if_neg hsame
            cases hwritable : f.unwritable with
            | some fault =>
                refine .refused hread htext hwritable hcheck ?_
                rw [format, hread]
                dsimp only
                rw [htext]
                dsimp only
                rw [if_neg hsame, write, hwritable]
            | none =>
                refine .changed hread htext hwritable hcheck ?_
                rw [format, hread]
                dsimp only
                rw [htext]
                dsimp only
                rw [if_neg hsame, write, hwritable]

/-- A check changes nothing. -/
theorem format_check (preset : Preset) (f : File) : f.format preset .check = (f.verdict preset, f) := by
  refine Prod.ext rfl ?_
  cases formatting preset f with
  | unread _ hformat | problem _ _ hformat | same _ _ hformat => rw [hformat]
  | refused _ _ _ hcheck _ | changed _ _ _ hcheck _ => rw [hcheck]

/-- **A file that is not to be changed is left as it is** in either mode. -/
theorem format_of_not_isChange (h : (f.verdict preset).isChange = false) (mode : Mode) :
    f.format preset mode = (f.verdict preset, f) := by
  rw [verdict] at h ⊢
  cases formatting preset f with
  | unread _ hformat | problem _ _ hformat | same _ _ hformat => rw [hformat, hformat]
  | refused _ _ _ hcheck _ | changed _ _ _ hcheck _ =>
      rw [hcheck] at h
      cases h

/-- **What is to be changed is a text that was read and formatted**, and may be refused to be written. -/
theorem changing_of_isChange (h : (f.verdict preset).isChange = true) :
    ∃ source text, f.read = .ok source ∧ formatSource source preset = .ok text ∧
      f.verdict preset = .wouldFormat ∧
      ((∃ fault, f.unwritable = some fault ∧ f.format preset .write = (.failed (.writing fault), f)) ∨
        (f.unwritable = none ∧ f.format preset .write = (.formatted, { f with bytes := text.toUTF8 }))) := by
  rw [verdict] at h ⊢
  cases formatting preset f with
  | unread _ hformat | problem _ _ hformat | same _ _ hformat =>
      rw [hformat] at h
      cases h
  | @refused source text fault hread htext hrefused hcheck hwrite =>
      exact ⟨source, text, hread, htext, by rw [hcheck], .inl ⟨fault, hrefused, hwrite⟩⟩
  | @changed source text hread htext hwritable hcheck hwrite =>
      exact ⟨source, text, hread, htext, by rw [hcheck], .inr ⟨hwritable, hwrite⟩⟩

/-- What a check would change, it says it would format. -/
theorem verdict_of_isChange (h : (f.verdict preset).isChange = true) : f.verdict preset = .wouldFormat := by
  obtain ⟨-, -, -, -, hverdict, -⟩ := changing_of_isChange h
  exact hverdict

/-- **A file that cannot be written is left as it is**, and that is said. -/
theorem format_of_refused (h : (f.verdict preset).isChange = true) (hf : f.unwritable = some fault) :
    f.format preset .write = (.failed (.writing fault), f) := by
  obtain ⟨source, text, -, -, -, ⟨other, hrefused, hwrite⟩ | ⟨hwritable, -⟩⟩ := changing_of_isChange h
  · cases hf.symm.trans hrefused
    exact hwrite
  · cases hf.symm.trans hwritable

/-- What was read can be read again when something else was written. -/
theorem read_with_bytes {source : String} (h : f.read = .ok source) (text : String) :
    ({ f with bytes := text.toUTF8 } : File).read = .ok text := by
  rw [read] at h ⊢
  split at h
  · cases h
  · next hreadable =>
      dsimp only
      rw [hreadable]
      exact textOfBytes_eq_ok_iff.mpr rfl

/-- **A file that can be written is rewritten if it is to be changed**, and is formatted then. -/
theorem format_of_writable (h : (f.verdict preset).isChange = true) (hf : f.unwritable = none) :
    f.format preset .write = (.formatted, f.rewritten preset) ∧
      ∀ mode, (f.rewritten preset).format preset mode = (.unchanged, f.rewritten preset) := by
  obtain ⟨source, text, hread, htext, -, ⟨fault, hrefused, -⟩ | ⟨-, hwrite⟩⟩ := changing_of_isChange h
  · cases hf.symm.trans hrefused
  · have hleft : f.rewritten preset = { f with bytes := text.toUTF8 } := by rw [rewritten, hwrite]
    refine ⟨by rw [hwrite, hleft], fun mode => ?_⟩
    -- it is the formatted text that is read again
    have hreread : (f.rewritten preset).read = .ok text := by rw [hleft, read_with_bytes hread]
    rw [format, hreread]
    dsimp only
    rw [formatSource_formatted htext]
    exact if_pos rfl

theorem rewritten_of_not_isChange (h : (f.verdict preset).isChange = false) : f.rewritten preset = f := by
  rw [rewritten, format_of_not_isChange h]

theorem rewritten_of_refused (h : (f.verdict preset).isChange = true) (hf : f.unwritable = some fault) :
    f.rewritten preset = f := by
  rw [rewritten, format_of_refused h hf]

end File

namespace Volume

variable {v w : Volume} {preset : Preset} {mode : Mode} {p : Path} {id : FileId} {fault : AccessFault}
  {done : List FileId}

theorem formatFile_of_error (h : v.fileOf p = .error fault) :
    v.formatFile preset mode p = (.failed (.reading fault), v) := by
  rw [formatFile, h]

theorem formatFile_of_ok (h : v.fileOf p = .ok id) :
    v.formatFile preset mode p =
      (((v.files id).format preset mode).1, v.setFile id ((v.files id).format preset mode).2) := by
  rw [formatFile, h]

/-- What a check says of the file that a path leads to. -/
def verdict (v : Volume) (preset : Preset) (p : Path) : FileResult := (v.formatFile preset .check p).1

theorem verdict_of_error (h : v.fileOf p = .error fault) : v.verdict preset p = .failed (.reading fault) := by
  rw [verdict, formatFile_of_error h]

theorem verdict_of_ok (h : v.fileOf p = .ok id) : v.verdict preset p = (v.files id).verdict preset := by
  rw [verdict, formatFile_of_ok h, File.verdict]

theorem formatFile_check (v : Volume) (preset : Preset) (p : Path) :
    v.formatFile preset .check p = (v.verdict preset p, v) := by
  refine Prod.ext rfl ?_
  cases h : v.fileOf p with
  | error fault => rw [formatFile_of_error h]
  | ok id => rw [formatFile_of_ok h, File.format_check, setFile_self]

/-- **A path whose file is not to be changed changes nothing**, in either mode. -/
theorem formatFile_of_not_isChange (h : (v.verdict preset p).isChange = false) (mode : Mode) :
    v.formatFile preset mode p = (v.verdict preset p, v) := by
  cases hfile : v.fileOf p with
  | error fault => rw [formatFile_of_error hfile, verdict_of_error hfile]
  | ok id =>
      rw [verdict_of_ok hfile] at h ⊢
      rw [formatFile_of_ok hfile, File.format_of_not_isChange h, setFile_self]

/-- **What a check would change is a file**, and it says that it would format it. -/
theorem verdict_of_isChange (h : (v.verdict preset p).isChange = true) :
    v.verdict preset p = .wouldFormat ∧
      ∃ id, v.fileOf p = .ok id ∧ ((v.files id).verdict preset).isChange = true := by
  cases hfile : v.fileOf p with
  | error fault =>
      rw [verdict_of_error hfile] at h
      cases h
  | ok id =>
      rw [verdict_of_ok hfile] at h ⊢
      exact ⟨File.verdict_of_isChange h, id, rfl, h⟩

/-! ## A batch on its way -/

/-- **`w` is the volume `v` with some files rewritten.** -/
structure Rewrites (preset : Preset) (v : Volume) (done : List FileId) (w : Volume) : Prop where
  tree  : v.SameTree w
  files : ∀ id, w.files id = if id ∈ done then (v.files id).rewritten preset else v.files id

namespace Rewrites

theorem refl (preset : Preset) (v : Volume) : Rewrites preset v [] v :=
  ⟨.refl v, fun _ => rfl⟩

/-- Only which files were rewritten counts. -/
theorem congr {done' : List FileId} (hw : Rewrites preset v done w) (h : ∀ id, id ∈ done' ↔ id ∈ done) :
    Rewrites preset v done' w where
  tree := hw.tree
  files id := by
    rw [hw.files id]
    simp only [h id]

/-- A file that a rewrite leaves as it is is as it was. -/
theorem files_eq (hw : Rewrites preset v done w) (h : (v.files id).rewritten preset = v.files id) :
    w.files id = v.files id := by
  rw [hw.files, h, ite_self]

/-- One more file is rewritten. -/
theorem setFile (hw : Rewrites preset v done w) (id : FileId) :
    Rewrites preset v (id :: done) (w.setFile id ((v.files id).rewritten preset)) where
  tree := hw.tree.trans (sameTree_setFile w id _)
  files other := by
    rw [files_setFile, hw.files]
    by_cases h : other = id
    · rw [if_pos h, if_pos (h ▸ List.mem_cons_self), h]
    · simp [h]

/-- **One more path**: its file is not to be changed, it cannot be written, it was rewritten before, or it is
    rewritten now. -/
theorem formatFile_cases (hw : Rewrites preset v done w) (p : Path) :
    ((v.verdict preset p).isChange = false ∧ w.formatFile preset .write p = (v.verdict preset p, w)) ∨
    ∃ id, v.fileOf p = .ok id ∧ (v.verdict preset p).isChange = true ∧
      ((∃ fault, (v.files id).unwritable = some fault ∧
          w.formatFile preset .write p = (.failed (.writing fault), w)) ∨
        ((v.files id).unwritable = none ∧ id ∈ done ∧ w.formatFile preset .write p = (.unchanged, w)) ∨
        ((v.files id).unwritable = none ∧ id ∉ done ∧
          w.formatFile preset .write p = (.formatted, w.setFile id ((v.files id).rewritten preset)))) := by
  cases hchange : (v.verdict preset p).isChange with
  | false =>
      refine .inl ⟨rfl, ?_⟩
      cases hfile : v.fileOf p with
      | error fault =>
          have hfile' : w.fileOf p = .error fault := by rw [hw.tree.fileOf, hfile]
          rw [formatFile_of_error hfile', verdict_of_error hfile]
      | ok id =>
          have hfile' : w.fileOf p = .ok id := by rw [hw.tree.fileOf, hfile]
          rw [verdict_of_ok hfile] at hchange ⊢
          have hsame : w.files id = v.files id := hw.files_eq (File.rewritten_of_not_isChange hchange)
          rw [formatFile_of_ok hfile', hsame, File.format_of_not_isChange hchange, ← hsame, setFile_self]
  | true =>
      obtain ⟨-, id, hfile, hid⟩ := verdict_of_isChange hchange
      have hfile' : w.fileOf p = .ok id := by rw [hw.tree.fileOf, hfile]
      refine .inr ⟨id, hfile, rfl, ?_⟩
      cases hwritable : (v.files id).unwritable with
      | some fault =>
          have hsame : w.files id = v.files id := hw.files_eq (File.rewritten_of_refused hid hwritable)
          refine .inl ⟨fault, rfl, ?_⟩
          rw [formatFile_of_ok hfile', hsame, File.format_of_refused hid hwritable, ← hsame, setFile_self]
      | none =>
          obtain ⟨hwrite, hsettled⟩ := File.format_of_writable hid hwritable
          by_cases hmem : id ∈ done
          · have hdone : w.files id = (v.files id).rewritten preset := by rw [hw.files, if_pos hmem]
            refine .inr (.inl ⟨rfl, hmem, ?_⟩)
            rw [formatFile_of_ok hfile', hdone, hsettled, ← hdone, setFile_self]
          · have hsame : w.files id = v.files id := by rw [hw.files, if_neg hmem]
            refine .inr (.inr ⟨rfl, hmem, ?_⟩)
            rw [formatFile_of_ok hfile', hsame, hwrite]

end Rewrites

/-- The files that change, or would, as often as they are met. -/
def changes (v : Volume) (rs : List (Path × FileResult)) : List FileId :=
  rs.filterMap fun (p, r) => if r.isChange then (v.fileOf p).toOption else none

/-- **What a rewrite makes of what a check found**: a change is made where the system allows it and it was not
    made before. `done` are the files in which one was made. -/
def carryOut (v : Volume) : List FileId → List (Path × FileResult) → List (Path × FileResult)
  | _, [] => []
  | done, (p, r) :: rs =>
    match v.fileOf p with
    | .error _ => (p, r) :: v.carryOut done rs
    | .ok id =>
      if r.isChange then
        match (v.files id).unwritable with
        | some fault => (p, .failed (.writing fault)) :: v.carryOut done rs
        | none =>
          if id ∈ done then (p, .unchanged) :: v.carryOut done rs
          else (p, .formatted) :: v.carryOut (id :: done) rs
      else (p, r) :: v.carryOut done rs

section Foretold

variable {r : FileResult} {rs : List (Path × FileResult)}

theorem changes_of_isChange (h : v.fileOf p = .ok id) (hr : r.isChange = true) :
    v.changes ((p, r) :: rs) = id :: v.changes rs := by
  simp [changes, h, hr, Except.toOption]

theorem changes_of_not_isChange (hr : r.isChange = false) : v.changes ((p, r) :: rs) = v.changes rs := by
  simp [changes, hr]

theorem carryOut_of_refused (h : v.fileOf p = .ok id) (hr : r.isChange = true)
    (hf : (v.files id).unwritable = some fault) :
    v.carryOut done ((p, r) :: rs) = (p, .failed (.writing fault)) :: v.carryOut done rs := by
  simp [carryOut, h, hr, hf]

theorem carryOut_of_mem (h : v.fileOf p = .ok id) (hr : r.isChange = true)
    (hf : (v.files id).unwritable = none) (hmem : id ∈ done) :
    v.carryOut done ((p, r) :: rs) = (p, .unchanged) :: v.carryOut done rs := by
  simp [carryOut, h, hr, hf, hmem]

theorem carryOut_of_not_mem (h : v.fileOf p = .ok id) (hr : r.isChange = true)
    (hf : (v.files id).unwritable = none) (hmem : id ∉ done) :
    v.carryOut done ((p, r) :: rs) = (p, .formatted) :: v.carryOut (id :: done) rs := by
  simp [carryOut, h, hr, hf, hmem]

theorem carryOut_of_not_isChange (hr : r.isChange = false) :
    v.carryOut done ((p, r) :: rs) = (p, r) :: v.carryOut done rs := by
  rw [carryOut]
  cases v.fileOf p <;> simp [hr]

/-- What a check says of each path. -/
def verdicts (v : Volume) (preset : Preset) (ps : List Path) : List (Path × FileResult) :=
  ps.map fun p => (p, v.verdict preset p)

theorem verdicts_cons (v : Volume) (preset : Preset) (p : Path) (ps : List Path) :
    v.verdicts preset (p :: ps) = (p, v.verdict preset p) :: v.verdicts preset ps := rfl

theorem formatFiles_cons (preset : Preset) (mode : Mode) (p : Path) (ps : List Path) (w : Volume) :
    w.formatFiles preset mode (p :: ps) =
      ((p, (w.formatFile preset mode p).1) ::
        ((w.formatFile preset mode p).2.formatFiles preset mode ps).1,
        ((w.formatFile preset mode p).2.formatFiles preset mode ps).2) := rfl

/-- **A check changes nothing**, so it says of each file what it would say of that file alone. -/
theorem formatFiles_check (ps : List Path) :
    v.formatFiles preset .check ps = (v.verdicts preset ps, v) := by
  induction ps with
  | nil => rfl
  | cons p ps ih =>
      rw [formatFiles_cons, formatFile_check, ih]
      rfl

/-- The files that a rewrite changes: of those that a check would change, the ones that can be written. -/
def written (v : Volume) (preset : Preset) (ps : List Path) : List FileId :=
  (v.changes (v.verdicts preset ps)).filter fun id => (v.files id).unwritable.isNone

/-- **A check foretells a rewrite**, file by file, and the volume that it leaves. -/
theorem Rewrites.formatFiles (hw : Rewrites preset v done w) (ps : List Path) :
    (w.formatFiles preset .write ps).1 = v.carryOut done (v.verdicts preset ps) ∧
      Rewrites preset v (v.written preset ps ++ done) (w.formatFiles preset .write ps).2 := by
  induction ps generalizing done w with
  | nil => exact ⟨rfl, hw⟩
  | cons p ps ih =>
      rw [formatFiles_cons, written, verdicts_cons]
      rcases hw.formatFile_cases p with ⟨hkeep, hstep⟩ |
        ⟨id, h, hchange, ⟨fault, hf, hstep⟩ | ⟨hf, hmem, hstep⟩ | ⟨hf, hmem, hstep⟩⟩
      · obtain ⟨hrs, hw'⟩ := ih hw
        rw [hstep, carryOut_of_not_isChange hkeep, changes_of_not_isChange hkeep]
        exact ⟨by rw [hrs], hw'⟩
      · obtain ⟨hrs, hw'⟩ := ih hw
        rw [hstep, carryOut_of_refused h hchange hf, changes_of_isChange h hchange, List.filter_cons, hf]
        exact ⟨by rw [hrs], hw'⟩
      · -- the file was rewritten before, and counts once
        obtain ⟨hrs, hw'⟩ := ih hw
        rw [hstep, carryOut_of_mem h hchange hf hmem, changes_of_isChange h hchange, List.filter_cons, hf]
        exact ⟨by rw [hrs], hw'.congr (by simp [written, hmem])⟩
      · obtain ⟨hrs, hw'⟩ := ih (hw.setFile id)
        rw [hstep, carryOut_of_not_mem h hchange hf hmem, changes_of_isChange h hchange, List.filter_cons, hf]
        exact ⟨by rw [hrs], hw'.congr fun q => List.perm_middle.symm.mem_iff⟩

end Foretold
end Volume
end ScriptSpacing
