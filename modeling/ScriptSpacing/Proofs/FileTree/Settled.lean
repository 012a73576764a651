import ScriptSpacing.Proofs.FileTree.Foretold

/-!
# `Proofs.FileTree.Settled` — what a rewrite leaves behind

A rewrite leaves in each file that it collects the text that formatting leaves, and all other files as they were
(`Rewrites.files_of_collected`, `Rewrites.files_of_not_collected`). Where the system lets texts be read and
written (`Volume.Permits`), each file that was met is settled then: run again, the rewrite has nothing to change
and fails where it failed before, and so does a check (`formatPaths_settles`).
-/

namespace ScriptSpacing

namespace FileResult

/-- What a run says of a file after a rewrite. -/
def settled : FileResult → FileResult
  | .formatted | .wouldFormat => .unchanged
  | r                         => r

variable {r : FileResult}

/-- Nothing is left to change, -/
theorem isChange_settled (r : FileResult) : r.settled.isChange = false := by
  cases r <;> rfl

/-- and the faults are left as they are. -/
theorem isFailure_settled (r : FileResult) : r.settled.isFailure = r.isFailure := by
  cases r <;> rfl

theorem settled_of_isFailure (h : r.isFailure = true) : r.settled = r := by
  cases r <;> first | rfl | cases h

theorem settled_of_not_isChange (h : r.isChange = false) : r.settled = r := by
  cases r <;> first | rfl | cases h

end FileResult

open FileResult

namespace File

variable {preset : Preset} {f : File}

/-- **After a rewrite a file is settled**, unless the rewrite was refused. -/
theorem verdict_rewritten (h : (f.verdict preset).isChange = true → f.unwritable = none) :
    (f.rewritten preset).verdict preset = (f.verdict preset).settled := by
  cases hchange : (f.verdict preset).isChange with
  | false => rw [rewritten_of_not_isChange hchange, settled_of_not_isChange hchange]
  | true =>
      rw [verdict, (format_of_writable hchange (h hchange)).2, verdict_of_isChange hchange]
      rfl

/-- A file that would change is a text. -/
theorem text_of_isChange (h : (f.verdict preset).isChange = true) :
    ∃ source, textOfBytes f.bytes = .ok source := by
  obtain ⟨source, -, hread, -⟩ := changing_of_isChange h
  rw [read] at hread
  split at hread
  · cases hread
  · exact ⟨source, hread⟩

/-- **What a rewrite leaves of a file** that can be read and written if it is a text: the formatted text, or the
    file as it was if it is not a text or has a problem. -/
theorem rewritten_cases (preset : Preset)
    (h : ∀ source, textOfBytes f.bytes = .ok source → f.unreadable = none ∧ f.unwritable = none) :
    (∃ source text, textOfBytes f.bytes = .ok source ∧ formatSource source preset = .ok text ∧
        f.rewritten preset = { f with bytes := text.toUTF8 }) ∨
      (f.rewritten preset = f ∧ ((∃ fault, textOfBytes f.bytes = .error fault) ∨
        ∃ source e, textOfBytes f.bytes = .ok source ∧ formatSource source preset = .error e)) := by
  cases htext : textOfBytes f.bytes with
  | error fault =>
      refine .inr ⟨rewritten_of_not_isChange (Bool.eq_false_iff.mpr fun hchange => ?_), .inl ⟨fault, rfl⟩⟩
      obtain ⟨source, hsource⟩ := text_of_isChange hchange
      rw [htext] at hsource
      cases hsource
  | ok source =>
      obtain ⟨hreadable, hwritable⟩ := h source htext
      have hread : f.read = .ok source := by rw [read, hreadable, ← htext]
      cases formatting preset f with
      | unread hread' _ =>
          rw [hread] at hread'
          cases hread'
      | @problem source' e hread' hproblem hformat =>
          rw [hread] at hread'
          cases hread'
          exact .inr ⟨by rw [rewritten, hformat], .inr ⟨source, e, rfl, hproblem⟩⟩
      | @same source' hread' hsame hformat =>
          rw [hread] at hread'
          cases hread'
          refine .inl ⟨source, source, rfl, hsame, ?_⟩
          rw [rewritten, hformat, textOfBytes_eq_ok_iff.mp htext]
      | refused _ _ hrefused _ _ =>
          rw [hwritable] at hrefused
          cases hrefused
      | @changed source' text hread' hformat _ _ hwrite =>
          rw [hread] at hread'
          cases hread'
          exact .inl ⟨source, text, rfl, hformat, by rw [rewritten, hwrite]⟩

end File

namespace Volume

variable {v w : Volume} {preset : Preset} {mode : Mode} {p : Path} {ps : List Path} {id : FileId}

/-- **Texts can be read and written**: where a file is a text, the system refuses neither. -/
def Permits (v : Volume) : Prop :=
  ∀ id source, textOfBytes (v.files id).bytes = .ok source →
    (v.files id).unreadable = none ∧ (v.files id).unwritable = none

/-- **A run over paths collects a file**: it is one of the scripts that one of the paths stands for. -/
def Collects (v : Volume) (paths : List String) (id : FileId) : Prop :=
  ∃ path ∈ paths, ∃ p ∈ v.scripts path, v.fileOf p = .ok id

theorem collects_iff {paths : List String} :
    v.Collects paths id ↔ ∃ p ∈ paths.flatMap v.scripts, v.fileOf p = .ok id := by
  simp only [Collects, List.mem_flatMap]
  constructor
  · rintro ⟨path, hpath, p, hp, h⟩
    exact ⟨p, ⟨path, hpath, hp⟩, h⟩
  · rintro ⟨p, ⟨path, hpath, hp⟩, h⟩
    exact ⟨path, hpath, p, hp, h⟩

/-- **A path that leads nowhere** is one that cannot be followed to its end. -/
theorem isMissing_iff {path : String} :
    v.isMissing path = true ↔ ∃ fault, v.locate ⟨path, []⟩ = .error fault := by
  rw [isMissing, Volume.entry?]
  cases v.locate ⟨path, []⟩ <;> simp [Except.toOption]

/-- It stands for no scripts. -/
theorem scripts_of_isMissing {path : String} (h : v.isMissing path = true) : v.scripts path = [] := by
  rw [isMissing, Option.isNone_iff_eq_none] at h
  rw [scripts, h]

/-- **The scripts of a list of paths** are those of the paths that lead somewhere. -/
theorem flatMap_scripts (v : Volume) (paths : List String) :
    (paths.filter (!v.isMissing ·)).flatMap v.scripts = paths.flatMap v.scripts := by
  induction paths with
  | nil => rfl
  | cons path paths ih =>
      cases h : v.isMissing path with
      | true =>
          rw [List.filter_cons_of_neg (by simp [h]), ih, List.flatMap_cons, scripts_of_isMissing h, List.nil_append]
      | false => rw [List.filter_cons_of_pos (by simp [h]), List.flatMap_cons, List.flatMap_cons, ih]

/-! ## The volume that is left -/

/-- The files that change are among those that are met. -/
theorem mem_changes_iff : id ∈ v.changes (v.verdicts preset ps) ↔
    ∃ p ∈ ps, v.fileOf p = .ok id ∧ (v.verdict preset p).isChange = true := by
  rw [changes, verdicts, List.filterMap_map, List.mem_filterMap]
  refine exists_congr fun p => and_congr_right fun _ => ?_
  dsimp only [Function.comp_apply]
  cases v.fileOf p <;> cases (v.verdict preset p).isChange <;> simp [Except.toOption]

/-- Where texts can be written, no change is refused. -/
theorem Permits.writable (hv : v.Permits) :
    ∀ id ∈ v.changes (v.verdicts preset ps), (v.files id).unwritable = none := by
  intro id hid
  obtain ⟨p, -, h, hchange⟩ := mem_changes_iff.mp hid
  rw [verdict_of_ok h] at hchange
  obtain ⟨source, hsource⟩ := File.text_of_isChange hchange
  exact (hv id source hsource).2

/-- **A rewrite leaves what formatting leaves** in a file that it meets. -/
theorem Rewrites.files_of_collected (hw : Rewrites preset v (v.written preset ps) w) (hp : p ∈ ps)
    (h : v.fileOf p = .ok id) : w.files id = (v.files id).rewritten preset := by
  rw [hw.files]
  split
  · rfl
  · next hkept =>
      -- it was kept, so it is not to be changed, or the change was refused
      cases hchange : ((v.files id).verdict preset).isChange with
      | false => exact (File.rewritten_of_not_isChange hchange).symm
      | true =>
          cases hf : (v.files id).unwritable with
          | some fault => exact (File.rewritten_of_refused hchange hf).symm
          | none =>
              rw [← verdict_of_ok h] at hchange
              have hmem : id ∈ v.changes (v.verdicts preset ps) := mem_changes_iff.mpr ⟨p, hp, h, hchange⟩
              exact absurd (List.mem_filter.mpr ⟨hmem, by simp [hf]⟩) hkept

/-- **A rewrite leaves a file alone** that it does not meet. -/
theorem Rewrites.files_of_not_collected (hw : Rewrites preset v (v.written preset ps) w)
    (h : ¬∃ p ∈ ps, v.fileOf p = .ok id) : w.files id = v.files id := by
  rw [hw.files, if_neg]
  intro hmem
  obtain ⟨p, hp, hfile, -⟩ := mem_changes_iff.mp (List.mem_filter.mp hmem).1
  exact h ⟨p, hp, hfile⟩

/-! ## The next run -/

/-- **After a rewrite each file is settled.** -/
theorem Rewrites.verdict_eq_settled (hw : Rewrites preset v (v.written preset ps) w) (hv : v.Permits)
    (hp : p ∈ ps) : w.verdict preset p = (v.verdict preset p).settled := by
  cases h : v.fileOf p with
  | error fault =>
      have hfile : w.fileOf p = .error fault := by rw [hw.tree.fileOf, h]
      rw [verdict_of_error hfile, verdict_of_error h]
      rfl
  | ok id =>
      have hfile : w.fileOf p = .ok id := by rw [hw.tree.fileOf, h]
      rw [verdict_of_ok hfile, verdict_of_ok h, hw.files_of_collected hp h]
      refine File.verdict_rewritten fun hchange => ?_
      obtain ⟨source, hsource⟩ := File.text_of_isChange hchange
      exact (hv id source hsource).2

/-- **Where nothing is to be changed, a run in either mode is a check.** -/
theorem formatFiles_of_not_isChange (mode : Mode) (h : ∀ p ∈ ps, (w.verdict preset p).isChange = false) :
    w.formatFiles preset mode ps = (w.verdicts preset ps, w) := by
  induction ps with
  | nil => rfl
  | cons p ps ih =>
      obtain ⟨hp, hps⟩ := List.forall_mem_cons.mp h
      rw [formatFiles_cons, formatFile_of_not_isChange hp, ih hps]
      rfl

theorem changed_verdicts_eq_nil (h : ∀ p ∈ ps, (w.verdict preset p).isChange = false) :
    changed (w.verdicts preset ps) = [] := by
  rw [changed, List.map_eq_nil_iff, List.filter_eq_nil_iff, verdicts]
  intro e he
  obtain ⟨p, hp, rfl⟩ := List.mem_map.mp he
  exact Bool.eq_false_iff.mp (h p hp)

/-- Files that are settled fail as they failed before. -/
theorem failures_verdicts_eq (h : ∀ p ∈ ps, w.verdict preset p = (v.verdict preset p).settled) :
    failures (w.verdicts preset ps) = failures (v.verdicts preset ps) := by
  induction ps with
  | nil => rfl
  | cons p ps ih =>
      obtain ⟨hp, hps⟩ := List.forall_mem_cons.mp h
      rw [verdicts_cons, verdicts_cons, hp]
      cases hfails : (v.verdict preset p).isFailure with
      | true =>
          rw [settled_of_isFailure hfails, failures_of_isFailure hfails, failures_of_isFailure hfails, ih hps]
      | false =>
          have hsettled : (v.verdict preset p).settled.isFailure = false := by rw [isFailure_settled, hfails]
          rw [failures_of_not_isFailure hsettled, failures_of_not_isFailure hfails, ih hps]

/-- How a run ends depends on what it counts. -/
theorem isFailure_formatPaths (v : Volume) (preset : Preset) (mode : Mode) (paths : List String) :
    (Command.formatPaths preset mode paths v).1.isFailure = !(v.summary preset mode paths).isSuccess mode :=
  rfl

/-- A run that changes nothing ends well if it meets no fault. -/
theorem isSuccess_of_formatted_eq_zero {s : Summary} (h : s.formatted = 0) (mode : Mode) :
    s.isSuccess mode = decide (s.errors = 0) := by
  simp [Summary.isSuccess, h]

/-- **A run leaves the files in order, and settled**, where texts can be read and written. A check changes
    nothing. A rewrite keeps every name, and leaves in each file that it collects, if it is a text that can be
    formatted, the formatted text; any other file stays as it was. A run meets the scripts of the paths that lead
    somewhere, one after the other and as often as they are named; it counts each of them, and each path that
    leads nowhere, once. After the rewrite, neither it nor a check of the same paths has anything to change: both
    leave the volume as it is, name no file as changed, report the faults of the first run, and end as it
    ended. -/
theorem formatPaths_settles (preset : Preset) (paths : List String) (v : Volume) (hv : v.Permits) :
    let w := (Command.formatPaths preset .write paths v).2
    (Command.formatPaths preset .check paths v).2 = v ∧
    v.SameTree w ∧
    (∀ id,
      (∃ source text, v.Collects paths id ∧ textOfBytes (v.files id).bytes = .ok source ∧
        formatSource source preset = .ok text ∧ w.files id = { v.files id with bytes := text.toUTF8 }) ∨
      (w.files id = v.files id ∧
        (¬v.Collects paths id ∨ (∃ fault, textOfBytes (v.files id).bytes = .error fault) ∨
          ∃ source e, textOfBytes (v.files id).bytes = .ok source ∧ formatSource source preset = .error e))) ∧
    (∀ path, v.isMissing path = true ↔ ∃ fault, v.locate ⟨path, []⟩ = .error fault) ∧
    (∀ mode,
      (v.results preset mode paths).map (·.1) = (paths.filter (!v.isMissing ·)).flatMap v.scripts ∧
      (v.summary preset mode paths).total =
        ((paths.filter (!v.isMissing ·)).flatMap v.scripts).length + (paths.filter v.isMissing).length) ∧
    ∀ mode,
      (Command.formatPaths preset mode paths w).2 = w ∧
      (w.results preset mode paths).map (·.1) = (v.results preset .write paths).map (·.1) ∧
      (w.summary preset mode paths).formatted = 0 ∧
      changed (w.results preset mode paths) = [] ∧
      failures (w.results preset mode paths) = failures (v.results preset .write paths) ∧
      (Command.formatPaths preset mode paths w).1.stdout =
        lines (Command.summaryLines mode (w.summary preset mode paths)) ∧
      (Command.formatPaths preset mode paths w).1.stderr =
        (Command.formatPaths preset .write paths v).1.stderr ∧
      (Command.formatPaths preset mode paths w).1.isFailure =
        (Command.formatPaths preset .write paths v).1.isFailure := by
  intro w
  have hw : Rewrites preset v (v.written preset (paths.flatMap v.scripts)) w :=
    ((Rewrites.refl preset v).formatFiles (paths.flatMap v.scripts)).2.congr (by simp)
  have hbatch : w.batch paths = v.batch paths := hw.tree.batch paths
  have hsettled : ∀ p ∈ paths.flatMap v.scripts, w.verdict preset p = (v.verdict preset p).settled :=
    fun _ hp => hw.verdict_eq_settled hv hp
  have hkeep : ∀ p ∈ paths.flatMap v.scripts, (w.verdict preset p).isChange = false := fun p hp => by
    rw [hsettled p hp, isChange_settled]
  refine ⟨?_, hw.tree, fun id => ?_, fun path => isMissing_iff, fun mode => ⟨?_, ?_⟩, fun mode => ?_⟩
  · exact congrArg Prod.snd (formatFiles_check (paths.flatMap v.scripts))
  · by_cases hcollected : v.Collects paths id
    · obtain ⟨p, hp, h⟩ := collects_iff.mp hcollected
      rw [hw.files_of_collected hp h]
      rcases File.rewritten_cases preset (hv id) with ⟨source, text, hread, hformat, hleft⟩ | ⟨hleft, hwhy⟩
      · exact .inl ⟨source, text, hcollected, hread, hformat, hleft⟩
      · exact .inr ⟨hleft, .inr hwhy⟩
    · exact .inr ⟨hw.files_of_not_collected (mt collects_iff.mpr hcollected), .inl hcollected⟩
  · rw [map_fst_results, flatMap_scripts]
  · rw [total_summary, flatMap_scripts, List.countP_eq_length_filter]
  · have hrun : w.formatFiles preset mode (w.batch paths).files =
        (w.verdicts preset (paths.flatMap v.scripts), w) := by
      rw [hbatch]
      exact formatFiles_of_not_isChange mode hkeep
    have hvolume : (Command.formatPaths preset mode paths w).2 = w := by
      change (w.formatFiles preset mode (w.batch paths).files).2 = w
      rw [hrun]
    have hresults : w.results preset mode paths = w.verdicts preset (paths.flatMap v.scripts) :=
      congrArg Prod.fst hrun
    have hchanged : changed (w.results preset mode paths) = [] := by
      rw [hresults]
      exact changed_verdicts_eq_nil hkeep
    have hfail : failures (w.results preset mode paths) = failures (v.results preset .write paths) := by
      rw [hresults, failures_verdicts_eq hsettled, results_write, results_check,
        failures_carryOut_of_writable hv.writable]
    have hformatted : (w.summary preset mode paths).formatted = 0 := by
      rw [summary_eq, hchanged]
      rfl
    have herrors : (w.summary preset mode paths).errors = (v.summary preset .write paths).errors := by
      rw [summary_eq, summary_eq, hw.tree.isMissing, hfail]
    refine ⟨hvolume, ?_, hformatted, hchanged, hfail, ?_, ?_, ?_⟩
    · rw [map_fst_results, map_fst_results, hw.tree.scripts]
    · rw [stdout_formatPaths, hchanged]
      rfl
    · rw [stderr_formatPaths, stderr_formatPaths, hw.tree.complaints, hfail]
    · rw [isFailure_formatPaths, isFailure_formatPaths, isSuccess_of_formatted_eq_zero hformatted, herrors]
      simp [Summary.isSuccess]

/-- A file that changes, a path that leads nowhere, and a file that fails. -/
theorem formatPaths_settles_mixed :
    let v : Volume :=
      { tree := .folder "lib" (.file "a.js" 0 (.file "b.js" 1 .empty)) .empty
        files := fun id => { bytes := (if id = 0 then "x = ( a + b );\n" else "x = ( a;\n").toUTF8 } }
    let paths := ["lib/a.js", "none.js", "lib/b.js"]
    let w := (Command.formatPaths .standard .write paths v).2
    v.Permits ∧ v.summary .standard .write paths = ⟨1, 0, 2⟩ ∧
      w.files 0 = { v.files 0 with bytes := "x = (a + b);\n".toUTF8 } ∧ w.files 1 = v.files 1 ∧
      (Command.formatPaths .standard .check paths w).2 = w ∧
      (w.summary .standard .check paths).formatted = 0 ∧
      (Command.formatPaths .standard .check paths w).1.isFailure = true := by
  intro v paths w
  have hv : v.Permits := fun _ _ _ => ⟨rfl, rfl⟩
  have hcounts : v.summary .standard .write paths = ⟨1, 0, 2⟩ := by decide +kernel
  obtain ⟨-, -, hfiles, -, -, hagain⟩ := formatPaths_settles .standard paths v hv
  obtain ⟨hleft, -, hformatted, -, -, -, -, hend⟩ := hagain .check
  have hchanged : v.Collects paths 0 :=
    ⟨"lib/a.js", by decide, ⟨"lib/a.js", []⟩, by decide +kernel, by decide +kernel⟩
  have htext (s : String) : textOfBytes s.toUTF8 = .ok s := textOfBytes_eq_ok_iff.mpr rfl
  refine ⟨hv, hcounts, ?_, ?_, hleft, hformatted, ?_⟩
  · have hformat : formatSource "x = ( a + b );\n" .standard = .ok "x = (a + b);\n" := by decide +kernel
    rcases hfiles 0 with ⟨source, text, -, hread, hnew, h⟩ |
      ⟨-, hkept | ⟨fault, hread⟩ | ⟨source, e, hread, hproblem⟩⟩
    · cases (htext "x = ( a + b );\n").symm.trans hread
      cases hformat.symm.trans hnew
      exact h
    · exact absurd hchanged hkept
    · cases (htext "x = ( a + b );\n").symm.trans hread
    · cases (htext "x = ( a + b );\n").symm.trans hread
      cases hformat.symm.trans hproblem
  · rcases hfiles 1 with ⟨source, text, -, hread, hnew, -⟩ | ⟨h, -⟩
    · cases (htext "x = ( a;\n").symm.trans hread
      have hproblem : (formatSource "x = ( a;\n" .standard).toOption = none := by decide +kernel
      rw [hnew] at hproblem
      cases hproblem
    · exact h
  · rw [hend, isFailure_formatPaths, hcounts]
    rfl

end Volume
end ScriptSpacing
