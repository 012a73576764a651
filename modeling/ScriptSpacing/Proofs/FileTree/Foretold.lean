import ScriptSpacing.Proofs.FileTree.Batch

/-!
# `Proofs.FileTree.Foretold` — what a check foretells

A check and a rewrite of the same paths meet the same files. They count and name the same changes exactly when
every file that would change is met once and can be written: at the second time a check finds it as it was, and
a rewrite finds it rewritten; and where the system refuses a change, the rewrite has a fault more. All other
faults are the same, in the same words (`check_foretells_iff`).
-/

namespace ScriptSpacing

namespace FileResult

/-- Whether the system refused a change. -/
def isRefused : FileResult → Bool
  | .failed (.writing _) => true
  | _                    => false

/-- The paths of the files that change, or would, in order. -/
def changed (rs : List (Path × FileResult)) : List Path := (rs.filter (·.2.isChange)).map (·.1)

/-- The files that fail, with their faults, in order. -/
def failures (rs : List (Path × FileResult)) : List (Path × FileResult) := rs.filter (·.2.isFailure)

variable {p : Path} {r : FileResult} {rs : List (Path × FileResult)}

theorem isFailure_of_isChange (h : r.isChange = true) : r.isFailure = false := by
  cases r <;> first | rfl | cases h

theorem changed_of_isChange (h : r.isChange = true) : changed ((p, r) :: rs) = p :: changed rs := by
  simp [changed, h]

theorem changed_of_not_isChange (h : r.isChange = false) : changed ((p, r) :: rs) = changed rs := by
  simp [changed, h]

theorem failures_of_isFailure (h : r.isFailure = true) :
    failures ((p, r) :: rs) = (p, r) :: failures rs := by
  simp [failures, h]

theorem failures_of_not_isFailure (h : r.isFailure = false) : failures ((p, r) :: rs) = failures rs := by
  simp [failures, h]

theorem length_changed (rs : List (Path × FileResult)) : (changed rs).length = rs.countP (·.2.isChange) := by
  rw [changed, List.length_map, List.countP_eq_length_filter]

theorem length_failures (rs : List (Path × FileResult)) :
    (failures rs).length = rs.countP (·.2.isFailure) := by
  rw [failures, List.countP_eq_length_filter]

/-- **Every file is counted once.** -/
theorem count_add_count (rs : List (Path × FileResult)) :
    rs.countP (·.2.isChange) + rs.countP (·.2 = .unchanged) + rs.countP (·.2.isFailure) = rs.length := by
  induction rs with
  | nil => rfl
  | cons e rs ih =>
      have hone : (if e.2.isChange = true then 1 else 0) +
          (if decide (e.2 = .unchanged) = true then 1 else 0) +
          (if e.2.isFailure = true then 1 else 0) = 1 := by
        cases e.2 <;> rfl
      rw [List.countP_cons, List.countP_cons, List.countP_cons, List.length_cons]
      omega

end FileResult

open FileResult

/-- **The counts of a batch**: the changes, the files that stay as they are, and the missing paths with the
    faults. -/
theorem Summary.ofResults_eq (missing : Nat) (rs : List (Path × FileResult)) :
    ofResults missing rs =
      ⟨(changed rs).length, rs.countP (·.2 = .unchanged), missing + (failures rs).length⟩ := by
  rw [ofResults, length_changed, length_failures]

/-- **All files and missing paths are counted**, each once. -/
theorem Summary.total_ofResults (missing : Nat) (rs : List (Path × FileResult)) :
    (ofResults missing rs).total = rs.length + missing := by
  have hcount := count_add_count rs
  simp only [total, ofResults]
  omega

/-- What is said about a file that changes, or would. -/
def changeLine (mode : Mode) (p : Path) : String :=
  match mode with
  | .write => s!"Formatted: {p.text}"
  | .check => s!"Would format: {p.text}"

namespace File

variable {preset : Preset} {mode : Mode} {f : File}

/-- No change is refused to a check. -/
theorem isRefused_verdict (preset : Preset) (f : File) : (f.verdict preset).isRefused = false := by
  rw [verdict]
  cases formatting preset f with
  | unread _ hformat | problem _ _ hformat | same _ _ hformat => rw [hformat]; rfl
  | refused _ _ _ hcheck _ | changed _ _ _ hcheck _ => rw [hcheck]; rfl

/-- A file that changes is said to, in the words of the mode. -/
theorem changeLines_format (preset : Preset) (mode : Mode) (f : File) (p : Path) :
    Command.changeLines p (f.format preset mode).1 =
      if (f.format preset mode).1.isChange then [changeLine mode p] else [] := by
  cases formatting preset f with
  | unread _ hformat | problem _ _ hformat | same _ _ hformat => rw [hformat]; rfl
  | refused _ _ _ hcheck hwrite | changed _ _ _ hcheck hwrite =>
      cases mode with
      | write => rw [hwrite]; rfl
      | check => rw [hcheck]; rfl

end File

namespace Volume

/-- What a run over paths comes to, file by file. -/
def results (v : Volume) (preset : Preset) (mode : Mode) (paths : List String) : List (Path × FileResult) :=
  (v.formatFiles preset mode (v.batch paths).files).1

/-- What a run over paths counts. -/
def summary (v : Volume) (preset : Preset) (mode : Mode) (paths : List String) : Summary :=
  Summary.ofResults (v.batch paths).missing (v.results preset mode paths)

variable {v : Volume} {preset : Preset} {mode : Mode} {done : List FileId} {p : Path}

theorem results_check (paths : List String) :
    v.results preset .check paths = v.verdicts preset (paths.flatMap v.scripts) := by
  rw [results, formatFiles_check]
  rfl

theorem results_write (paths : List String) :
    v.results preset .write paths = v.carryOut [] (v.results preset .check paths) := by
  rw [results_check]
  exact ((Rewrites.refl preset v).formatFiles _).1

theorem map_fst_formatFiles (v : Volume) (preset : Preset) (mode : Mode) (ps : List Path) :
    (v.formatFiles preset mode ps).1.map (·.1) = ps := by
  induction ps generalizing v with
  | nil => rfl
  | cons p ps ih => rw [formatFiles_cons, List.map_cons, ih]

/-- **A run meets the scripts of its paths**, path by path, as often as they are named. -/
theorem map_fst_results (v : Volume) (preset : Preset) (mode : Mode) (paths : List String) :
    (v.results preset mode paths).map (·.1) = paths.flatMap v.scripts :=
  map_fst_formatFiles v preset mode _

theorem length_results (v : Volume) (preset : Preset) (mode : Mode) (paths : List String) :
    (v.results preset mode paths).length = (paths.flatMap v.scripts).length := by
  rw [← map_fst_results v preset mode paths, List.length_map]

theorem summary_eq (v : Volume) (preset : Preset) (mode : Mode) (paths : List String) :
    v.summary preset mode paths =
      ⟨(changed (v.results preset mode paths)).length, (v.results preset mode paths).countP (·.2 = .unchanged),
        paths.countP v.isMissing + (failures (v.results preset mode paths)).length⟩ := by
  rw [summary, Summary.ofResults_eq]
  rfl

/-- **A run counts each file and each missing path once.** -/
theorem total_summary (v : Volume) (preset : Preset) (mode : Mode) (paths : List String) :
    (v.summary preset mode paths).total = (paths.flatMap v.scripts).length + paths.countP v.isMissing := by
  rw [summary, Summary.total_ofResults, length_results]
  rfl

/-! ## File by file -/

/-- No change is refused to a check. -/
theorem isRefused_verdict (v : Volume) (preset : Preset) (p : Path) :
    (v.verdict preset p).isRefused = false := by
  cases h : v.fileOf p with
  | error fault => rw [verdict_of_error h]; rfl
  | ok id => rw [verdict_of_ok h, File.isRefused_verdict]

/-- **What a rewrite makes of what a check found first**: it is kept, or it is a change that is refused, was made
    before or is made. -/
theorem carryOut_verdicts_cases (v : Volume) (preset : Preset) (done : List FileId) (p : Path)
    (ps : List Path) :
    ((v.verdict preset p).isChange = false ∧
        v.changes (v.verdicts preset (p :: ps)) = v.changes (v.verdicts preset ps) ∧
        v.carryOut done (v.verdicts preset (p :: ps)) =
          (p, v.verdict preset p) :: v.carryOut done (v.verdicts preset ps)) ∨
    ∃ id, (v.verdict preset p).isChange = true ∧
      v.changes (v.verdicts preset (p :: ps)) = id :: v.changes (v.verdicts preset ps) ∧
      ((∃ fault, (v.files id).unwritable = some fault ∧
          v.carryOut done (v.verdicts preset (p :: ps)) =
            (p, .failed (.writing fault)) :: v.carryOut done (v.verdicts preset ps)) ∨
        ((v.files id).unwritable = none ∧ id ∈ done ∧
          v.carryOut done (v.verdicts preset (p :: ps)) =
            (p, .unchanged) :: v.carryOut done (v.verdicts preset ps)) ∨
        ((v.files id).unwritable = none ∧ id ∉ done ∧
          v.carryOut done (v.verdicts preset (p :: ps)) =
            (p, .formatted) :: v.carryOut (id :: done) (v.verdicts preset ps))) := by
  rw [verdicts_cons]
  cases hchange : (v.verdict preset p).isChange with
  | false => exact .inl ⟨rfl, changes_of_not_isChange hchange, carryOut_of_not_isChange hchange⟩
  | true =>
      obtain ⟨-, id, h, -⟩ := verdict_of_isChange hchange
      refine .inr ⟨id, rfl, changes_of_isChange h hchange, ?_⟩
      cases hf : (v.files id).unwritable with
      | some fault => exact .inl ⟨fault, rfl, carryOut_of_refused h hchange hf⟩
      | none =>
          by_cases hmem : id ∈ done
          · exact .inr (.inl ⟨rfl, hmem, carryOut_of_mem h hchange hf hmem⟩)
          · exact .inr (.inr ⟨rfl, hmem, carryOut_of_not_mem h hchange hf hmem⟩)

/-- **A rewrite fails where a check fails**, and where a change is refused. -/
theorem failures_carryOut (v : Volume) (preset : Preset) (done : List FileId) (ps : List Path) :
    (failures (v.carryOut done (v.verdicts preset ps))).filter (!·.2.isRefused) =
      failures (v.verdicts preset ps) := by
  induction ps generalizing done with
  | nil => rfl
  | cons p ps ih =>
      rcases carryOut_verdicts_cases v preset done p ps with ⟨-, -, hout⟩ |
        ⟨id, hchange, -, ⟨fault, -, hout⟩ | ⟨-, -, hout⟩ | ⟨-, -, hout⟩⟩
      · rw [hout, verdicts_cons]
        cases hfails : (v.verdict preset p).isFailure with
        | true =>
            rw [failures_of_isFailure hfails, failures_of_isFailure hfails, List.filter_cons, isRefused_verdict, ih]
            rfl
        | false => rw [failures_of_not_isFailure hfails, failures_of_not_isFailure hfails, ih]
      · rw [hout, verdicts_cons, failures_of_isFailure rfl,
          failures_of_not_isFailure (isFailure_of_isChange hchange), ← ih]
        rfl
      · rw [hout, verdicts_cons, failures_of_not_isFailure rfl,
          failures_of_not_isFailure (isFailure_of_isChange hchange), ih]
      · rw [hout, verdicts_cons, failures_of_not_isFailure rfl,
          failures_of_not_isFailure (isFailure_of_isChange hchange), ih]

/-- **It has a fault more for each change that is refused.** -/
theorem length_failures_carryOut (v : Volume) (preset : Preset) (done : List FileId) (ps : List Path) :
    (failures (v.carryOut done (v.verdicts preset ps))).length = (failures (v.verdicts preset ps)).length +
      (v.changes (v.verdicts preset ps)).countP fun id => (v.files id).unwritable.isSome := by
  induction ps generalizing done with
  | nil => rfl
  | cons p ps ih =>
      rcases carryOut_verdicts_cases v preset done p ps with ⟨-, hchanges, hout⟩ |
        ⟨id, hchange, hchanges, ⟨fault, hf, hout⟩ | ⟨hf, -, hout⟩ | ⟨hf, -, hout⟩⟩
      · rw [hout, hchanges, verdicts_cons]
        cases hfails : (v.verdict preset p).isFailure with
        | true =>
            rw [failures_of_isFailure hfails, failures_of_isFailure hfails, List.length_cons, List.length_cons, ih]
            omega
        | false => rw [failures_of_not_isFailure hfails, failures_of_not_isFailure hfails, ih]
      · rw [hout, hchanges, verdicts_cons, failures_of_isFailure rfl,
          failures_of_not_isFailure (isFailure_of_isChange hchange), List.length_cons, ih, List.countP_cons, hf]
        exact Nat.add_assoc _ _ _
      · rw [hout, hchanges, verdicts_cons, failures_of_not_isFailure rfl,
          failures_of_not_isFailure (isFailure_of_isChange hchange), ih, List.countP_cons, hf]
        rfl
      · rw [hout, hchanges, verdicts_cons, failures_of_not_isFailure rfl,
          failures_of_not_isFailure (isFailure_of_isChange hchange), ih, List.countP_cons, hf]
        rfl

/-- Where no change is refused, it has the faults of a check and no other. -/
theorem failures_carryOut_of_writable {ps : List Path}
    (h : ∀ id ∈ v.changes (v.verdicts preset ps), (v.files id).unwritable = none) :
    failures (v.carryOut done (v.verdicts preset ps)) = failures (v.verdicts preset ps) := by
  have hnone : (v.changes (v.verdicts preset ps)).countP (fun id => (v.files id).unwritable.isSome) = 0 :=
    List.countP_eq_zero.mpr fun id hid => by simp [h id hid]
  have hlength := length_failures_carryOut v preset done ps
  rw [hnone, ← failures_carryOut v preset done ps] at hlength
  rw [← failures_carryOut v preset done ps]
  exact (List.filter_sublist.eq_of_length hlength.symm).symm

/-- **A rewrite changes some of the files that a check would change**, in their order. -/
theorem changed_carryOut_sublist (v : Volume) (preset : Preset) (done : List FileId) (ps : List Path) :
    (changed (v.carryOut done (v.verdicts preset ps))).Sublist (changed (v.verdicts preset ps)) := by
  induction ps generalizing done with
  | nil => exact .refl _
  | cons p ps ih =>
      rcases carryOut_verdicts_cases v preset done p ps with ⟨hkeep, -, hout⟩ |
        ⟨id, hchange, -, ⟨fault, -, hout⟩ | ⟨-, -, hout⟩ | ⟨-, -, hout⟩⟩
      · rw [hout, verdicts_cons, changed_of_not_isChange hkeep, changed_of_not_isChange hkeep]
        exact ih done
      · rw [hout, verdicts_cons, changed_of_not_isChange rfl, changed_of_isChange hchange]
        exact (ih _).cons p
      · rw [hout, verdicts_cons, changed_of_not_isChange rfl, changed_of_isChange hchange]
        exact (ih _).cons p
      · rw [hout, verdicts_cons, changed_of_isChange rfl, changed_of_isChange hchange]
        exact (ih _).cons_cons p

/-- A rewrite that leaves out a change does not change all files. -/
theorem changed_carryOut_ne (ps : List Path) :
    changed (v.carryOut done (v.verdicts preset ps)) ≠ p :: changed (v.verdicts preset ps) := by
  intro heq
  have hle := (changed_carryOut_sublist v preset done ps).length_le
  rw [heq, List.length_cons] at hle
  omega

/-- **It changes all of them exactly when they are different files that can be written**, and none was changed
    before. -/
theorem changed_carryOut_eq_iff (ps : List Path) :
    changed (v.carryOut done (v.verdicts preset ps)) = changed (v.verdicts preset ps) ↔
      (v.changes (v.verdicts preset ps)).Nodup ∧
        ∀ id ∈ v.changes (v.verdicts preset ps), (v.files id).unwritable = none ∧ id ∉ done := by
  induction ps generalizing done with
  | nil => simp [verdicts, carryOut, changes, changed]
  | cons p ps ih =>
      rcases carryOut_verdicts_cases v preset done p ps with ⟨hkeep, hchanges, hout⟩ |
        ⟨id, hchange, hchanges, ⟨fault, hf, hout⟩ | ⟨hf, hmem, hout⟩ | ⟨hf, hmem, hout⟩⟩
      · rw [hout, hchanges, verdicts_cons, changed_of_not_isChange hkeep, changed_of_not_isChange hkeep, ih]
      · rw [hout, hchanges, verdicts_cons, changed_of_not_isChange rfl, changed_of_isChange hchange]
        refine ⟨fun heq => absurd heq (changed_carryOut_ne ps), fun hnew => ?_⟩
        have hnone := (hnew.2 id List.mem_cons_self).1
        rw [hf] at hnone
        cases hnone
      · rw [hout, hchanges, verdicts_cons, changed_of_not_isChange rfl, changed_of_isChange hchange]
        exact ⟨fun heq => absurd heq (changed_carryOut_ne ps),
          fun hnew => absurd hmem (hnew.2 id List.mem_cons_self).2⟩
      · rw [hout, hchanges, verdicts_cons, changed_of_isChange rfl, changed_of_isChange hchange,
          List.cons.injEq, ih, List.nodup_cons]
        simp only [true_and, List.mem_cons, not_or]
        constructor
        · rintro ⟨hnodup, hnew⟩
          refine ⟨⟨fun hid => (hnew id hid).2.1 rfl, hnodup⟩, ?_⟩
          rintro other (rfl | hother)
          · exact ⟨hf, hmem⟩
          · exact ⟨(hnew other hother).1, (hnew other hother).2.2⟩
        · rintro ⟨⟨hid, hnodup⟩, hnew⟩
          exact ⟨hnodup, fun other hother => ⟨(hnew other (.inr hother)).1, fun heq => hid (heq ▸ hother),
            (hnew other (.inr hother)).2⟩⟩

/-! ## What is counted and said -/

theorem changeLines_formatFile (v : Volume) (preset : Preset) (mode : Mode) (p : Path) :
    Command.changeLines p (v.formatFile preset mode p).1 =
      if (v.formatFile preset mode p).1.isChange then [changeLine mode p] else [] := by
  cases h : v.fileOf p with
  | error fault => rw [formatFile_of_error h]; rfl
  | ok id => rw [formatFile_of_ok h, File.changeLines_format]

/-- **The files that change are said to**, in order. -/
theorem changeLines_formatFiles (v : Volume) (preset : Preset) (mode : Mode) (ps : List Path) :
    ((v.formatFiles preset mode ps).1.flatMap fun (p, r) => Command.changeLines p r) =
      (changed (v.formatFiles preset mode ps).1).map (changeLine mode) := by
  induction ps generalizing v with
  | nil => rfl
  | cons p ps ih =>
      rw [formatFiles_cons]
      dsimp only
      rw [List.flatMap_cons, ih, changeLines_formatFile]
      cases hr : (v.formatFile preset mode p).1.isChange with
      | true  => rw [changed_of_isChange hr, if_pos rfl]; rfl
      | false => rw [changed_of_not_isChange hr, if_neg Bool.false_ne_true]; rfl

theorem stdout_formatPaths (v : Volume) (preset : Preset) (mode : Mode) (paths : List String) :
    (Command.formatPaths preset mode paths v).1.stdout =
      lines ((changed (v.results preset mode paths)).map (changeLine mode) ++
        Command.summaryLines mode (v.summary preset mode paths)) := by
  rw [results, ← changeLines_formatFiles]
  rfl

/-- What is said about faults is said about the files that fail. -/
theorem failureLines_failures (rs : List (Path × FileResult)) :
    (rs.flatMap fun (p, r) => Command.failureLines p r) =
      (failures rs).flatMap fun (p, r) => Command.failureLines p r := by
  induction rs with
  | nil => rfl
  | cons e rs ih =>
      obtain ⟨p, r⟩ := e
      rw [List.flatMap_cons, ih]
      cases r with
      | failed f => rfl
      | unchanged | formatted | wouldFormat => rfl

theorem stderr_formatPaths (v : Volume) (preset : Preset) (mode : Mode) (paths : List String) :
    (Command.formatPaths preset mode paths v).1.stderr =
      lines (paths.flatMap v.complaints ++
        (failures (v.results preset mode paths)).flatMap fun (p, r) => Command.failureLines p r) := by
  rw [← failureLines_failures]
  rfl

/-- **A check foretells a rewrite** of the same paths, exactly if the files that it would change are all
    different and can all be written: only then do they count the same and name the same files. In any case, a
    rewrite makes each change that the check finds where the system allows it and it was not made before; and
    for each change that the system refuses it has a fault more than the check, with which it shares all others.
    A run meets the scripts of its paths, one after the other. It names the files that change and counts all; the
    paths that lead nowhere are errors, like the files that fail, and these it names apart. -/
theorem check_foretells_iff (preset : Preset) (paths : List String) (v : Volume) :
    ((v.summary preset .write paths = v.summary preset .check paths ∧
        changed (v.results preset .write paths) = changed (v.results preset .check paths)) ↔
      (v.changes (v.results preset .check paths)).Nodup ∧
        ∀ id ∈ v.changes (v.results preset .check paths), (v.files id).unwritable = none) ∧
    v.results preset .write paths = v.carryOut [] (v.results preset .check paths) ∧
    (failures (v.results preset .write paths)).filter (!·.2.isRefused) =
      failures (v.results preset .check paths) ∧
    (v.summary preset .write paths).errors = (v.summary preset .check paths).errors +
      (v.changes (v.results preset .check paths)).countP (fun id => (v.files id).unwritable.isSome) ∧
    (v.summary preset .write paths).total = (v.summary preset .check paths).total ∧
    ((∀ id ∈ v.changes (v.results preset .check paths), (v.files id).unwritable = none) →
      failures (v.results preset .write paths) = failures (v.results preset .check paths) ∧
      (Command.formatPaths preset .write paths v).1.stderr =
        (Command.formatPaths preset .check paths v).1.stderr) ∧
    ∀ mode,
      (v.results preset mode paths).map (·.1) = paths.flatMap v.scripts ∧
      v.summary preset mode paths =
        ⟨(changed (v.results preset mode paths)).length,
          (v.results preset mode paths).countP (·.2 = .unchanged),
          paths.countP v.isMissing + (failures (v.results preset mode paths)).length⟩ ∧
      (Command.formatPaths preset mode paths v).1.stdout =
        lines ((changed (v.results preset mode paths)).map (changeLine mode) ++
          Command.summaryLines mode (v.summary preset mode paths)) ∧
      (Command.formatPaths preset mode paths v).1.stderr =
        lines (paths.flatMap v.complaints ++
          (failures (v.results preset mode paths)).flatMap fun (p, r) => Command.failureLines p r) := by
  have hfail : (∀ id ∈ v.changes (v.results preset .check paths), (v.files id).unwritable = none) →
      failures (v.results preset .write paths) = failures (v.results preset .check paths) := by
    intro hwritable
    rw [results_check] at hwritable
    rw [results_write, results_check, failures_carryOut_of_writable hwritable]
  have hfilter : (failures (v.results preset .write paths)).filter (!·.2.isRefused) =
      failures (v.results preset .check paths) := by
    rw [results_write, results_check, failures_carryOut]
  have herrors : (v.summary preset .write paths).errors = (v.summary preset .check paths).errors +
      (v.changes (v.results preset .check paths)).countP (fun id => (v.files id).unwritable.isSome) := by
    rw [summary_eq, summary_eq, results_write, results_check, length_failures_carryOut]
    exact (Nat.add_assoc _ _ _).symm
  have htotal : (v.summary preset .write paths).total = (v.summary preset .check paths).total := by
    rw [total_summary, total_summary]
  have hiff : changed (v.results preset .write paths) = changed (v.results preset .check paths) ↔
      (v.changes (v.results preset .check paths)).Nodup ∧
        ∀ id ∈ v.changes (v.results preset .check paths), (v.files id).unwritable = none := by
    rw [results_write, results_check, changed_carryOut_eq_iff]
    simp
  -- where the changes are the same and no fault is added, the counts are: the total is
  have hcounts : changed (v.results preset .write paths) = changed (v.results preset .check paths) →
      v.summary preset .write paths = v.summary preset .check paths := by
    intro heq
    have hformatted : (v.summary preset .write paths).formatted = (v.summary preset .check paths).formatted := by
      rw [summary_eq, summary_eq, heq]
    have herrors' : (v.summary preset .write paths).errors = (v.summary preset .check paths).errors := by
      rw [summary_eq, summary_eq, hfail (hiff.mp heq).2]
    cases hw : v.summary preset .write paths
    cases hc : v.summary preset .check paths
    rw [hw, hc] at herrors' htotal hformatted
    simp only [Summary.total] at herrors' htotal hformatted
    simp only [Summary.mk.injEq]
    omega
  refine ⟨⟨fun h => hiff.mp h.2, fun h => ⟨hcounts (hiff.mpr h), hiff.mpr h⟩⟩, results_write paths, hfilter, herrors,
    htotal, fun hwritable => ⟨hfail hwritable, ?_⟩, fun mode => ⟨map_fst_results v preset mode paths,
      summary_eq v preset mode paths, stdout_formatPaths v preset mode paths,
      stderr_formatPaths v preset mode paths⟩⟩
  rw [stderr_formatPaths, stderr_formatPaths, hfail hwritable]

/-- The same file twice. -/
theorem check_foretells_no_repeat :
    let v : Volume :=
      { tree := .file "a.js" 0 .empty, files := fun _ => { bytes := "x = ( a + b );\n".toUTF8 } }
    v.summary .standard .check ["a.js", "a.js"] = ⟨2, 0, 0⟩ ∧
      v.summary .standard .write ["a.js", "a.js"] = ⟨1, 1, 0⟩ := by
  decide +kernel

/-- Two names of one file. -/
example :
    let v : Volume :=
      { tree := .file "a.js" 0 (.file "b.js" 0 .empty), files := fun _ => { bytes := "x = ( a + b );\n".toUTF8 } }
    v.summary .standard .check ["a.js", "b.js"] = ⟨2, 0, 0⟩ ∧
      v.summary .standard .write ["a.js", "b.js"] = ⟨1, 1, 0⟩ := by
  decide +kernel

/-- A file that cannot be written. -/
example :
    let v : Volume :=
      { tree := .file "a.js" 0 .empty
        files := fun _ => { bytes := "x = ( a + b );\n".toUTF8, unwritable := some (.refused "Permission denied") } }
    v.summary .standard .check ["a.js"] = ⟨1, 0, 0⟩ ∧ v.summary .standard .write ["a.js"] = ⟨0, 0, 1⟩ := by
  decide +kernel

end Volume
end ScriptSpacing
