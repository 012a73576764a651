import ScriptSpacing.Proofs.Document.Limited
import ScriptSpacing.Proofs.Spacing.Counted
import ScriptSpacing.Proofs.Syntax.Postorder

/-!
# `Proofs.Document.Tallied` — what a pass says it did

A pass returns the edited chain and a tally. The text is read back from the chain, and the tally is believed:
nothing is written where it says that nothing changed. What it says is true of the texts. It counts the gaps in
which the formatted text differs from the text (`Respaced.changed_eq`), so it speaks of a change exactly where
there is one (`Respaced.isChange_iff`); it counts every node of the tree once, and the reported pairs that take
space.
-/

namespace ScriptSpacing

/-! ## Gaps with another text -/

namespace Token

/-- The gaps between neighbouring solid tokens that have another text in `us` than in `ts`: the gap `g` is the
    one directly in front of the solid token `g`. -/
def changedGaps (ts us : List Token) : List Nat :=
  (List.range (solids ts).length).filter fun g => 0 < g ∧ gapText us g ≠ gapText ts g

/-- Between cut lists whose ends agree, the gaps with another text are the gaps that differ. -/
theorem length_changedGaps {ts us : List Token} (hts : Cut ts) (hus : Cut us)
    (hends : ∀ g, g = 0 ∨ (solids ts).length ≤ g → (gaps us)[g]? = (gaps ts)[g]?) :
    (changedGaps ts us).length = altered (gaps ts) (gaps us) := by
  have hlast := hends (solids ts).length (.inr (Nat.le_refl _))
  rw [altered, length_gaps, List.range_succ, List.countP_append, List.countP_singleton, hlast,
    changedGaps, ← List.countP_eq_length_filter]
  simp only [ne_eq, not_true_eq_false, decide_false, Bool.false_eq_true, if_false, Nat.add_zero]
  apply List.countP_congr
  intro g _
  rw [decide_eq_true_eq, decide_eq_true_eq, hus.gapText_eq_iff hts, eq_comm (a := (gaps ts)[g]?)]
  constructor
  · exact fun h => h.2
  · intro hne
    refine ⟨Nat.pos_of_ne_zero ?_, hne⟩
    rintro rfl
    exact hne (hends 0 (.inl rfl))

end Token

/-- A gap that is limited lies between two solid entries. -/
theorem Directive.gap?_bounds {us : List Linked} {d : Directive} {g : Nat} (h : d.gap? us = some g) :
    0 < g ∧ g < us.length := by
  unfold gap? at h
  split at h
  · next i _ _ =>
      split at h
      · next hnext =>
          cases h
          obtain ⟨e, he, -⟩ := (Option.any_eq_true _ _).mp hnext
          exact ⟨Nat.succ_pos i, (List.getElem?_eq_some_iff.mp he).1⟩
      · cases h
  · next i hfound _ =>
      split at h
      · cases h
        exact ⟨Nat.succ_pos i, (List.findIdx?_eq_some_iff_getElem.mp hfound).1⟩
      · cases h
  · cases h

namespace Document

variable {d d' : Document} {ts us : List Token} {preset : Preset}

/-! ## Changes -/

namespace Respaced

/-- The whitespace in front of all solid tokens stays, and that behind them. -/
theorem gaps_ends (hr : d.Respaced ts preset us d') {g : Nat}
    (hg : g = 0 ∨ (Token.solids ts).length ≤ g) : (Token.gaps us)[g]? = (Token.gaps ts)[g]? := by
  rw [hr.gaps]
  apply Mark.getElem?_overwrite_of_forall_not
  rintro m hm rfl
  obtain ⟨dir, -, hmark⟩ := List.mem_filterMap.mp hm
  obtain ⟨g, hgap, rfl⟩ := Option.map_eq_some_iff.mp hmark
  have hbounds := Directive.gap?_bounds hgap
  rw [Linked.length_solids, Token.map_snd_numbered] at hbounds
  rcases hg with h0 | hlen
  · exact absurd h0 (Nat.ne_of_gt hbounds.1)
  · exact absurd hlen (Nat.not_le_of_lt hbounds.2)

/-- **The count of changes is the number of gaps that differ.** -/
theorem changed_eq (h : d.Of ts) (hr : d.Respaced ts preset us d') :
    (d.respace preset).2.changed = Token.altered (Token.gaps ts) (Token.gaps us) := by
  have hcut : Token.Cut ((Token.numbered ts).map (·.2)) := by
    rw [Token.map_snd_numbered]
    exact h.cut
  have hcount := Directive.applyAll_changed preset d.directives h.holds hcut h.inward
    fun m hm m' hm' hgap => h.marks_agree hm hm' hgap
  rw [Token.map_snd_numbered] at hcount
  rw [hr.gaps]
  exact hcount

/-- **A tally speaks of a change exactly where the text has changed.** -/
theorem isChange_iff (h : d.Of ts) (hr : d.Respaced ts preset us d') :
    (d.respace preset).2.isChange = true ↔ Token.source us ≠ Token.source ts := by
  have hlen : (Token.gaps ts).length = (Token.gaps us).length := by
    rw [Token.length_gaps, Token.length_gaps, hr.solids]
  have hzero : (d.respace preset).2.changed = 0 ↔ us = ts := by
    rw [changed_eq h hr, Token.altered_eq_zero_iff hlen]
    constructor
    · intro hgaps
      exact Token.eq_of_solids_gaps hr.solids hgaps.symm
    · rintro rfl
      rfl
  have hsource : Token.source us = Token.source ts ↔ us = ts := by
    constructor
    · intro hsource
      have hscan := hr.reread.scan_eq
      rw [hsource, h.scan_eq] at hscan
      exact (Except.ok.inj hscan).symm
    · exact congrArg Token.source
  rw [Tally.isChange, decide_eq_true_eq, ne_eq, hsource, ← hzero]
  exact Nat.pos_iff_ne_zero

end Respaced

/-! ## Nodes and pairs -/

/-- **Every node of the tree is visited once.** -/
theorem Of.length_preorder (h : d.Of ts) :
    (d.tree.arena.preorder d.tree.root).length = d.tree.arena.size := by
  rw [h.sound.listed.preorder_perm.length_eq, List.length_range]

/-- A node is reported as applicable exactly where its pair takes limits. -/
theorem any_reportNode? (d : Document) (positions : Array Position) (id : NodeId) :
    (d.reportNode? positions id).any (·.applicable) = (Pair.find? d.chain d.tree.arena id).isSome := by
  rw [Pair.find?, reportNode?, Pair.locate?]
  cases d.tree.arena.get? id with
  | none => simp
  | some n =>
      simp only [Option.bind_some, Option.bind_eq_bind]
      cases Pair.ofNode? d.chain n with
      | none => simp
      | some p => cases d.tree.arena.takesSpace id <;> rfl

/-- **The pairs that take limits are the reported ones that take space.** -/
theorem length_pairsOf (d : Document) : (d.respace preset).2.pairs =
    (d.pairReports.filter (·.applicable)).length := by
  show ((d.tree.arena.preorder d.tree.root).filterMap (Pair.find? d.chain d.tree.arena)).length = _
  rw [pairReports]
  generalize (Token.positionsFrom .start d.chain.toList).toArray = positions
  induction d.tree.arena.preorder d.tree.root with
  | nil => rfl
  | cons id ids ih =>
      have hany := d.any_reportNode? positions id
      rw [List.filterMap_cons, List.filterMap_cons]
      cases hfind : Pair.find? d.chain d.tree.arena id with
      | none =>
          rw [hfind] at hany
          cases hreport : d.reportNode? positions id with
          | none => exact ih
          | some r =>
              rw [hreport] at hany
              rw [List.filter_cons_of_neg (by simpa using hany)]
              exact ih
      | some p =>
          rw [hfind] at hany
          obtain ⟨r, hreport, hr⟩ := (Option.any_eq_true _ _).mp hany
          rw [hreport, List.filter_cons_of_pos hr, List.length_cons, List.length_cons, ih]

end Document

/-! ## The tally -/

/-- **The tally of a pass is true.** A text that can be read is formatted, with the solid tokens it had. The
    tally speaks of a change exactly where the formatted text differs from the text, the changes it counts are
    the gaps between solid tokens that have another text, the nodes it counts are those of the tree, and its
    pairs are the reported ones that take space. -/
theorem respace_tally {s : String} {d : Document} (h : Document.read s = .ok d) (preset : Preset) :
    ∃ t ts us reports, formatSource s preset = .ok t ∧ Token.scan s = .ok ts ∧ Token.scan t = .ok us ∧
      reportPairs s = .ok reports ∧ Token.solids us = Token.solids ts ∧
      ((d.respace preset).2.isChange = true ↔ t ≠ s) ∧
      (d.respace preset).2.changed = (Token.changedGaps ts us).length ∧
      (d.respace preset).2.visited = d.tree.arena.size ∧
      (d.respace preset).2.pairs = (reports.filter (·.applicable)).length := by
  obtain ⟨ts, hof, rfl⟩ := Document.read_eq_ok_iff.mp h
  obtain ⟨us, d', hr⟩ := hof.respaced preset
  refine ⟨Token.source us, ts, us, d.pairReports, hof.formatSource_eq hr, hof.scan_eq,
    hr.reread.scan_eq, ?_, hr.solids, Document.Respaced.isChange_iff hof hr, ?_,
    hof.length_preorder, d.length_pairsOf⟩
  · rw [reportPairs, h]
  · rw [Document.Respaced.changed_eq hof hr,
      Token.length_changedGaps hof.cut hr.reread.cut fun g hg => hr.gaps_ends hg]

/-- A statement and the assignment in it share their parentheses, and both limit them. One of the two gaps has
    its space already, so one token is changed. -/
theorem respace_tally_shared :
    ∃ d t, Document.read "(y =z );" = .ok d ∧
      (d.respace (Preset.empty.inside (.exact 1))).2 = ⟨5, 2, 1⟩ ∧
      formatSource "(y =z );" (Preset.empty.inside (.exact 1)) = .ok t ∧ t ≠ "(y =z );" ∧
      d.tree.arena.size = 5 := by
  obtain ⟨d, hd, htally⟩ : ∃ d, Document.read "(y =z );" = .ok d ∧
      (d.respace (Preset.empty.inside (.exact 1))).2 = ⟨5, 2, 1⟩ :=
    Document.exists_read _ (by decide +kernel)
  obtain ⟨t, ts, us, reports, ht, -, -, -, -, hchange, -, hvisited, -⟩ :=
    respace_tally hd (Preset.empty.inside (.exact 1))
  rw [htally] at hchange hvisited
  exact ⟨d, t, hd, htally, ht, hchange.mp rfl, hvisited.symm⟩

end ScriptSpacing
