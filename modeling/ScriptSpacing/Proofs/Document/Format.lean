import ScriptSpacing.Proofs.Document.Reread

/-!
# `Proofs.Document.Format` — formatting preserves the program, and absorbs itself

What `Respaced` says of a pass over a document, said of texts. A text is formatted exactly when it can be
read, and what comes out is read as the same program (`formatSource_preserves`). Formatting twice is
formatting once with the second preset, as long as that one has an amount wherever the first had one
(`formatSource_absorbs`); with one preset for both this is idempotence.
-/

namespace ScriptSpacing

namespace Document

/-- A text is formatted when it is read. -/
theorem formatSource_eq_ok_iff {s t : String} {preset : Preset} :
    formatSource s preset = .ok t ↔ ∃ d, read s = .ok d ∧ (d.respace preset).1.source = t := by
  unfold formatSource
  cases read s with
  | error p => simp
  | ok d => simp

/-- The text of a document. -/
theorem Of.read_eq {d : Document} {ts : List Token} (h : d.Of ts) :
    read (Token.source ts) = .ok d := read_eq_ok_iff.mpr ⟨ts, h, rfl⟩

theorem Of.scan_eq {d : Document} {ts : List Token} (h : d.Of ts) :
    Token.scan (Token.source ts) = .ok ts := Token.scan_eq_ok_iff.mpr ⟨h.cut, rfl⟩

/-- **Reading is scanning and parsing.** -/
theorem exists_read_iff {s : String} :
    (∃ d, read s = .ok d) ↔
      ∃ ts tree, Token.scan s = .ok ts ∧ Tree.ofChain (Chain.ofList ts) = .ok tree := by
  constructor
  · rintro ⟨d, hd⟩
    obtain ⟨ts, hof, rfl⟩ := read_eq_ok_iff.mp hd
    exact ⟨ts, d.tree, hof.scan_eq, hof.chain ▸ hof.tree⟩
  · rintro ⟨ts, tree, hscan, htree⟩
    obtain ⟨hcut, hsource⟩ := Token.scan_eq_ok_iff.mp hscan
    exact ⟨⟨Chain.ofList ts, tree⟩, read_eq_ok_iff.mpr ⟨ts, ⟨hcut, rfl, htree⟩, hsource⟩⟩

/-- **A formatted text is a respaced document.** -/
theorem exists_respaced {s t : String} {preset : Preset} (h : formatSource s preset = .ok t) :
    ∃ (d : Document) (ts us : List Token) (d' : Document),
      d.Of ts ∧ Token.source ts = s ∧ d.Respaced ts preset us d' ∧
      Token.source us = t := by
  obtain ⟨d, hd, rfl⟩ := formatSource_eq_ok_iff.mp h
  obtain ⟨ts, hof, hs⟩ := read_eq_ok_iff.mp hd
  obtain ⟨us, d', hr⟩ := hof.respaced preset
  exact ⟨d, ts, us, d', hof, hs, hr, hr.source.symm⟩

/-- Formatting the text of a document. -/
theorem Of.formatSource_eq {d d' : Document} {ts us : List Token} {preset : Preset} (h : d.Of ts)
    (hr : d.Respaced ts preset us d') :
    formatSource (Token.source ts) preset = .ok (Token.source us) :=
  formatSource_eq_ok_iff.mpr ⟨d, h.read_eq, hr.source⟩

end Document

/-! ## The same program -/

/-- **Formatting preserves the program.** A text is formatted exactly when its tokens can be cut and
    parsed. The formatted text is then cut into the tokens of the edited chain, neither glued nor split;
    those that are not whitespace are the ones of the text; and they are parsed into an isomorphic
    tree. -/
theorem formatSource_preserves (s : String) (preset : Preset) :
    ((∃ t, formatSource s preset = .ok t) ↔
      ∃ ts tree, Token.scan s = .ok ts ∧ Tree.ofChain (Chain.ofList ts) = .ok tree) ∧
    ∀ t, formatSource s preset = .ok t →
      ∃ ts d us d', Token.scan s = .ok ts ∧ Document.read s = .ok d ∧
        Token.scan t = .ok us ∧ Document.read t = .ok d' ∧
        us = (d.respace preset).1.toList ∧
        Token.solids us = Token.solids ts ∧
        d.tree.Alike (Code.ofChain d.chain) (Code.ofChain d'.chain) d'.tree := by
  constructor
  · rw [← Document.exists_read_iff]
    constructor
    · rintro ⟨t, ht⟩
      obtain ⟨d, hd, -⟩ := Document.formatSource_eq_ok_iff.mp ht
      exact ⟨d, hd⟩
    · rintro ⟨d, hd⟩
      exact ⟨_, Document.formatSource_eq_ok_iff.mpr ⟨d, hd, rfl⟩⟩
  · intro t ht
    obtain ⟨d, ts, us, d', hof, rfl, hr, rfl⟩ := Document.exists_respaced ht
    exact ⟨ts, d, us, d', hof.scan_eq, hof.read_eq, hr.reread.scan_eq, hr.reread.read_eq,
      hr.toList.symm, hr.solids, hr.alike⟩

/-- A comment beside a parenthesis, and words that stay apart. -/
theorem formatSource_preserves_comment :
    ∃ ts d us d', Token.scan "typeof (/**/a-- -b);" = .ok ts ∧
      Document.read "typeof (/**/a-- -b);" = .ok d ∧
      Token.scan "typeof ( /**/a-- -b );" = .ok us ∧
      Document.read "typeof ( /**/a-- -b );" = .ok d' ∧
      us = (d.respace (Preset.empty.inside (.exact 1))).1.toList ∧
      Token.solids us = Token.solids ts ∧
      d.tree.Alike (Code.ofChain d.chain) (Code.ofChain d'.chain) d'.tree :=
  (formatSource_preserves "typeof (/**/a-- -b);" (Preset.empty.inside (.exact 1))).2 _
    (by decide +kernel)

/-! ## Absorption -/

/-- A mark is on the inner side of a parenthesis. -/
theorem Document.mem_marks {d : Document} {ts : List Token} {m : Mark} (hm : m ∈ d.marks ts) :
    (m.side = .after ∧ m.rule = .openingParenthesis) ∨
      (m.side = .before ∧ m.rule = .closingParenthesis) := by
  obtain ⟨dir, hdir, hmark⟩ := List.mem_filterMap.mp hm
  obtain ⟨g, -, rfl⟩ := Option.map_eq_some_iff.mp hmark
  obtain ⟨id, -, p, -, hside⟩ := Document.mem_directives_iff.mp hdir
  rcases hside with rfl | rfl
  · exact .inl ⟨rfl, rfl⟩
  · exact .inr ⟨rfl, rfl⟩

/-- **Formatting absorbs an earlier formatting** whose amounts the later one decides again. -/
theorem formatSource_absorbs (s : String) (c₁ c₂ : Preset)
    (hopening : (∃ n, c₁.amount .after .openingParenthesis = .exact n) →
      ∃ n, c₂.amount .after .openingParenthesis = .exact n)
    (hclosing : (∃ n, c₁.amount .before .closingParenthesis = .exact n) →
      ∃ n, c₂.amount .before .closingParenthesis = .exact n) :
    (formatSource s c₁ >>= fun t => formatSource t c₂) = formatSource s c₂ := by
  have hkeep : ∀ {side rule}, ((∃ n, c₁.amount side rule = .exact n) →
      ∃ n, c₂.amount side rule = .exact n) → c₂.amount side rule = .preserve →
      c₁.amount side rule = .preserve := by
    intro side rule h hp
    cases hc : c₁.amount side rule with
    | preserve => rfl
    | exact n =>
        obtain ⟨n', hn'⟩ := h ⟨n, hc⟩
        rw [hp] at hn'
        cases hn'
  cases hread : Document.read s with
  | error p =>
      rw [formatSource, formatSource, hread]
      rfl
  | ok d =>
      obtain ⟨ts, hof, rfl⟩ := Document.read_eq_ok_iff.mp hread
      obtain ⟨us, d', hr⟩ := hof.respaced c₁
      obtain ⟨vs, d'', hr'⟩ := hr.reread.respaced c₂
      obtain ⟨ws, d₂, hr₂⟩ := hof.respaced c₂
      -- both ways end in the same solid tokens, with the gaps written by the same marks
      have hsolids : Token.solids vs = Token.solids ws := by
        rw [hr'.solids, hr.solids, hr₂.solids]
      have hgaps : Token.gaps vs = Token.gaps ws := by
        rw [hr'.gaps, hr.gaps, hr.marks, hr₂.gaps]
        apply Mark.overwrite_absorb
        intro m hm hp
        rcases Document.mem_marks hm with ⟨hside, hrule⟩ | ⟨hside, hrule⟩
        · rw [Mark.amount, hside, hrule] at hp ⊢
          exact hkeep hopening hp
        · rw [Mark.amount, hside, hrule] at hp ⊢
          exact hkeep hclosing hp
      obtain rfl := Token.eq_of_solids_gaps hsolids hgaps
      rw [hof.formatSource_eq hr, hof.formatSource_eq hr₂]
      exact hr.reread.formatSource_eq hr'

/-- Two spaces and one, absorbed by none and three. -/
theorem formatSource_absorbs_asymmetric :
    let c₁ := (Preset.empty.set .after .openingParenthesis (.exact 2)).set .before
      .closingParenthesis (.exact 1)
    let c₂ := (Preset.empty.set .after .openingParenthesis (.exact 0)).set .before
      .closingParenthesis (.exact 3)
    (formatSource "x = ((a)+1);" c₁ >>= fun t => formatSource t c₂) =
      formatSource "x = ((a)+1);" c₂ :=
  formatSource_absorbs _ _ _ (fun _ => ⟨0, by decide⟩) (fun _ => ⟨3, by decide⟩)

end ScriptSpacing
