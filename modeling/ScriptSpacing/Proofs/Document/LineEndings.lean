import ScriptSpacing.Proofs.Document.Format
import ScriptSpacing.Proofs.Token.LineEndings

/-!
# `Proofs.Document.LineEndings` — a text with other line endings is the same document

Converting a text (`Text.crlf`) changes line breaks, comments and strings, but no other tokens. If no
string is changed, the grammar sees the very tokens it saw, under the very handles, so the tree is the
same or the error is. A pass then limits the same gaps, and those hold whitespace, which is not changed
either. So the converted text is formatted to what the text is formatted to, converted
(`formatSource_crlf`).
-/

namespace ScriptSpacing

/-! ## Tokens under the same handles -/

namespace Token
open Text

variable {t : Token} {ts : List Token} {f : Token → Token}

theorem numbered_map (f : Token → Token) (ts : List Token) :
    numbered (ts.map f) = (numbered ts).map fun e => (e.1, f e.2) := by
  apply List.ext_getElem?
  intro i
  rw [getElem?_numbered, List.getElem?_map, List.getElem?_map, getElem?_numbered, Option.map_map,
    Option.map_map]
  rfl

theorem solids_map (hf : ∀ t, (f t).isSolid = t.isSolid) (ts : List Token) :
    solids (ts.map f) = (solids ts).map f := by
  rw [solids, solids, List.filter_map]
  congr 1
  exact List.filter_congr fun t _ => hf t

/-- A change of solid tokens leaves the gaps alone. -/
theorem gaps_map (hf : ∀ t, (f t).isSolid = t.isSolid)
    (hblank : ∀ t ∈ ts, t.isSolid = false → f t = t) : gaps (ts.map f) = gaps ts := by
  induction ts with
  | nil => rfl
  | cons t ts ih =>
      rw [List.map_cons, gaps, gaps, hf, ih fun u hu => hblank u (List.mem_cons_of_mem t hu)]
      split
      · rfl
      · next ht => rw [hblank t List.mem_cons_self (by simpa using ht)]

/-! ## What is not changed -/

theorem isSolid_crlf (t : Token) : t.crlf.isSolid = t.isSolid := rfl

/-- **Only line breaks, block comments and strings are changed.** -/
theorem Cut.crlf_eq (h : Cut ts) (ht : t ∈ ts) (hkind : t.kind ∉ [.lineBreak, .blockComment])
    (hfold : ¬ t.IsFolded) : t.crlf = t := by
  obtain ⟨rest, hcut⟩ := h.exists_cutBefore ht
  have hfeed : '\n' ∉ t.text.toList := by
    intro hmem
    rcases kind_of_isLineEnd hcut.munches hmem (by decide) with hin | ⟨-, hseparator⟩
    · simp only [List.mem_cons, List.not_mem_nil, or_false, not_or] at hin hkind
      exact hfold ⟨(hin.resolve_left hkind.1).resolve_left hkind.2, hmem⟩
    · exact absurd hseparator (by decide)
  rw [crlf, withCrlf, crlf_of_not_mem hfeed, String.ofList_toList]

theorem Cut.crlf_eq_of_isCode (h : Cut ts) (ht : t ∈ ts) (hcode : t.isCode = true)
    (hfold : ¬ t.IsFolded) : t.crlf = t := by
  refine h.crlf_eq ht (fun hmem => ?_) hfold
  simp only [List.mem_cons, List.not_mem_nil, or_false] at hmem
  rcases hmem with hkind | hkind
  · rw [isCode, hkind] at hcode
    cases hcode
  · rw [isCode, hkind] at hcode
    cases hcode

/-- Whitespace is not changed. -/
theorem Cut.gaps_crlf (h : Cut ts) : gaps (ts.map crlf) = gaps ts := by
  refine gaps_map isSolid_crlf fun t ht hblank => ?_
  have hkind : t.kind = .whiteSpace := by simpa [isSolid, isWhiteSpace] using hblank
  refine h.crlf_eq ht ?_ fun hfold => ?_
  · rw [hkind]
    decide
  · rw [IsFolded, hkind] at hfold
    cases hfold.1

end Token

/-! ## The same document -/

section Document

variable {d : Document} {ts : List Token}

/-- **The grammar sees the same tokens under the same handles.** -/
theorem Code.ofChain_crlf (h : Token.Cut ts) (hfold : ∀ t ∈ ts, ¬ t.IsFolded) :
    Code.ofChain (Chain.ofList (ts.map Token.crlf)) = Code.ofChain (Chain.ofList ts) := by
  have hcode : (Token.numbered (ts.map Token.crlf)).filter (·.2.isCode) =
      (Token.numbered ts).filter (·.2.isCode) := by
    have hsame : ∀ e ∈ (Token.numbered ts).filter (·.2.isCode), (e.1, e.2.crlf) = e := by
      intro e he
      obtain ⟨he, hcode⟩ := List.mem_filter.mp he
      have ht := Document.Of.mem_of_numbered he
      rw [h.crlf_eq_of_isCode ht hcode (hfold e.2 ht)]
    rw [Token.numbered_map, List.filter_map]
    exact (List.map_congr_left hsame).trans (List.map_id _)
  rw [ofChain, ofChain, (Chain.holds_ofList _).entries_eq, (Chain.holds_ofList _).entries_eq,
    ofEntries, ofEntries, hcode]

/-- A directive has the same gap among entries of which the handles and the line breaks are the same. -/
theorem Directive.gap?_map {f : Token → Token} (hf : ∀ t, (f t).isLineBreak = t.isLineBreak)
    (us : List Linked) (dir : Directive) :
    gap? (us.map fun e => (e.1, f e.2)) dir = gap? us dir := by
  have hidx : (us.map fun e => (e.1, f e.2)).findIdx? (·.1 == dir.token) =
      us.findIdx? (·.1 == dir.token) := List.findIdx?_map
  have hany : ∀ i : Nat, ((us.map fun e => (e.1, f e.2))[i]?).any (!·.2.isLineBreak) =
      (us[i]?).any (!·.2.isLineBreak) := by
    intro i
    rw [List.getElem?_map, Option.any_map]
    simp only [hf]
  simp only [gap?, hidx, hany]

/-- Pairs at the same positions of one code are the same pair. -/
theorem Pair.Same.eq {code : Code} {p q : Pair} (h : p.Same code code q) : p = q := by
  obtain ⟨i, e, e', he, he', hp, hq⟩ := h.opening
  obtain ⟨j, f, f', hf, hf', hp', hq'⟩ := h.closing
  rw [he] at he'
  rw [hf] at hf'
  cases he'
  cases hf'
  cases p
  cases q
  simp_all

/-- The solid entries of the converted tokens. -/
theorem Linked.solids_crlf (ts : List Token) : Linked.solids (Token.numbered (ts.map Token.crlf)) =
    (Linked.solids (Token.numbered ts)).map fun e => (e.1, e.2.crlf) := by
  rw [Token.numbered_map, Linked.solids, Linked.solids, List.filter_map]
  rfl

namespace Document.Of

theorem code_crlf (h : d.Of ts) (hfold : ∀ t ∈ ts, ¬ t.IsFolded) {d' : Document}
    (h' : d'.Of (ts.map Token.crlf)) : Code.ofChain d'.chain = Code.ofChain d.chain := by
  rw [h.chain, h'.chain]
  exact Code.ofChain_crlf h.cut hfold

theorem tree_crlf (h : d.Of ts) (hfold : ∀ t ∈ ts, ¬ t.IsFolded) {d' : Document}
    (h' : d'.Of (ts.map Token.crlf)) : d'.tree = d.tree := by
  have hread := h'.tree
  rw [Tree.ofChain, h.code_crlf hfold h', ← Tree.ofChain, h.tree] at hread
  exact (Except.ok.inj hread).symm

/-- **The same pairs are found.** -/
theorem directives_crlf (h : d.Of ts) (hfold : ∀ t ∈ ts, ¬ t.IsFolded) {d' : Document}
    (h' : d'.Of (ts.map Token.crlf)) : d'.directives = d.directives := by
  have hcode := h.code_crlf hfold h'
  have halike : (Code.ofChain d.chain).Alike (Code.ofChain d'.chain) :=
    ⟨fun i => by rw [hcode], by rw [hcode]⟩
  obtain ⟨tree, hread, htree⟩ := Tree.ofCode_alike halike h.tree
  rw [hcode, ← Tree.ofChain, h.tree] at hread
  cases hread
  have hpairs := Chain.pairsOf_forall₂ h.holds h'.holds h.plainTrivia h'.plainTrivia halike
    htree.arena (d.tree.arena.preorder d.tree.root)
  rw [hcode] at hpairs
  have hsame : d.chain.pairsOf d.tree.arena (d.tree.arena.preorder d.tree.root) =
      d'.chain.pairsOf d.tree.arena (d.tree.arena.preorder d.tree.root) := by
    rw [← List.forall₂_eq_eq_eq]
    exact hpairs.imp fun _ _ hpq => Pair.Same.eq hpq
  rw [directives, directives, h.tree_crlf hfold h', hsame]

/-- **The same gaps are limited.** -/
theorem marks_crlf (h : d.Of ts) (hfold : ∀ t ∈ ts, ¬ t.IsFolded) {d' : Document}
    (h' : d'.Of (ts.map Token.crlf)) : d'.marks (ts.map Token.crlf) = d.marks ts := by
  have hbreak : ∀ t : Token, t.crlf.isLineBreak = t.isLineBreak := fun _ => rfl
  rw [marks, marks, h.directives_crlf hfold h', Linked.solids_crlf]
  congr 1
  funext dir
  rw [Directive.mark?, Directive.mark?, Directive.gap?_map hbreak]

/-- **A pass over the converted text makes what a pass over the text makes, converted.** -/
theorem respaced_crlf (h : d.Of ts) (hfold : ∀ t ∈ ts, ¬ t.IsFolded) {preset : Preset}
    {us us' : List Token} {d' e e' : Document} (h' : d'.Of (ts.map Token.crlf))
    (hspaced : d.Respaced ts preset us e)
    (hspaced' : d'.Respaced (ts.map Token.crlf) preset us' e') : us' = us.map Token.crlf := by
  apply Token.eq_of_solids_gaps
  · rw [hspaced'.solids, Token.solids_map Token.isSolid_crlf, Token.solids_map Token.isSolid_crlf,
      hspaced.solids]
  · rw [hspaced'.gaps, h.marks_crlf hfold h', h.cut.gaps_crlf, hspaced.reread.cut.gaps_crlf,
      hspaced.gaps]

end Document.Of

end Document

/-! ## The same program, formatted the same -/

theorem Token.source_crlf (ts : List Token) : source (ts.map crlf) = Text.withCrlf (source ts) := by
  apply String.ext
  rw [toList_source, Text.withCrlf, String.toList_ofList, toList_source, Text.crlf, List.flatMap_assoc,
    List.flatMap_map]
  simp only [crlf, Text.withCrlf, String.toList_ofList]
  rfl

/-- **Other line endings are the same program.** Of a text without carriage returns, put one in front of
    every line feed. The text that comes of it can be scanned exactly if the text can and no string in it
    holds a line feed, and its tokens are those of the text, of the same kinds, each with a carriage
    return in front of its line feeds. The same tree is read from them, or the same error is found, and
    the text is formatted to what the first text is formatted to, with a carriage return in front of every
    line feed. -/
theorem formatSource_crlf {s : String} (hr : '\r' ∉ s.toList) :
    (∀ us, Token.scan (Text.withCrlf s) = .ok us ↔
      ∃ ts, Token.scan s = .ok ts ∧ (∀ t ∈ ts, ¬ t.IsFolded) ∧ us = ts.map Token.crlf) ∧
    ∀ ts, Token.scan s = .ok ts → (∀ t ∈ ts, ¬ t.IsFolded) →
      Tree.ofChain (Chain.ofList (ts.map Token.crlf)) = Tree.ofChain (Chain.ofList ts) ∧
      ∀ preset, formatSource (Text.withCrlf s) preset =
        (formatSource s preset).map Text.withCrlf := by
  refine ⟨fun us => scan_crlf_iff hr, fun ts hscan hfold => ?_⟩
  obtain ⟨hcut, hsource⟩ := Token.scan_eq_ok_iff.mp hscan
  have htree : Tree.ofChain (Chain.ofList (ts.map Token.crlf)) = Tree.ofChain (Chain.ofList ts) := by
    rw [Tree.ofChain, Tree.ofChain, Code.ofChain_crlf hcut hfold]
  refine ⟨htree, fun preset => ?_⟩
  have hscan' : Token.scan (Text.withCrlf s) = .ok (ts.map Token.crlf) :=
    (scan_crlf_iff hr).mpr ⟨ts, hscan, hfold, rfl⟩
  cases hread : Tree.ofChain (Chain.ofList ts) with
  | error e =>
      rw [hread] at htree
      rw [formatSource, formatSource, Document.read, Document.read, hscan, hscan']
      simp only [hread, htree]
      rfl
  | ok tree =>
      have hof : Document.Of ⟨Chain.ofList ts, tree⟩ ts := ⟨hcut, rfl, hread⟩
      obtain ⟨hcut', hsource'⟩ := Token.scan_eq_ok_iff.mp hscan'
      have hof' : Document.Of ⟨Chain.ofList (ts.map Token.crlf), tree⟩ (ts.map Token.crlf) :=
        ⟨hcut', rfl, htree.trans hread⟩
      obtain ⟨us, e, hspaced⟩ := hof.respaced preset
      obtain ⟨us', e', hspaced'⟩ := hof'.respaced preset
      rw [← hsource', hof'.formatSource_eq hspaced', ← hsource, hof.formatSource_eq hspaced,
        hof.respaced_crlf hfold hof' hspaced hspaced', Token.source_crlf]
      rfl

/-- A line comment ends at its line, and a block comment goes on over it. -/
theorem formatSource_crlf_comments :
    '\r' ∉ "x = (a //\n+ /*\n*/ b);\n".toList ∧
    ∃ ts, Token.scan "x = (a //\n+ /*\n*/ b);\n" = .ok ts ∧ (∀ t ∈ ts, ¬ t.IsFolded) ∧
      Token.scan (Text.withCrlf "x = (a //\n+ /*\n*/ b);\n") = .ok (ts.map Token.crlf) ∧
      Tree.ofChain (Chain.ofList (ts.map Token.crlf)) = Tree.ofChain (Chain.ofList ts) ∧
      formatSource (Text.withCrlf "x = (a //\n+ /*\n*/ b);\n") (Preset.empty.inside (.exact 1)) =
        .ok (Text.withCrlf "x = ( a //\n+ /*\n*/ b );\n") := by
  have hr : '\r' ∉ "x = (a //\n+ /*\n*/ b);\n".toList := by decide
  have hformat : formatSource "x = (a //\n+ /*\n*/ b);\n" (Preset.empty.inside (.exact 1)) =
      .ok "x = ( a //\n+ /*\n*/ b );\n" := by decide +kernel
  obtain ⟨ts, hscan, hfold⟩ : ∃ ts, Token.scan "x = (a //\n+ /*\n*/ b);\n" = .ok ts ∧
      ∀ t ∈ ts, ¬ t.IsFolded := by
    refine ⟨(Token.scan "x = (a //\n+ /*\n*/ b);\n").toOption.getD [], ?_, ?_⟩
    · decide +kernel
    · decide +kernel
  obtain ⟨hscans, hreads⟩ := formatSource_crlf hr
  obtain ⟨htree, hformats⟩ := hreads ts hscan hfold
  refine ⟨hr, ts, hscan, hfold, (hscans _).mpr ⟨ts, hscan, hfold, rfl⟩, htree, ?_⟩
  rw [hformats, hformat]
  rfl

end ScriptSpacing
