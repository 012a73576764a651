import ScriptSpacing.Proofs.Token.Hopeless

/-!
# `Proofs.Token.Apart` — tokens on their own, and tokens with a space between them

A token that was cut from a text is cut from its own text, too: what stood behind it there can be cut off
(`CutBefore.alone`). And it is cut again in front of a space. No cut looks past a space, so it sees there
what it sees at the end of a text (`CutBefore.of_stops`); only a run of blanks and a line comment would go
on over it.

So a list of other tokens can be written with single spaces between them, and is read back as it was
(`scan_apart`).
-/

namespace ScriptSpacing
namespace Token
open Text

variable {t : Token} {ts : List Token} {rest : List Char}

/-! ## On its own -/

/-- A token is the only one of its text when it is cut with nothing behind it. -/
theorem scan_text_eq_iff : scan t.text = .ok [t] ↔ t.CutBefore [] := by
  have hsource : source [t] = t.text := by simp [source]
  rw [scan_eq_ok_iff]
  exact ⟨fun h => h.1.head, fun h => ⟨.cons h .nil, hsource⟩⟩

/-- **A token is cut from its own text.** -/
theorem CutBefore.alone (h : t.CutBefore rest) : t.CutBefore [] := by
  have hrest : t.CutBefore ([] ++ rest) := h
  exact hrest.of_append (by simp)

/-! ## In front of a space -/

/-- **A token is cut in front of what ends every lookahead**, unless it would go on over that. -/
theorem CutBefore.of_stops (h : t.CutBefore []) (hblank : t.kind ≠ .whiteSpace)
    (hline : t.kind ≠ .lineComment) (hrest : Stops rest) : t.CutBefore rest := by
  refine h.congr (ahead_of_stops hrest) ?_
  rintro (hk | hk)
  · exact absurd hk hblank
  · exact absurd hk hline

/-- A token that is not whitespace does not begin with a blank. -/
theorem CutBefore.isBlank_head (h : t.CutBefore rest) (hblank : t.kind ≠ .whiteSpace) (r : List Char) :
    ∀ c ∈ (t.text.toList ++ r).head?, isBlank c = false := by
  obtain ⟨d, w, htext, hnext⟩ := h
  intro c hc
  rw [htext] at hc
  obtain rfl : d = c := by simpa using hc
  have hkind := mt (Lexeme.kind_eq_whiteSpace_iff hnext).mpr hblank
  simpa using hkind

/-! ## Lists of tokens -/

/-- The tokens of a list with a space between neighbours. -/
def apart (ts : List Token) : List Token := ts.intersperse (spaces 1)

theorem apart_cons_cons (t u : Token) (ts : List Token) :
    apart (t :: u :: ts) = t :: spaces 1 :: apart (u :: ts) := List.intersperse_cons_cons

theorem exists_apart_cons (t : Token) (ts : List Token) : ∃ us, apart (t :: ts) = t :: us := by
  cases ts with
  | nil => exact ⟨[], rfl⟩
  | cons u ts => exact ⟨_, apart_cons_cons t u ts⟩

/-- The text of tokens set apart is their texts with spaces between them. -/
theorem source_apart (ts : List Token) : source (apart ts) = " ".intercalate (ts.map (·.text)) := by
  induction ts with
  | nil => rfl
  | cons t ts ih =>
      cases ts with
      | nil => simp [apart, source]
      | cons u ts =>
          rw [apart_cons_cons, source_cons, source_cons, ih]
          simp only [List.map_cons, String.intercalate_cons_cons, String.append_assoc]
          rfl

/-- **Tokens set apart are cut as they are.** -/
theorem cut_apart (h : ∀ t ∈ ts, t.CutBefore [] ∧ t.kind ≠ .whiteSpace ∧ t.kind ≠ .lineComment) :
    Cut (apart ts) := by
  -- from the back: a token, then the space in front of it, then the token in front of that
  induction ts with
  | nil => exact .nil
  | cons t ts ih =>
      obtain ⟨hcut, hblank, hline⟩ := h t List.mem_cons_self
      have hrest := ih fun u hu => h u (List.mem_cons_of_mem _ hu)
      cases ts with
      | nil => exact .cons hcut .nil
      | cons u ts =>
          obtain ⟨hcut', hblank', -⟩ := h u (by simp)
          obtain ⟨us, hus⟩ := exists_apart_cons u ts
          have hspace : (spaces 1).CutBefore (chars (apart (u :: ts))) := by
            rw [hus]
            exact cutBefore_spaces Nat.one_ne_zero (hcut'.isBlank_head hblank' _)
          have hstops : Stops (chars (spaces 1 :: apart (u :: ts))) := by
            intro c hc
            obtain rfl : ' ' = c := by simpa [chars, spaces] using hc
            decide
          rw [apart_cons_cons]
          exact .cons (hcut.of_stops hblank hline hstops) (.cons hspace hrest)

end Token

/-- **Tokens written with spaces between them are read back.** Each token of a text is the one token of its
    own text. And whatever tokens of code and block comments are each the one token of their own text, their
    texts with single spaces between them are scanned into just these tokens, with one whitespace token
    between neighbours. -/
theorem scan_apart :
    (∀ s ts, Token.scan s = .ok ts → ∀ t ∈ ts, Token.scan t.text = .ok [t]) ∧
    ∀ ts : List Token,
      (∀ t ∈ ts, (t.isCode = true ∨ t.kind = .blockComment) ∧ Token.scan t.text = .ok [t]) →
      Token.scan (" ".intercalate (ts.map (·.text))) = .ok (ts.intersperse (Token.spaces 1)) := by
  constructor
  · intro s ts hscan t ht
    obtain ⟨rest, hcut⟩ := (Token.scan_eq_ok_iff.mp hscan).1.exists_cutBefore ht
    exact Token.scan_text_eq_iff.mpr hcut.alone
  · intro ts hts
    refine Token.scan_eq_ok_iff.mpr ⟨Token.cut_apart fun t ht => ?_, Token.source_apart ts⟩
    obtain ⟨hkind, hscan⟩ := hts t ht
    refine ⟨Token.scan_text_eq_iff.mp hscan, ?_, ?_⟩
    · rintro hk
      simp [Token.isCode, hk, Token.Kind.isCode, Token.Kind.isEmpty] at hkind
    · rintro hk
      simp [Token.isCode, hk, Token.Kind.isCode, Token.Kind.isEmpty, Token.Kind.isComment] at hkind

/-- A question mark, a fraction, a number and a word that stand side by side, on their own and apart. -/
theorem scan_apart_fraction :
    Token.scan "a?.5:1e" = .ok [⟨.identifier, "a"⟩, ⟨.punctuator, "?"⟩, ⟨.numeric, ".5"⟩,
      ⟨.punctuator, ":"⟩, ⟨.numeric, "1"⟩, ⟨.identifier, "e"⟩] ∧
    Token.scan "?" = .ok [⟨.punctuator, "?"⟩] ∧
    Token.scan "a ? .5 : 1 e" = .ok [⟨.identifier, "a"⟩, ⟨.whiteSpace, " "⟩, ⟨.punctuator, "?"⟩,
      ⟨.whiteSpace, " "⟩, ⟨.numeric, ".5"⟩, ⟨.whiteSpace, " "⟩, ⟨.punctuator, ":"⟩, ⟨.whiteSpace, " "⟩,
      ⟨.numeric, "1"⟩, ⟨.whiteSpace, " "⟩, ⟨.identifier, "e"⟩] := by
  have hscan : Token.scan "a?.5:1e" = .ok [⟨.identifier, "a"⟩, ⟨.punctuator, "?"⟩, ⟨.numeric, ".5"⟩,
      ⟨.punctuator, ":"⟩, ⟨.numeric, "1"⟩, ⟨.identifier, "e"⟩] := by decide +kernel
  have halone := scan_apart.1 _ _ hscan
  have hcode : ∀ t ∈ ([⟨.identifier, "a"⟩, ⟨.punctuator, "?"⟩, ⟨.numeric, ".5"⟩, ⟨.punctuator, ":"⟩,
      ⟨.numeric, "1"⟩, ⟨.identifier, "e"⟩] : List Token), t.isCode = true ∨ t.kind = .blockComment := by
    decide
  exact ⟨hscan, halone ⟨.punctuator, "?"⟩ (by decide),
    scan_apart.2 _ fun t ht => ⟨hcode t ht, halone t ht⟩⟩

end ScriptSpacing
