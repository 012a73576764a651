import ScriptSpacing.Proofs.Document.Format
import ScriptSpacing.Proofs.Document.Offsets
import ScriptSpacing.Proofs.Syntax.Descent.Total
import ScriptSpacing.Proofs.Token.Hopeless

/-!
# `Proofs.Document.Blamed` — a problem is about the place it gives

A parse error names a token by its handle, and the chain that the handle belongs to is gone when the error
is told. So the text is scanned once more, and the sizes of the tokens are added up to that handle. What
carries over is that the handle of a token is its index among all tokens, comments and blanks too, and that
these put together are the text: then the text goes on at the offset with the very token that the parser
stopped at (`Token.BeginsAt`).

A lex error has its offset from the scan, which has taken whole tokens by then and finds none to begin there
(`LexError.Holds`).
-/

namespace ScriptSpacing

/-! ## Tokens -/

namespace Token

variable {s : String} {ts : List Token} {i : Nat} {t : Token}

/-- **The token `t`, the `i`-th of the text `s`, begins at the byte `k`**: the byte is between characters,
    the text goes on there with the token's, and no other token has a part in it. -/
structure BeginsAt (s : String) (ts : List Token) (i : Nat) (t : Token) (k : Nat) : Prop where
  token    : ts[i]? = some t
  boundary : (String.Pos.Raw.mk k).IsValid s
  text     : ∃ r, Text.slice? s k s.utf8ByteSize = some r ∧ t.text.toList <+: r.toList
  only     : ∀ j, Covers ts j k ↔ j = i

theorem beginsAt_start (hcut : Cut ts) (h : ts[i]? = some t) :
    BeginsAt (source ts) ts i t (start ts i) where
  token := h
  boundary := String.Pos.Raw.isValid_iff_exists_append.mpr ⟨_, _, source_split h, rfl⟩
  text := by
    refine ⟨t.text ++ source (ts.drop (i + 1)), ?_, ?_⟩
    · rw [source_split h]
      exact ByteCursor.slice?_append_right _ _
    · rw [String.toList_append]
      exact List.prefix_append _ _
  only := by
    have hsize : t.size ≠ 0 := fun hzero =>
      hcut.text_ne (List.mem_of_getElem? h) (String.utf8ByteSize_eq_zero_iff.mp hzero)
    exact fun j => covers_start_iff h (Nat.pos_of_ne_zero hsize)

end Token

/-! ## Flaws -/

/-- **The text `s` has the flaw of a lex error where the error says**: between characters and inside of the
    text, behind the tokens that a scan takes, with no token to begin there. -/
structure LexError.Holds (s : String) (e : LexError) : Prop where
  boundary : (String.Pos.Raw.mk e.offset).IsValid s
  inside   : e.offset < s.utf8ByteSize
  behind   : ∃ p, Text.slice? s 0 e.offset = some p ∧ Token.scan p = .ok (Token.scanned s.toList)
  hopeless : Hopeless s e.offset e.flaw

theorem Token.holds_of_scan_error {s : String} {e : LexError} (h : Token.scan s = .error e) :
    e.Holds s := by
  obtain ⟨p, c, r, hsplit, hoffset, hscan, hflaw⟩ := Token.split_of_scan_error h
  refine ⟨?_, ?_, ⟨p, ?_, hscan⟩, ?_⟩
  · exact String.Pos.Raw.isValid_iff_exists_append.mpr
      ⟨p, String.ofList (c :: r), hsplit, by rw [hoffset]; rfl⟩
  · rw [hoffset, hsplit, String.utf8ByteSize_append, String.utf8ByteSize_ofList, String.utf8Len_cons]
    have := c.utf8Size_pos
    omega
  · rw [hoffset, hsplit]
    exact ByteCursor.slice?_append_left _ _
  · rw [hoffset, hsplit]
    exact (hopeless_append_iff String.toList_ofList).mpr hflaw

/-! ## Problems -/

/-- **What the place of a problem of `s` is**: the byte of the flaw of a text that cannot be cut, the byte at
    which an unexpected token begins, and none for an unexpected end. -/
def Problem.Located (s : String) (place : Option Nat) : Problem → Prop
  | .lex e => Token.scan s = .error e ∧ place = some e.offset ∧ e.Holds s
  | .parse (.unexpectedToken id found _) => ∃ ts t k, Token.scan s = .ok ts ∧ place = some k ∧
      Token.BeginsAt s ts id t k ∧ t.text = found ∧ t.isCode = true
  | .parse (.unexpectedEnd _) => place = none

namespace Document

variable {s : String} {p : Problem}

theorem formatSource_eq_error_iff {preset : Preset} :
    formatSource s preset = .error p ↔ read s = .error p := by
  unfold formatSource
  cases read s with
  | error q => simp
  | ok d => simp

/-- **A text is not read because it cannot be cut, or because of its code.** -/
theorem read_eq_error_iff : read s = .error p ↔ (∃ e, p = .lex e ∧ Token.scan s = .error e) ∨
    ∃ ts e, p = .parse e ∧ Token.scan s = .ok ts ∧ Tree.ofChain (Chain.ofList ts) = .error e := by
  unfold read
  cases Token.scan s with
  | error e => simp [eq_comm]
  | ok ts =>
      dsimp only
      cases htree : Tree.ofChain (Chain.ofList ts) with
      | error e => simp [htree, eq_comm]
      | ok tree => simp [htree]

end Document

/-- The token that a parse error names is the one at its handle, a code token of the text named. -/
theorem Token.exists_of_parse_error {ts : List Token} {id : TokenId} {found : String} {wanted : Wanted}
    (h : Tree.ofChain (Chain.ofList ts) = .error (.unexpectedToken id found wanted)) :
    ∃ t, ts[id]? = some t ∧ t.text = found ∧ t.isCode = true := by
  obtain ⟨pos, t, hat, hfound⟩ := Descent.exists_marks h
  obtain ⟨hmem, hcode⟩ := Descent.mem_of_at? hat
  rw [(Chain.holds_ofList ts).entries_eq] at hmem
  exact ⟨t, Token.getElem?_of_mem_numbered hmem, hfound, hcode⟩

/-- **Every problem is located.** -/
theorem Document.located_of_read {s : String} {p : Problem} (h : Document.read s = .error p) :
    p.Located s (p.offset? s) := by
  rcases Document.read_eq_error_iff.mp h with ⟨e, rfl, hscan⟩ | ⟨ts, e, rfl, hscan, htree⟩
  · exact ⟨hscan, rfl, Token.holds_of_scan_error hscan⟩
  cases e with
  | unexpectedEnd wanted => rfl
  | unexpectedToken id found wanted =>
      obtain ⟨hcut, rfl⟩ := Token.scan_eq_ok_iff.mp hscan
      obtain ⟨t, ht, hfound, hcode⟩ := Token.exists_of_parse_error htree
      refine ⟨ts, t, Token.start ts id, hscan, ?_, Token.beginsAt_start hcut ht, hfound, hcode⟩
      have hoffset : Token.offset? ts id = some (Token.start ts id) :=
        Token.offset?_eq_some_iff.mpr ⟨(List.getElem?_eq_some_iff.mp ht).1, rfl⟩
      rw [Problem.offset?, ParseError.token?, hscan]
      exact hoffset

/-- **A problem points at the text that it is about.** For a text that is not formatted, the offset of the
    problem is the byte of the flaw, with a text that cannot be cut, or the byte at which the very token
    begins that was not expected, and there is none at the end of the tokens. The line and the column that
    the problem is told with are those of the offset. -/
theorem formatSource_error_located {s : String} {preset : Preset} {p : Problem}
    (h : formatSource s preset = .error p) : p.Located s (p.offset? s) ∧
      ∀ k, p.offset? s = some k → ∀ path, p.describe path s =
        s!"{path}:{(Text.positionAt s k).line}:{(Text.positionAt s k).column}: error: {p.message}" := by
  refine ⟨Document.located_of_read (Document.formatSource_eq_error_iff.mp h), ?_⟩
  intro k hk path
  rw [Problem.describe, hk]
  simp only [Position.text, toString, String.append_assoc]

/-- A token behind characters of two bytes, an open string behind a line feed, and an end. -/
theorem formatSource_error_located_multibyte :
    (Problem.Located "x = 'é';\n/*ü*/ f(a b);" (some 21) (.parse (.unexpectedToken 13 "b" (.text ")"))) ∧
      Problem.describe "a.js" "x = 'é';\n/*ü*/ f(a b);" (.parse (.unexpectedToken 13 "b" (.text ")"))) =
        "a.js:2:12: error: unexpected `b`, expected )") ∧
    Problem.Located "é;\n'ü\\" (some 4) (.lex ⟨.unterminatedString, 4⟩) ∧
    Problem.Located "é\n + (" none (.parse (.unexpectedEnd .expression)) := by
  have htoken : formatSource "x = 'é';\n/*ü*/ f(a b);" .standard =
      .error (.parse (.unexpectedToken 13 "b" (.text ")"))) := by decide +kernel
  have hlex : formatSource "é;\n'ü\\" .standard = .error (.lex ⟨.unterminatedString, 4⟩) := by
    decide +kernel
  have hend : formatSource "é\n + (" .standard = .error (.parse (.unexpectedEnd .expression)) := by
    decide +kernel
  have hoffset : Problem.offset? "x = 'é';\n/*ü*/ f(a b);"
      (.parse (.unexpectedToken 13 "b" (.text ")"))) = some 21 := by decide +kernel
  obtain ⟨hlocated, htold⟩ := formatSource_error_located htoken
  refine ⟨⟨hoffset ▸ hlocated, ?_⟩, (formatSource_error_located hlex).1,
    (formatSource_error_located hend).1⟩
  rw [htold 21 hoffset]
  decide +kernel

end ScriptSpacing
