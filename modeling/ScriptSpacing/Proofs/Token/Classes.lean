import ScriptSpacing.Proofs.Token.Boundary
import ScriptSpacing.Proofs.Token.Munch
import ScriptSpacing.Proofs.Token.Recut

/-!
# `Proofs.Token.Classes` — every token of a text is the longest of its class

A scan cuts each token from the text that begins with it, and what is cut there is what stands there
(`Lexeme.munches_of_next`). So each token of a text is the longest of its class where it stands
(`scan_munches`).

The classes then say what a token can hold. The end of a line is in few of them: a line break is one,
block comments and strings may hold it, and a line comment goes on over the separators, since `isNewline`
leaves them out (`scan_lineEnd`).
-/

namespace ScriptSpacing

/-! ## The longest of its class -/

namespace Token
open Text

variable {t : Token} {rest : List Char}

theorem source_cons (t : Token) (ts : List Token) : source (t :: ts) = t.text ++ source ts := by
  apply String.ext
  rw [String.toList_append, toList_source, toList_source, List.flatMap_cons]

theorem source_append (ts us : List Token) : source (ts ++ us) = source ts ++ source us := by
  apply String.ext
  rw [String.toList_append, toList_source_append]

theorem CutBefore.munches (h : t.CutBefore rest) :
    t.kind.Munches t.text.toList (t.text.toList ++ rest) := by
  obtain ⟨c, w, htext, hnext⟩ := h
  rw [htext]
  exact Lexeme.munches_of_next hnext

theorem Cut.munches {front back : List Token} (h : Cut (front ++ t :: back)) :
    t.kind.Munches t.text.toList (chars (t :: back)) :=
  h.of_append.head.munches

end Token

/-- **Every token of a text is the longest of its class.** Behind the tokens `front` in front of it, the
    rest `r` of the text begins with it, and it is what stands there: a number the longest text of the
    grammar of numbers, a word the longest run of word characters and of the kind that the vocabulary
    gives it, a string up to the first bare quote, and so on for every kind. -/
theorem scan_munches {s : String} {ts front back : List Token} {t : Token}
    (h : Token.scan s = .ok ts) (hts : ts = front ++ t :: back) :
    ∃ r, Text.slice? s (Token.source front).utf8ByteSize s.utf8ByteSize = some r ∧
      t.kind.Munches t.text.toList r.toList := by
  obtain ⟨hcut, hsource⟩ := Token.scan_eq_ok_iff.mp h
  subst hts
  refine ⟨Token.source (t :: back), ?_, ?_⟩
  · have hslice := ByteCursor.slice?_append (Token.source front) (Token.source (t :: back)) ""
    rwa [String.append_empty, ← Token.source_append, hsource] at hslice
  · rw [← Token.chars_eq_toList_source]
    exact hcut.munches

/-- A question mark before a fraction, and not optional chaining, though that would be longer. -/
theorem scan_munches_conditional :
    Token.scan "é?.5e+:y" = .ok [⟨.identifier, "é"⟩, ⟨.punctuator, "?"⟩, ⟨.numeric, ".5"⟩,
      ⟨.identifier, "e"⟩, ⟨.punctuator, "+"⟩, ⟨.punctuator, ":"⟩, ⟨.identifier, "y"⟩] ∧
    ∃ r, Text.slice? "é?.5e+:y" 2 9 = some r ∧
      Token.Kind.Munches .punctuator ['?'] r.toList := by
  have hscan : Token.scan "é?.5e+:y" = .ok [⟨.identifier, "é"⟩, ⟨.punctuator, "?"⟩, ⟨.numeric, ".5"⟩,
      ⟨.identifier, "e"⟩, ⟨.punctuator, "+"⟩, ⟨.punctuator, ":"⟩, ⟨.identifier, "y"⟩] := by
    decide +kernel
  have hfront : ∀ t back, (⟨.identifier, "é"⟩ : Token) :: t :: back = [⟨.identifier, "é"⟩] ++ t :: back :=
    fun _ _ => rfl
  exact ⟨hscan, scan_munches hscan (hfront _ _)⟩

/-! ## The ends of lines -/

namespace Text

variable {c : Char} {w cs : List Char}

theorem isLineEnd_of_blanks (h : Blanks w) (hc : c ∈ w) : isLineEnd c = false :=
  Lexeme.isLineEnd_of_class (by decide) (h.2 c hc)

theorem isLineEnd_of_word (h : Word w) (hc : c ∈ w) : isLineEnd c = false :=
  Lexeme.isLineEnd_of_class (by decide) (h.2 c hc)

theorem isLineEnd_of_numeral (h : Numeral w) (hc : c ∈ w) : isLineEnd c = false := by
  rcases h.chars c hc with hdigit | hmark
  · exact Lexeme.isLineEnd_of_class (by decide) hdigit
  · exact Lexeme.of_mem_list (by decide) hmark

theorem isLineEnd_of_mem_table (h : w ∈ Token.punctuatorTexts) (hc : c ∈ w) : isLineEnd c = false := by
  have htable : Token.punctuatorTexts.all (fun p => p.all fun c => !isLineEnd c) = true := by decide
  simpa using List.all_eq_true.mp (List.all_eq_true.mp htable w h) c hc

theorem isLineEnd_of_operator (h : Operator w cs) (hc : c ∈ w) : isLineEnd c = false := by
  obtain ⟨p, hp, ⟨-, rfl⟩ | ⟨-, rfl⟩⟩ := h.longest
  · exact Lexeme.of_mem_list (by decide) hc
  · exact isLineEnd_of_mem_table hp.mem hc

/-- **What can hold the end of a line**: a line break, a block comment, a string, and if it is a
    separator, a line comment. -/
theorem kind_of_isLineEnd {k : Token.Kind} (h : k.Munches w cs) (hc : c ∈ w)
    (hend : isLineEnd c = true) : k ∈ [.lineBreak, .blockComment, .string] ∨
      k = .lineComment ∧ isSeparator c = true := by
  have hno : ¬ isLineEnd c = false := by simp [hend]
  have hword : ¬ (Longest Word w cs ∧ Token.wordKind (String.ofList w) = k) :=
    fun h => hno (isLineEnd_of_word h.1.mem hc)
  cases k with
  | lineBreak | blockComment | string => exact .inl (by decide)
  | lineComment =>
      have hnewline : isNewline c = false := by simpa using h.mem.2 c hc
      rw [isLineEnd, hnewline, Bool.false_or] at hend
      exact .inr ⟨rfl, hend⟩
  | whiteSpace => exact absurd (isLineEnd_of_blanks h.mem hc) hno
  | numeric => exact absurd (isLineEnd_of_numeral h.mem hc) hno
  | punctuator => exact absurd (isLineEnd_of_operator h hc) hno
  | identifier | keyword | boolean | null => exact absurd h hword

end Text

namespace Token

/-- Every character of some tokens lies in one of them. -/
theorem exists_token_of_chars {ts : List Token} {u v : List Char} {c : Char}
    (h : chars ts = u ++ c :: v) : ∃ front t back a b, ts = front ++ t :: back ∧
      t.text.toList = a ++ c :: b ∧ u = chars front ++ a := by
  induction ts generalizing u with
  | nil => exact absurd h.symm (by simp)
  | cons t ts ih =>
      rw [chars_cons, List.append_eq_append_iff] at h
      rcases h with ⟨u', rfl, hrest⟩ | ⟨b, htext, hrest⟩
      · obtain ⟨front, x, back, a, b, rfl, htext, rfl⟩ := ih hrest
        exact ⟨t :: front, x, back, a, b, rfl, htext, by simp⟩
      · cases b with
        | nil =>
            obtain ⟨front, x, back, a, b, rfl, htext', ha⟩ := ih (u := []) hrest.symm
            exact ⟨t :: front, x, back, a, b, rfl, htext', by simp_all⟩
        | cons d b =>
            obtain ⟨rfl, -⟩ := List.cons.inj hrest
            exact ⟨[], t, ts, u, b, rfl, htext, rfl⟩

end Token

/-- **Where the ends of lines are.** Every line feed, carriage return and separator of a text lies in a
    line break, a block comment or a string, or it is a separator in a line comment, which goes on over
    it. -/
theorem scan_lineEnd {s : String} {ts : List Token} (h : Token.scan s = .ok ts) {u v : List Char}
    {c : Char} (hs : s.toList = u ++ c :: v) (hc : Text.isLineEnd c = true) :
    ∃ front t back a b, ts = front ++ t :: back ∧ t.text.toList = a ++ c :: b ∧
      u = Token.chars front ++ a ∧ (t.kind ∈ [.lineBreak, .blockComment, .string] ∨
        t.kind = .lineComment ∧ Text.isSeparator c = true) := by
  obtain ⟨hcut, hsource⟩ := Token.scan_eq_ok_iff.mp h
  rw [← hsource, ← Token.chars_eq_toList_source] at hs
  obtain ⟨front, t, back, a, b, rfl, htext, hu⟩ := Token.exists_token_of_chars hs
  have hmem : c ∈ t.text.toList := by
    rw [htext]
    simp
  exact ⟨front, t, back, a, b, rfl, htext, hu, Text.kind_of_isLineEnd hcut.munches hmem hc⟩

/-- A separator inside of a block comment. -/
theorem scan_lineEnd_blockComment :
    Token.scan "/*\u2029*/" = .ok [⟨.blockComment, "/*\u2029*/"⟩] ∧
    "/*\u2029*/".toList = ['/', '*'] ++ '\u2029' :: ['*', '/'] ∧ Text.isLineEnd '\u2029' = true ∧
    ∃ front t back a b, ([⟨.blockComment, "/*\u2029*/"⟩] : List Token) = front ++ t :: back ∧
      t.text.toList = a ++ '\u2029' :: b ∧ ['/', '*'] = Token.chars front ++ a ∧
      (t.kind ∈ [.lineBreak, .blockComment, .string] ∨
        t.kind = .lineComment ∧ Text.isSeparator '\u2029' = true) := by
  have hscan : Token.scan "/*\u2029*/" = .ok [⟨.blockComment, "/*\u2029*/"⟩] := by decide +kernel
  have htext : "/*\u2029*/".toList = ['/', '*'] ++ '\u2029' :: ['*', '/'] := by decide
  have hend : Text.isLineEnd '\u2029' = true := by decide
  exact ⟨hscan, htext, hend, scan_lineEnd hscan htext hend⟩

/-- A line comment swallows a separator and the code behind it, though a separator ends a line. -/
theorem scan_separator_in_lineComment :
    ∃ ts, Token.scan "// a\u2028b" = .ok ts ∧ '\u2028' ∈ "// a\u2028b".toList ∧
      Text.isLineEnd '\u2028' = true ∧
      ¬ ∃ t ∈ ts, t.kind ∈ [.lineBreak, .blockComment, .string] ∧ '\u2028' ∈ t.text.toList :=
  ⟨[⟨.lineComment, "// a\u2028b"⟩], by decide +kernel, by decide, by decide, by decide⟩

end ScriptSpacing
