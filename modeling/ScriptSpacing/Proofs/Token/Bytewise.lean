import ScriptSpacing.Proofs.Token.Boundary
import ScriptSpacing.Proofs.Token.Lookahead
import ScriptSpacing.Token.ByteScan

/-!
# `Proofs.Token.Bytewise` — a token cut by bytes is the token cut by characters

Where the cursor stands between characters, each part of the scanner over bytes moves it over the characters
that its counterpart in `Token.Lexeme` takes, and so to a place between characters again. Bytes decide as the
characters would, class by class. The one part that leaves the boundaries on its way is the string: a backslash
takes a single byte along, and when that begins a longer character the rest of it is passed byte by byte, since
no byte of it is a quote, a backslash or a line end (`stringEnd?_append`).

`Follows` puts the two scanners side by side, and `At.nextToken` is the comparison for a whole token.
-/

namespace ScriptSpacing
namespace Text
open Lexeme

/-! ## Classes -/

/-- A class of ASCII holds nothing outside. -/
theorem eq_false_of_class {q : Char → Bool} (hq : ∀ x, q x = true → isAscii x = true) (x : Char)
    (hx : isAscii x = false) : q x = false := by
  cases h : q x with
  | false => rfl
  | true =>
      rw [hq x h] at hx
      cases hx

theorem agree_isDigit : Agree isDigitByte isDigit :=
  .of_tables false (by decide +kernel) (by decide +kernel) (eq_false_of_class fun _ => isAscii_of_isDigit)

theorem agree_isDigitOrGap : Agree isDigitOrGapByte isDigitOrGap := by
  refine .of_tables false (by decide +kernel) (by decide +kernel) (eq_false_of_class fun x hx => ?_)
  unfold isDigitOrGap at hx
  rw [Bool.or_eq_true, decide_eq_true_iff] at hx
  rcases hx with hx | rfl
  · exact isAscii_of_isDigit hx
  · rfl

theorem agree_isHexDigitOrGap : Agree isHexDigitOrGapByte isHexDigitOrGap := by
  refine .of_tables false (by decide +kernel) (by decide +kernel) (eq_false_of_class fun x hx => ?_)
  unfold isHexDigitOrGap at hx
  rw [Bool.or_eq_true, decide_eq_true_iff] at hx
  rcases hx with hx | rfl
  · exact isAscii_of_isHexDigit hx
  · rfl

theorem agree_isNewline : Agree isNewlineByte isNewline := by
  refine .of_tables false (by decide +kernel) (by decide +kernel) (eq_false_of_class fun x hx => ?_)
  unfold isNewline at hx
  rw [Bool.or_eq_true, decide_eq_true_iff, decide_eq_true_iff] at hx
  rcases hx with rfl | rfl <;> rfl

theorem agree_isHigh : Agree isHighByte (fun x => !isAscii x) :=
  .of_tables true (by decide +kernel) (by decide +kernel) fun x hx => by rw [hx]; rfl

/-- A byte is outside ASCII when its character is. -/
theorem isHighByte_of_mem {x : Char} {b : UInt8} (hb : b ∈ String.utf8EncodeChar x) :
    isHighByte b = !isAscii x :=
  agree_isHigh x b hb

theorem isHighByte_toUInt8 {a : Char} (ha : isAscii a = true) : isHighByte a.toUInt8 = false := by
  have hmem : a.toUInt8 ∈ String.utf8EncodeChar a := by
    rw [utf8EncodeChar_of_isAscii ha]
    exact List.mem_cons_self
  rw [isHighByte_of_mem hmem, ha]
  rfl

/-- A byte of ASCII is read back as its character. -/
theorem ofUInt8_toUInt8 {x : Char} (hx : isAscii x = true) : Char.ofUInt8 x.toUInt8 = x := by
  have htable : ∀ n, n < 128 → Char.ofUInt8 (Char.ofNat n).toUInt8 = Char.ofNat n := by
    decide +kernel
  have hread := htable x.toNat (isAscii_iff.mp hx)
  rwa [Char.ofNat_toNat] at hread

/-- Classes with members outside ASCII are asked of a byte for ASCII alone. -/
theorem agree_isBlank : Agree isBlankByte (fun x => isAscii x && isBlank x) :=
  .of_tables false (by decide +kernel) (by decide +kernel) fun x hx => by rw [hx]; rfl

theorem agree_isWordStart : Agree isWordStartByte (fun x => isAscii x && isWordStart x) :=
  .of_tables false (by decide +kernel) (by decide +kernel) fun x hx => by rw [hx]; rfl

theorem agree_isWordPart : Agree isWordPartByte (fun x => isAscii x && isWordPart x) :=
  .of_tables false (by decide +kernel) (by decide +kernel) fun x hx => by rw [hx]; rfl

/-- Outside ASCII a character is a Unicode space, a separator, or foreign, which belongs to words. -/
theorem classes_of_not_isAscii {x : Char} (hx : isAscii x = false) :
    isBlank x = isUnicodeSpace x ∧ isLineEnd x = isSeparator x ∧ isDigit x = false ∧
      isWordStart x = (!isUnicodeSpace x && !isSeparator x) ∧
      isWordPart x = (!isUnicodeSpace x && !isSeparator x) ∧ ∀ a, isAscii a = true → x ≠ a := by
  have hne : ∀ a, isAscii a = true → x ≠ a := by
    rintro a ha rfl
    rw [ha] at hx
    cases hx
  have hdigit : isDigit x = false := eq_false_of_class (fun _ => isAscii_of_isDigit) x hx
  have hletter : isLetter x = false := eq_false_of_class (fun _ => isAscii_of_isLetter) x hx
  have hstart : isWordStart x = (!isUnicodeSpace x && !isSeparator x) := by
    unfold isWordStart isForeign
    rw [hletter, hx, decide_eq_false (hne '_' rfl), decide_eq_false (hne '$' rfl)]
    rfl
  refine ⟨?_, ?_, hdigit, hstart, ?_, hne⟩
  · unfold isBlank
    rw [decide_eq_false (hne ' ' rfl), decide_eq_false (hne '\t' rfl),
      decide_eq_false (hne '\x0b' rfl), decide_eq_false (hne '\x0c' rfl)]
    rfl
  · unfold isLineEnd isNewline
    rw [decide_eq_false (hne '\n' rfl), decide_eq_false (hne '\r' rfl)]
    rfl
  · unfold isWordPart
    rw [hstart, hdigit, Bool.or_false]

end Text

namespace ByteCursor
open Text Lexeme

variable {s : String} {c c' : ByteCursor s} {front cs : List Char} {x : Char}

/-! ## Runs -/

/-- One more character of a run. -/
theorem At.run_cons {q : Char → Bool} (hq : q x = true)
    (h : At c' (front ++ [x] ++ cs.takeWhile q) (cs.dropWhile q)) :
    At c' (front ++ (x :: cs).takeWhile q) ((x :: cs).dropWhile q) := by
  rw [List.takeWhile_cons_of_pos hq, List.dropWhile_cons_of_pos hq]
  rwa [List.append_assoc, List.singleton_append] at h

/-- A run that ends at once. -/
theorem At.run_nil {q : Char → Bool} (hq : q x = false) (h : At c front (x :: cs)) :
    At c (front ++ (x :: cs).takeWhile q) ((x :: cs).dropWhile q) := by
  have hnot : ¬q x = true := by
    rw [hq]
    exact Bool.false_ne_true
  rw [List.takeWhile_cons_of_neg hnot, List.dropWhile_cons_of_neg hnot, List.append_nil]
  exact h

/-- **Blanks are taken as by characters.** -/
theorem At.blanks (h : At c front cs) :
    At c.blanks (front ++ cs.takeWhile isBlank) (cs.dropWhile isBlank) := by
  induction cs generalizing c front with
  | nil =>
      rw [ByteCursor.blanks, h.current_nil, dif_neg (by decide), dif_neg (by decide)]
      simpa using h
  | cons x cs ih =>
      have hblank : isBlankByte c.current = (isAscii x && isBlank x) :=
        h.current_any agree_isBlank rfl
      have hhigh : isHighByte c.current = !isAscii x := h.current_any agree_isHigh rfl
      rw [ByteCursor.blanks]
      cases hx : isAscii x with
      | true =>
          rw [hx, Bool.true_and] at hblank
          rw [hx] at hhigh
          cases hq : isBlank x with
          | true =>
              rw [dif_pos (hblank.trans hq)]
              exact (ih (h.advance_one hx)).run_cons hq
          | false =>
              rw [dif_neg (by rw [hblank, hq]; decide), dif_neg (by rw [hhigh]; decide)]
              exact h.run_nil hq
      | false =>
          rw [hx, Bool.false_and] at hblank
          rw [hx, Bool.not_false] at hhigh
          have hq := (classes_of_not_isAscii hx).1
          rw [dif_neg (by rw [hblank]; decide), dif_pos hhigh, h.char?_eq]
          show At (if isUnicodeSpace x then _ else c) _ _
          rw [← hq]
          cases hq' : isBlank x with
          | true => exact (ih h.advance_char).run_cons hq'
          | false => exact h.run_nil hq'

/-- **A word is taken as by characters.** -/
theorem At.wordEnd (h : At c front cs) :
    At c.wordEnd (front ++ cs.takeWhile isWordPart) (cs.dropWhile isWordPart) := by
  induction cs generalizing c front with
  | nil =>
      rw [ByteCursor.wordEnd, h.current_nil, dif_neg (by decide), dif_neg (by decide)]
      simpa using h
  | cons x cs ih =>
      have hpart : isWordPartByte c.current = (isAscii x && isWordPart x) :=
        h.current_any agree_isWordPart rfl
      have hhigh : isHighByte c.current = !isAscii x := h.current_any agree_isHigh rfl
      rw [ByteCursor.wordEnd]
      cases hx : isAscii x with
      | true =>
          rw [hx, Bool.true_and] at hpart
          rw [hx] at hhigh
          rw [dif_neg (by rw [hhigh]; decide)]
          cases hq : isWordPart x with
          | true =>
              rw [dif_pos (hpart.trans hq)]
              exact (ih (h.advance_one hx)).run_cons hq
          | false =>
              rw [dif_neg (by rw [hpart, hq]; decide)]
              exact h.run_nil hq
      | false =>
          rw [hx, Bool.not_false] at hhigh
          obtain ⟨-, -, -, -, hq, -⟩ := classes_of_not_isAscii hx
          rw [dif_pos hhigh, h.char?_eq]
          show At (if isUnicodeSpace x || isSeparator x then c else _) _ _
          rw [← Bool.not_or] at hq
          cases hq' : isUnicodeSpace x || isSeparator x with
          | true =>
              rw [hq'] at hq
              exact h.run_nil hq
          | false =>
              rw [hq'] at hq
              exact (ih h.advance_char).run_cons hq

/-! ## Comments -/

/-- **A search by bytes ends as one by characters**: at a place between characters behind what was read, or
    with the flaw. -/
def Ends (kind : Token.Kind) (flaw : Flaw) (taken front : List Char) (o : Option (ByteCursor s)) :
    Except Flaw Lexeme → Prop
  | .ok l    => ∃ xs c', l.kind = kind ∧ l.text = taken.reverse ++ xs ∧ o = some c' ∧
      At c' (front ++ xs) l.rest
  | .error f => f = flaw ∧ o = none

/-- A search has read one more character. -/
theorem Ends.of_cons {kind : Token.Kind} {flaw : Flaw} {taken : List Char}
    {o : Option (ByteCursor s)} {r : Except Flaw Lexeme}
    (h : Ends kind flaw (x :: taken) (front ++ [x]) o r) : Ends kind flaw taken front o r := by
  cases r with
  | error f => exact h
  | ok l =>
      obtain ⟨xs, c', hkind, htext, ho, hat⟩ := h
      refine ⟨x :: xs, c', hkind, ?_, ho, ?_⟩
      · rw [htext, List.reverse_cons, List.append_assoc, List.singleton_append]
      · rwa [List.append_assoc, List.singleton_append] at hat

theorem bytes_closer : bytes "*/" = encode ['*', '/'] := bytes_ofList ['*', '/']

/-- The end of a comment is not at a character that does not begin it. -/
theorem At.skipPast?_cons (h : At c front (x :: cs)) (hnot : ¬['*', '/'].isPrefixOf (x :: cs) = true) :
    c.skipPast? (bytes "*/") = (c.advance x.utf8Size).skipPast? (bytes "*/") := by
  have hstep : indexOf? (encode ['*', '/']) (encode (x :: cs)) =
      (indexOf? (encode ['*', '/']) (encode cs)).map (· + x.utf8Size) := by
    cases hx : isAscii x with
    | true =>
        rw [← isPrefixOf_encode rfl] at hnot
        have hbytes : encode (x :: cs) = x.toUInt8 :: encode cs := by
          rw [encode_cons, utf8EncodeChar_of_isAscii hx, List.singleton_append]
        rw [utf8Size_of_isAscii hx]
        rw [hbytes] at hnot ⊢
        rw [indexOf?, if_neg hnot]
    | false =>
        have hne : ∀ y ∈ String.utf8EncodeChar x, y ≠ '*'.toUInt8 := by
          rintro y hy rfl
          exact absurd (le_of_mem_utf8EncodeChar hx hy) (by decide)
        rw [← String.length_utf8EncodeChar x]
        exact indexOf?_append hne (encode cs)
  unfold ByteCursor.skipPast?
  rw [h.rest_eq, h.advance_char.rest_eq, bytes_closer, hstep, Option.map_map]
  congr 1
  funext n
  show c.advance (n + x.utf8Size + _) = (c.advance x.utf8Size).advance (n + _)
  rw [advance_advance]
  congr 1
  omega

/-- **A block comment ends at the same place.** -/
theorem At.skipPast? {taken : List Char} (h : At c front cs) :
    Ends .blockComment .unterminatedComment taken front (c.skipPast? (bytes "*/"))
      (closeComment taken cs) := by
  fun_induction closeComment taken cs generalizing c front with
  | case1 taken rest =>
      refine ⟨['*', '/'], c.advance 2, rfl, by simp, ?_, ?_⟩
      · unfold ByteCursor.skipPast?
        rw [h.rest_eq, bytes_closer]
        rfl
      · exact h.advance ['*', '/']
  | case2 taken x cs hnot ih =>
      have hprefix : ¬['*', '/'].isPrefixOf (x :: cs) = true := by
        rw [List.isPrefixOf_iff_prefix]
        rintro ⟨rest, hrest⟩
        obtain ⟨rfl, rfl⟩ := List.cons.inj hrest
        exact hnot rest rfl rfl
      rw [h.skipPast?_cons hprefix]
      exact (ih h.advance_char).of_cons
  | case3 taken =>
      refine ⟨rfl, ?_⟩
      unfold ByteCursor.skipPast?
      rw [h.rest_eq, bytes_closer]
      rfl

/-! ## Strings -/

/-- Inside of a character outside ASCII a string goes on. -/
theorem stringEnd?_append {quote : UInt8} (hquote : isHighByte quote = false) {bs bs' : List UInt8}
    (hrest : c.rest = bs ++ bs') (hall : ∀ b ∈ bs, isHighByte b = true) :
    stringEnd? quote c = stringEnd? quote (c.advance bs.length) := by
  induction bs generalizing c with
  | nil => rw [List.length_nil, advance_zero]
  | cons b bs ih =>
      have hcurrent : c.current = b := by
        rw [current_eq, hrest]
        rfl
      have hb : isHighByte c.current = true := hcurrent ▸ hall b List.mem_cons_self
      have hne : ∀ y, isHighByte y = false → c.current ≠ y := by
        rintro y hy rfl
        rw [hb] at hy
        cases hy
      have hnewline : ¬isNewlineByte c.current = true := by
        unfold isNewlineByte
        rw [Bool.or_eq_true, decide_eq_true_iff, decide_eq_true_iff]
        rintro (hn | hn)
        · exact hne _ (by decide) hn
        · exact hne _ (by decide) hn
      have hend : ¬c.atEnd = true := by
        intro hend
        rw [rest_of_atEnd hend] at hrest
        cases hrest
      have hnext : (c.advance 1).rest = bs ++ bs' := by
        rw [rest_advance, hrest]
        rfl
      rw [stringEnd?, dif_neg (hne _ (by decide)), if_neg hnewline, dif_neg hend,
        if_neg (hne _ hquote), ih hnext (fun y hy => hall y (List.mem_cons_of_mem _ hy)),
        advance_advance, List.length_cons, Nat.add_comm]

/-- A string goes on behind a character that neither ends nor breaks it. -/
theorem At.stringEnd?_cons {quote : Char} (hquote : isAscii quote = true) (h : At c front (x :: cs))
    (hslash : x ≠ '\\') (hnewline : isNewline x = false) (hx : x ≠ quote) :
    stringEnd? quote.toUInt8 c = stringEnd? quote.toUInt8 (c.advance x.utf8Size) := by
  cases hascii : isAscii x with
  | true =>
      have hend : ¬c.atEnd = true := fun hend => List.cons_ne_nil x cs (h.atEnd_iff.mp hend)
      have hne : ∀ a, isAscii a = true → x ≠ a → c.current ≠ a.toUInt8 :=
        fun a ha hxa hcurrent => hxa ((h.current_cons_iff ha).mp hcurrent)
      have hnewline' : ¬isNewlineByte c.current = true := by
        rw [agree_isNewline x c.current h.current_mem, hnewline]
        exact Bool.false_ne_true
      rw [stringEnd?, dif_neg (hne '\\' rfl hslash), if_neg hnewline', dif_neg hend,
        if_neg (hne quote hquote hx), utf8Size_of_isAscii hascii]
  | false =>
      rw [← String.length_utf8EncodeChar x]
      apply stringEnd?_append (isHighByte_toUInt8 hquote) h.rest_eq
      intro b hb
      rw [isHighByte_of_mem hb, hascii]
      rfl

/-- At the end of the text a cursor does not move. -/
theorem At.advance_nil (h : At c front []) (n : Nat) : c.advance n = c := by
  have hsize := h.size_eq
  have hpos := h.pos
  rw [String.utf8Len_nil] at hsize
  obtain ⟨pos, hinside⟩ := c
  unfold ByteCursor.advance
  congr 1
  dsimp only at hpos ⊢
  omega

/-- A backslash takes the next character along, although it moves by two bytes only. -/
theorem At.stringEnd?_escape {quote : Char} (hquote : isAscii quote = true)
    (h : At c front ('\\' :: x :: cs)) :
    stringEnd? quote.toUInt8 c = stringEnd? quote.toUInt8 ((c.advance 1).advance x.utf8Size) := by
  have hcurrent : c.current = '\\'.toUInt8 := (h.current_eq_iff rfl (by decide)).mpr rfl
  have hnext := h.advance_one rfl
  rw [stringEnd?, dif_pos hcurrent]
  cases hx : isAscii x with
  | true => rw [utf8Size_of_isAscii hx, advance_advance]
  | false =>
      obtain ⟨b, bs, hb⟩ := exists_utf8EncodeChar_eq_cons x
      -- the cursor stands behind the first byte of the character
      have hrest : (c.advance 2).rest = bs ++ encode cs := by
        have hrest := hnext.rest_eq
        rw [encode_cons, hb] at hrest
        rw [← advance_advance c 1 1, rest_advance, hrest]
        rfl
      have hall : ∀ y ∈ bs, isHighByte y = true := by
        intro y hy
        rw [isHighByte_of_mem (hb ▸ List.mem_cons_of_mem _ hy), hx]
        rfl
      rw [stringEnd?_append (isHighByte_toUInt8 hquote) hrest hall, advance_advance, advance_advance,
        ← String.length_utf8EncodeChar x, hb, List.length_cons]
      congr 2
      omega

/-- **A string ends at the same place.** -/
theorem At.stringEnd? {quote : Char} (hquote : quote = '"' ∨ quote = '\'') {taken : List Char}
    (h : At c front cs) :
    Ends .string .unterminatedString taken front (stringEnd? quote.toUInt8 c)
      (closeString quote taken cs) := by
  have hascii : isAscii quote = true := by rcases hquote with rfl | rfl <;> rfl
  have hslash : quote ≠ '\\' := by rcases hquote with rfl | rfl <;> decide
  have hline : isNewline quote = false := by rcases hquote with rfl | rfl <;> rfl
  fun_induction closeString quote taken cs generalizing c front with
  | case1 taken x cs ih =>
      rw [h.stringEnd?_escape hascii]
      exact (ih (h.advance_one rfl).advance_char).of_cons.of_cons
  | case2 taken cs hnot =>
      have hend : ¬c.atEnd = true := fun hend => List.cons_ne_nil _ cs (h.atEnd_iff.mp hend)
      have hcurrent := (h.current_cons_iff hascii).mpr rfl
      have hnewline : ¬isNewlineByte c.current = true := by
        rw [agree_isNewline quote c.current h.current_mem, hline]
        exact Bool.false_ne_true
      refine ⟨[quote], c.advance 1, rfl, List.reverse_cons, ?_, h.advance_one hascii⟩
      rw [ByteCursor.stringEnd?, dif_neg (fun hc => hslash ((h.current_cons_iff rfl).mp hc)),
        if_neg hnewline, dif_neg hend, if_pos hcurrent]
  | case3 taken x cs hnot hx hnewline =>
      have hne : x ≠ '\\' := by
        rintro rfl
        cases hnewline
      refine ⟨rfl, ?_⟩
      rw [ByteCursor.stringEnd?, dif_neg (fun hc => hne ((h.current_cons_iff rfl).mp hc)),
        if_pos ((agree_isNewline x c.current h.current_mem).trans hnewline)]
  | case4 taken x cs hnot hx hnewline ih =>
      by_cases hne : x = '\\'
      -- a backslash with nothing behind it
      · subst hne
        obtain rfl : cs = [] := by
          cases cs with
          | nil => rfl
          | cons y cs => exact absurd rfl (hnot y cs rfl)
        have hnext := h.advance_one rfl
        rw [ByteCursor.stringEnd?, dif_pos ((h.current_cons_iff rfl).mpr rfl),
          ← advance_advance c 1 1, hnext.advance_nil]
        exact (ih hnext).of_cons
      · rw [h.stringEnd?_cons hascii hne (Bool.eq_false_iff.mpr hnewline) hx]
        exact (ih h.advance_char).of_cons
  | case5 taken =>
      refine ⟨rfl, ?_⟩
      rw [ByteCursor.stringEnd?, h.current_nil, dif_neg (by decide), if_neg (by decide),
        dif_pos (h.atEnd_iff.mpr rfl)]

/-! ## Numbers -/

theorem startsWithDigit_eq (cs : List Char) : startsWithDigit cs = cs.head?.any isDigit := by
  cases cs <;> rfl

/-- **A fraction is taken as by characters.** -/
theorem At.fraction (h : At c front cs) :
    At c.fraction (front ++ (Lexeme.fraction cs).1) (Lexeme.fraction cs).2 := by
  have hpoint := h.current_eq_iff (a := '.') rfl (by decide)
  unfold ByteCursor.fraction
  by_cases hcurrent : c.current = '.'.toUInt8
  · obtain ⟨rest, rfl⟩ := List.head?_eq_some_iff.mp (hpoint.mp hcurrent)
    have hdigits := (h.advance_one rfl).eatWhile agree_isDigitOrGap
    rw [List.append_assoc, List.singleton_append] at hdigits
    rw [if_pos hcurrent]
    exact hdigits
  · have hnone : Lexeme.fraction cs = ([], cs) := by
      unfold Lexeme.fraction
      split
      · exact absurd (hpoint.mpr rfl) hcurrent
      · rfl
    rw [if_neg hcurrent, hnone, List.append_nil]
    exact h

/-- The size of a sign at the cursor. -/
theorem At.sign (h : At c front cs) :
    At (c.advance (if c.current = '+'.toUInt8 ∨ c.current = '-'.toUInt8 then 1 else 0))
      (front ++ (Lexeme.sign cs).1) (Lexeme.sign cs).2 := by
  have hplus := h.current_eq_iff (a := '+') rfl (by decide)
  have hminus := h.current_eq_iff (a := '-') rfl (by decide)
  by_cases hcurrent : c.current = '+'.toUInt8 ∨ c.current = '-'.toUInt8
  · rw [if_pos hcurrent]
    rcases hcurrent with hcurrent | hcurrent
    · obtain ⟨rest, rfl⟩ := List.head?_eq_some_iff.mp (hplus.mp hcurrent)
      exact h.advance_one rfl
    · obtain ⟨rest, rfl⟩ := List.head?_eq_some_iff.mp (hminus.mp hcurrent)
      exact h.advance_one rfl
  · have hnone : Lexeme.sign cs = ([], cs) := by
      unfold Lexeme.sign
      split
      · exact absurd (.inl (hplus.mpr rfl)) hcurrent
      · exact absurd (.inr (hminus.mpr rfl)) hcurrent
      · rfl
    rw [if_neg hcurrent, hnone, advance_zero, List.append_nil]
    exact h

/-- The digits of an exponent are looked for behind its sign. -/
theorem At.sign_exponent (h : At c front (x :: cs)) (hx : isAscii x = true) :
    At (c.advance (1 + c.signSize)) (front ++ [x] ++ (Lexeme.sign cs).1) (Lexeme.sign cs).2 := by
  have hsign := (h.advance_one hx).sign
  rw [advance_advance, ← peek_eq_current] at hsign
  exact hsign

theorem exponent_cons (x : Char) (cs : List Char) :
    Lexeme.exponent (x :: cs) =
      if (x = 'e' ∨ x = 'E') ∧ startsWithDigit (Lexeme.sign cs).2 = true then
        (x :: (Lexeme.sign cs).1 ++ (Lexeme.sign cs).2.takeWhile isDigit,
          (Lexeme.sign cs).2.dropWhile isDigit)
      else ([], x :: cs) := by
  simp only [Lexeme.exponent, Bool.and_eq_true, Bool.or_eq_true, decide_eq_true_eq]

/-- **An exponent is taken as by characters.** -/
theorem At.exponent (h : At c front cs) :
    At c.exponent (front ++ (Lexeme.exponent cs).1) (Lexeme.exponent cs).2 := by
  unfold ByteCursor.exponent
  cases cs with
  | nil =>
      rw [h.current_nil, if_neg (by decide)]
      show At c (front ++ []) []
      rwa [List.append_nil]
  | cons x cs =>
      have hcond : (c.current = 'e'.toUInt8 ∨ c.current = 'E'.toUInt8) ↔ (x = 'e' ∨ x = 'E') :=
        or_congr (h.current_cons_iff rfl) (h.current_cons_iff rfl)
      rw [exponent_cons]
      by_cases hmark : x = 'e' ∨ x = 'E'
      · have hx : isAscii x = true := by rcases hmark with rfl | rfl <;> rfl
        have hsign := h.sign_exponent hx
        have hdigit : isDigitByte (c.peek (1 + c.signSize)) =
            startsWithDigit (Lexeme.sign cs).2 := by
          rw [peek_eq_current, startsWithDigit_eq]
          exact hsign.current_any agree_isDigit rfl
        rw [if_pos (hcond.mpr hmark), hdigit]
        cases hstarts : startsWithDigit (Lexeme.sign cs).2 with
        | true =>
            have hdigits := hsign.eatWhile agree_isDigit
            rw [if_pos rfl, if_pos ⟨hmark, rfl⟩]
            simpa using hdigits
        | false =>
            rw [if_neg Bool.false_ne_true, if_neg (fun hc => Bool.false_ne_true hc.2),
              List.append_nil]
            exact h
      · rw [if_neg (fun hc => hmark (hcond.mp hc)), if_neg (fun hc => hmark hc.1), List.append_nil]
        exact h

theorem hexMarker?_zero (x : Char) (cs : List Char) :
    Lexeme.hexMarker? ('0' :: x :: cs) =
      if x = 'x' ∨ x = 'X' then some (['0', x], cs) else none := by
  simp only [Lexeme.hexMarker?, Bool.or_eq_true, decide_eq_true_eq]

/-- **A hexadecimal marker is seen as by characters.** -/
theorem At.hexMarker (h : At c front cs) :
    match Lexeme.hexMarker? cs with
    | some (marker, rest) =>
      (c.current = '0'.toUInt8 ∧ (c.peek 1 = 'x'.toUInt8 ∨ c.peek 1 = 'X'.toUInt8)) ∧
        At (c.advance 2) (front ++ marker) rest
    | none => ¬(c.current = '0'.toUInt8 ∧ (c.peek 1 = 'x'.toUInt8 ∨ c.peek 1 = 'X'.toUInt8)) := by
  have hzero := h.current_eq_iff (a := '0') rfl (by decide)
  rw [hzero, peek_eq_current]
  cases cs with
  | nil =>
      rintro ⟨hhead, -⟩
      cases hhead
  | cons z cs =>
      by_cases hz : z = '0'
      · subst hz
        have hnext := h.advance_one rfl
        have hx := hnext.current_eq_iff (a := 'x') rfl (by decide)
        have hX := hnext.current_eq_iff (a := 'X') rfl (by decide)
        rw [hx, hX]
        cases cs with
        | nil =>
            rintro ⟨-, hhead | hhead⟩ <;> cases hhead
        | cons x cs =>
            rw [hexMarker?_zero]
            by_cases hmark : x = 'x' ∨ x = 'X'
            · have hascii : isAscii x = true := by rcases hmark with rfl | rfl <;> rfl
              rw [if_pos hmark]
              have hbehind := hnext.advance_one hascii
              rw [advance_advance, List.append_assoc, List.singleton_append] at hbehind
              exact ⟨⟨rfl, by simpa using hmark⟩, hbehind⟩
            · rw [if_neg hmark]
              rintro ⟨-, hhead⟩
              exact hmark (by simpa using hhead)
      · have hnone : Lexeme.hexMarker? (z :: cs) = none := by
          unfold Lexeme.hexMarker?
          split
          · next hcons => exact absurd (List.cons.inj hcons).1 hz
          · rfl
        rw [hnone]
        rintro ⟨hhead, -⟩
        exact hz (Option.some.inj hhead)

/-- **The digits of a number are taken as by characters.** -/
theorem At.magnitude (h : At c front cs) :
    At c.magnitude (front ++ (Lexeme.magnitude cs).1) (Lexeme.magnitude cs).2 := by
  have hmarker := h.hexMarker
  unfold ByteCursor.magnitude Lexeme.magnitude
  cases hhex : Lexeme.hexMarker? cs with
  | some found =>
      rw [hhex] at hmarker
      obtain ⟨hcond, hat⟩ := hmarker
      have hdigits := hat.eatWhile agree_isHexDigitOrGap
      rw [if_pos hcond]
      rwa [List.append_assoc] at hdigits
  | none =>
      rw [hhex] at hmarker
      have hwhole := h.eatWhile agree_isDigitOrGap
      have hpower := hwhole.fraction.exponent
      rw [if_neg hmarker]
      rwa [List.append_assoc, List.append_assoc, ← List.append_assoc (cs.takeWhile _)] at hpower

/-- **A number is taken as by characters.** -/
theorem At.number (h : At c front cs) :
    At c.number (front ++ (Lexeme.number cs).text) (Lexeme.number cs).rest := by
  have hdigits := h.magnitude
  have hbig := hdigits.current_eq_iff (a := 'n') rfl (by decide)
  show At c.number (front ++ ((Lexeme.magnitude cs).1 ++ (Lexeme.suffix (Lexeme.magnitude cs).2).1))
    (Lexeme.suffix (Lexeme.magnitude cs).2).2
  rw [← List.append_assoc]
  unfold ByteCursor.number
  by_cases hcurrent : c.magnitude.current = 'n'.toUInt8
  · obtain ⟨rest, hrest⟩ := List.head?_eq_some_iff.mp (hbig.mp hcurrent)
    rw [if_pos hcurrent, hrest]
    rw [hrest] at hdigits
    exact hdigits.advance_one rfl
  · have hnone : Lexeme.suffix (Lexeme.magnitude cs).2 = ([], (Lexeme.magnitude cs).2) := by
      unfold Lexeme.suffix
      split
      · next rest hrest => exact absurd (hbig.mpr (by rw [hrest]; rfl)) hcurrent
      · rfl
    rw [if_neg hcurrent, hnone, List.append_nil]
    exact hdigits

/-! ## Punctuators -/

/-- The bytes left begin with a punctuator when the characters do. -/
theorem At.startsWith (h : At c front cs) {p : String} (hp : p ∈ Token.punctuators) :
    c.startsWith (bytes p) = p.toList.isPrefixOf cs := by
  have hascii : (Token.punctuators.all fun p => p.toList.all isAscii) = true := by decide
  unfold ByteCursor.startsWith
  rw [h.rest_eq, bytes_eq_encode, isPrefixOf_encode (List.all_eq_true.mp hascii p hp)]

/-- **The same punctuator is found.** -/
theorem At.punctuatorAt? (h : At c front cs) :
    (Token.punctuators.find? (fun p => c.startsWith (bytes p))).map String.toList =
      Token.punctuatorAt? cs := by
  have hsame : ∀ ps : List String, (∀ p ∈ ps, p ∈ Token.punctuators) →
      ps.find? (fun p => c.startsWith (bytes p)) = ps.find? (fun p => p.toList.isPrefixOf cs) := by
    intro ps hps
    induction ps with
    | nil => rfl
    | cons p ps ih =>
        rw [List.find?_cons, List.find?_cons, h.startsWith (hps p List.mem_cons_self),
          ih (fun q hq => hps q (List.mem_cons_of_mem _ hq))]
  unfold Token.punctuatorAt? Token.punctuatorTexts
  rw [hsame _ (fun p hp => hp), List.find?_map]
  rfl

/-- The size of a punctuator is that of its text; a question mark before a fraction is one byte. -/
theorem At.size_punctuatorText (h : At c front cs) {p : String} (hp : p.toList <+: cs) :
    (if p = "?." ∧ isDigitByte (c.peek 2) = true then 1 else p.utf8ByteSize) =
      String.utf8Len (punctuatorText p.toList (cs.drop p.toList.length)) := by
  unfold punctuatorText
  by_cases hchain : p = "?."
  · subst hchain
    obtain ⟨rest, rfl⟩ := hp
    have hbehind : At (c.advance 2) (front ++ ['?', '.']) rest := h.advance ['?', '.']
    have hdigit : isDigitByte (c.peek 2) = startsWithDigit rest := by
      rw [peek_eq_current, startsWithDigit_eq]
      exact hbehind.current_any agree_isDigit rfl
    rw [hdigit]
    show _ = String.utf8Len
      (if (['?', '.'] = ['?', '.'] && startsWithDigit rest) = true then ['?'] else ['?', '.'])
    cases startsWithDigit rest with
    | true => rfl
    | false => rfl
  · have hne : ¬p.toList = ['?', '.'] := fun heq => hchain (String.toList_inj.mp heq)
    rw [if_neg (fun hc => hchain hc.1), if_neg (by simp [hne]), String.utf8Len_toList]

/-- **A punctuator ends at the same place.** -/
theorem At.punctuatorEnd? (h : At c front (x :: cs)) :
    Ends .punctuator (.unexpectedCharacter x) [] front c.punctuatorEnd?
      (Lexeme.punctuator x cs) := by
  have hfound := h.punctuatorAt?
  unfold Lexeme.punctuator ByteCursor.punctuatorEnd?
  cases hfind : Token.punctuators.find? (fun p => c.startsWith (bytes p)) with
  | none =>
      rw [hfind, Option.map_none] at hfound
      rw [← hfound]
      exact ⟨rfl, rfl⟩
  | some p =>
      rw [hfind, Option.map_some] at hfound
      rw [← hfound]
      have hprefix := (Token.punctuatorAt?_spec hfound.symm).1
      refine ⟨punctuatorText p.toList ((x :: cs).drop p.toList.length), _, rfl, rfl, rfl, ?_⟩
      dsimp only
      rw [h.size_punctuatorText hprefix]
      apply At.advance
      rw [List.prefix_iff_eq_append.mp (isPrefix_punctuatorText hprefix _)]
      exact h

/-! ## The next token -/

/-- **A step over bytes follows one over characters**: it cuts the same token and stops behind it, between
    characters again, or it meets the same flaw. -/
def Follows (c : ByteCursor s) (front : List Char)
    (o : Except Halt (Option (RawToken × ByteCursor s))) : Except Flaw Lexeme → Prop
  | .ok l    => ∃ c', o = cut l.kind c c' ∧ At c' (front ++ l.text) l.rest
  | .error f => o = fail f c

/-- A search that ends where one by characters does makes the same token. -/
theorem Ends.follows {kind : Token.Kind} {flaw : Flaw} {taken : List Char}
    {o : Option (ByteCursor s)} {r : Except Flaw Lexeme}
    (h : Ends kind flaw taken (front ++ taken.reverse) o r) :
    Follows c front (cutTo kind flaw c o) r := by
  cases r with
  | error f =>
      obtain ⟨rfl, rfl⟩ := h
      rfl
  | ok l =>
      obtain ⟨xs, c', rfl, htext, rfl, hat⟩ := h
      rw [List.append_assoc, ← htext] at hat
      exact ⟨c', rfl, hat⟩

/-- A word is sorted by the text between the cursors. -/
theorem At.cutWord (h : At c front cs) : Follows c front c.cutWord (.ok (Lexeme.word cs)) := by
  have hword := h.wordEnd
  have hslice : slice? s c.pos c.wordEnd.pos = some (String.ofList (cs.takeWhile isWordPart)) := by
    apply At.slice?_eq _ hword
    rw [List.takeWhile_append_dropWhile]
    exact h
  refine ⟨c.wordEnd, ?_, hword⟩
  unfold ByteCursor.cutWord
  rw [hslice]
  rfl

/-- A token that begins outside ASCII: a blank, a line break or a word. -/
theorem At.cutHigh (h : At c front (x :: cs)) (hx : isAscii x = false) :
    Follows c front c.cutHigh (Lexeme.next x cs) := by
  obtain ⟨hblank, hend, hdigit, hword, -, hne⟩ := classes_of_not_isAscii hx
  have hspace : isSeparator x = true → isUnicodeSpace x = false := by
    unfold isSeparator
    rw [Bool.or_eq_true, decide_eq_true_iff, decide_eq_true_iff]
    rintro (rfl | rfl) <;> rfl
  unfold ByteCursor.cutHigh Lexeme.next
  rw [h.char?_eq, List.head?_cons, hblank, hend, hdigit, hword]
  dsimp only
  cases hsep : isSeparator x with
  | true =>
      have hbreak : lineBreak x cs = ⟨.lineBreak, [x], cs⟩ := by
        unfold lineBreak
        split
        · rw [if_neg (hne '\r' rfl)]
        · rfl
      rw [hspace hsep, if_pos rfl, if_neg Bool.false_ne_true, if_pos rfl, hbreak]
      exact ⟨_, rfl, h.advance_char⟩
  | false =>
      rw [if_neg Bool.false_ne_true]
      cases hu : isUnicodeSpace x with
      | true =>
          rw [if_pos rfl, if_pos rfl]
          exact ⟨_, rfl, h.blanks⟩
      | false =>
          have hslash := hne '/' rfl
          rw [if_neg Bool.false_ne_true, if_neg Bool.false_ne_true, if_neg Bool.false_ne_true,
            if_neg (by simp [hslash]), if_neg (by simp [hslash]),
            if_neg (by simp [hne '"' rfl, hne '\'' rfl]), if_neg (hne '`' rfl),
            if_neg (by simp [hne '.' rfl])]
          show Follows c front c.cutWord (.ok (word (x :: cs)))
          exact h.cutWord

/-- A line feed, or a carriage return with the line feed behind it. -/
theorem At.lineBreak (h : At c front (x :: cs)) (hx : x = '\n' ∨ x = '\r') :
    Follows c front
      (if c.current = '\n'.toUInt8 then cut .lineBreak c (c.advance 1)
        else cut .lineBreak c
          (if (c.advance 1).current = '\n'.toUInt8 then (c.advance 1).advance 1 else c.advance 1))
      (.ok (Lexeme.lineBreak x cs)) := by
  have hascii : isAscii x = true := by rcases hx with rfl | rfl <;> rfl
  have hnext := h.advance_one hascii
  have hfeed := hnext.current_eq_iff (a := '\n') rfl (by decide)
  have hfirst := h.current_cons_iff (a := '\n') rfl
  rcases hx with rfl | rfl
  · have hbreak : Lexeme.lineBreak '\n' cs = ⟨.lineBreak, ['\n'], cs⟩ := by
      unfold Lexeme.lineBreak
      split <;> rfl
    rw [if_pos (hfirst.mpr rfl), hbreak]
    exact ⟨_, rfl, hnext⟩
  · rw [if_neg (fun hc => absurd (hfirst.mp hc) (by decide))]
    by_cases hboth : (c.advance 1).current = '\n'.toUInt8
    · obtain ⟨rest, rfl⟩ := List.head?_eq_some_iff.mp (hfeed.mp hboth)
      have hbehind := hnext.advance_one rfl
      rw [List.append_assoc] at hbehind
      rw [if_pos hboth]
      exact ⟨_, rfl, hbehind⟩
    · have hbreak : Lexeme.lineBreak '\r' cs = ⟨.lineBreak, ['\r'], cs⟩ := by
        unfold Lexeme.lineBreak
        split
        · exact absurd (hfeed.mpr rfl) hboth
        · rfl
      rw [if_neg hboth, hbreak]
      exact ⟨_, rfl, hnext⟩

/-- A line comment goes up to the next line feed or carriage return. -/
theorem At.lineComment (h : At c front cs) :
    Follows c front (cut .lineComment c (c.skipTo isNewlineByte))
      (.ok (Lexeme.run .lineComment (fun x => !isNewline x) cs)) :=
  ⟨_, rfl, h.skipTo agree_isNewline⟩

/-- The questions that a token is cut by, in order. -/
theorem next_eq (x : Char) (cs : List Char) :
    Lexeme.next x cs =
      if isBlank x = true then .ok (run .whiteSpace isBlank (x :: cs))
      else if isLineEnd x = true then .ok (Lexeme.lineBreak x cs)
      else if x = '/' ∧ cs.head? = some '/' then
        .ok (run .lineComment (fun d => !isNewline d) (x :: cs))
      else if x = '/' ∧ cs.head? = some '*' then closeComment ['*', '/'] cs.tail
      else if x = '"' ∨ x = '\'' then closeString x [x] cs
      else if x = '`' then .error .templateLiteral
      else if isDigit x = true ∨ (x = '.' ∧ startsWithDigit cs = true) then
        .ok (Lexeme.number (x :: cs))
      else if isWordStart x = true then .ok (word (x :: cs))
      else Lexeme.punctuator x cs := by
  simp only [Lexeme.next, Bool.and_eq_true, Bool.or_eq_true, decide_eq_true_eq]

/-- The same question on both sides. -/
theorem Follows.ite {P P' : Prop} [Decidable P] [Decidable P']
    {o o' : Except Halt (Option (RawToken × ByteCursor s))} {r r' : Except Flaw Lexeme}
    (hcond : P ↔ P') (hyes : P' → Follows c front o r) (hno : ¬P' → Follows c front o' r') :
    Follows c front (if P then o else o') (if P' then r else r') := by
  by_cases h : P'
  · rw [if_pos (hcond.mpr h), if_pos h]
    exact hyes h
  · rw [if_neg (fun hp => h (hcond.mp hp)), if_neg h]
    exact hno h

/-- Two questions on one side for one on the other. -/
theorem Follows.ite_ite {P Q P' : Prop} [Decidable P] [Decidable Q] [Decidable P']
    {o₁ o₂ o' : Except Halt (Option (RawToken × ByteCursor s))} {r r' : Except Flaw Lexeme}
    (hcond : P ∨ Q ↔ P') (hyes : P' → Follows c front (if P then o₁ else o₂) r)
    (hno : ¬P' → Follows c front o' r') :
    Follows c front (if P then o₁ else if Q then o₂ else o') (if P' then r else r') := by
  have hor : (if P then o₁ else if Q then o₂ else o') =
      if P ∨ Q then (if P then o₁ else o₂) else o' := by
    by_cases hP : P
    · rw [if_pos hP, if_pos (.inl hP), if_pos hP]
    · by_cases hQ : Q
      · rw [if_neg hP, if_pos hQ, if_pos (.inr hQ), if_neg hP]
      · rw [if_neg hP, if_neg hQ, if_neg (fun h => h.elim hP hQ)]
  rw [hor]
  exact Follows.ite hcond hyes hno

/-- A line end of ASCII is a line feed or a carriage return. -/
theorem isLineEnd_iff (hx : isAscii x = true) : isLineEnd x = true ↔ x = '\n' ∨ x = '\r' := by
  unfold isLineEnd isNewline isSeparator
  simp only [Bool.or_eq_true, decide_eq_true_eq]
  constructor
  · rintro (hline | rfl | rfl)
    · exact hline
    · cases hx
    · cases hx
  · exact .inl

/-- A punctuator, or a character that begins no token. -/
theorem At.cutPunctuator (h : At c front (x :: cs)) (hx : isAscii x = true) :
    Follows c front
      (cutTo .punctuator (.unexpectedCharacter (Char.ofUInt8 c.current)) c c.punctuatorEnd?)
      (Lexeme.punctuator x cs) := by
  have hends : Ends .punctuator (.unexpectedCharacter x) [] (front ++ [].reverse)
      c.punctuatorEnd? (Lexeme.punctuator x cs) := by
    rw [List.reverse_nil, List.append_nil]
    exact h.punctuatorEnd?
  rw [(h.current_cons_iff hx).mpr rfl, ofUInt8_toUInt8 hx]
  exact hends.follows

/-- A token that begins in ASCII, question by question. -/
theorem At.nextToken_of_isAscii (h : At c front (x :: cs)) (hx : isAscii x = true) :
    Follows c front c.nextToken (Lexeme.next x cs) := by
  have hend : ¬c.atEnd = true := fun hend => List.cons_ne_nil x cs (h.atEnd_iff.mp hend)
  have hnext := h.advance_one hx
  have his : ∀ a, isAscii a = true → (c.current = a.toUInt8 ↔ x = a) :=
    fun a ha => h.current_cons_iff ha
  have hpeek : ∀ a, isAscii a = true → (0 : UInt8) ≠ a.toUInt8 →
      (c.peek 1 = a.toUInt8 ↔ cs.head? = some a) := by
    intro a ha hzero
    rw [peek_eq_current]
    exact hnext.current_eq_iff ha hzero
  have hdigit : isDigitByte c.current = isDigit x := agree_isDigit x c.current h.current_mem
  have hpeekDigit : isDigitByte (c.peek 1) = startsWithDigit cs := by
    rw [peek_eq_current, startsWithDigit_eq]
    exact hnext.current_any agree_isDigit rfl
  have hhigh : ¬isHighByte c.current = true := by
    rw [isHighByte_of_mem h.current_mem, hx]
    exact Bool.false_ne_true
  unfold ByteCursor.nextToken
  rw [next_eq, if_neg hend, h.current_ascii agree_isBlank hx, h.current_ascii agree_isWordStart hx]
  refine .ite Iff.rfl (fun _ => ⟨_, rfl, h.blanks⟩) fun _ => ?_
  refine .ite_ite ?_ (fun hline => h.lineBreak ((isLineEnd_iff hx).mp hline)) fun _ => ?_
  · rw [his '\n' rfl, his '\r' rfl]
    exact (isLineEnd_iff hx).symm
  refine .ite (and_congr (his '/' rfl) (hpeek '/' rfl (by decide))) (fun _ => h.lineComment)
    fun _ => ?_
  refine .ite (and_congr (his '/' rfl) (hpeek '*' rfl (by decide))) ?_ fun _ => ?_
  · rintro ⟨rfl, hstar⟩
    obtain ⟨rest, rfl⟩ := List.head?_eq_some_iff.mp hstar
    have hinside : At (c.advance 2) (front ++ ['*', '/'].reverse) rest :=
      h.advance ['/', '*']
    exact hinside.skipPast?.follows
  refine .ite (or_congr (his '"' rfl) (his '\'' rfl)) ?_ fun _ => ?_
  · intro hquote
    have hstring : Ends .string .unterminatedString [x] (front ++ [x].reverse)
        (ByteCursor.stringEnd? c.current (c.advance 1)) (closeString x [x] cs) := by
      rw [(his x hx).mpr rfl]
      exact hnext.stringEnd? hquote
    exact hstring.follows
  refine .ite (his '`' rfl) (fun _ => rfl) fun _ => ?_
  refine .ite ?_ (fun _ => ⟨_, rfl, h.number⟩) fun _ => ?_
  · rw [hdigit, hpeekDigit, his '.' rfl]
  rw [if_neg hhigh]
  exact .ite Iff.rfl (fun _ => h.cutWord) fun _ => h.cutPunctuator hx

/-- **A step over bytes follows one over characters.** -/
theorem At.nextToken (h : At c front (x :: cs)) :
    Follows c front c.nextToken (Lexeme.next x cs) := by
  cases hx : isAscii x with
  | true => exact h.nextToken_of_isAscii hx
  | false =>
      have hend : ¬c.atEnd = true := fun hend => List.cons_ne_nil x cs (h.atEnd_iff.mp hend)
      have hhigh : isHighByte c.current = true := by
        rw [isHighByte_of_mem h.current_mem, hx]
        rfl
      -- no byte of ASCII is asked for
      have hne : ∀ a, isHighByte a = false → c.current ≠ a := by
        rintro a ha rfl
        rw [hhigh] at ha
        cases ha
      have hblank : ¬isBlankByte c.current = true := by
        rw [show isBlankByte c.current = (isAscii x && isBlank x) from
          agree_isBlank x c.current h.current_mem, hx]
        exact Bool.false_ne_true
      have hdigit : ¬isDigitByte c.current = true := by
        rw [agree_isDigit x c.current h.current_mem, (classes_of_not_isAscii hx).2.2.1]
        exact Bool.false_ne_true
      have hslash := hne '/'.toUInt8 (by decide)
      have hcut : c.nextToken = c.cutHigh := by
        unfold ByteCursor.nextToken
        rw [if_neg hend, if_neg hblank, if_neg (hne _ (by decide)), if_neg (hne _ (by decide)),
          if_neg (fun hc => hslash hc.1), if_neg (fun hc => hslash hc.1),
          if_neg (fun hc => hc.elim (hne _ (by decide)) (hne _ (by decide))),
          if_neg (hne _ (by decide)), if_neg (fun hc => hc.elim hdigit fun hp =>
            hne _ (by decide) hp.1), if_pos hhigh]
      rw [hcut]
      exact h.cutHigh hx

end ByteCursor
end ScriptSpacing
