import Mathlib.Tactic.IntervalCases
import ScriptSpacing.Proofs.Token.Cut
import ScriptSpacing.Proofs.Token.Delimited
import ScriptSpacing.Proofs.Token.Numeral

/-!
# `Proofs.Token.Munch` — what a text begins with, told by its characters

Two predicates say what stands at the front of a text, and neither mentions how a token is cut.
`k.Munches w cs` says that `w` is the token of kind `k` there: the longest text of the class of its kind.
`f.Stands cs` says that no token begins there, and why. Between them they describe `Lexeme.next`
completely: `next_eq_ok_iff` and `next_eq_error_iff`.

The first character decides the kind nearly always. The classes overlap in three places, where the order
of the questions in `next` matters: a slash begins a comment before it is an operator, a point a number
before it is one, and a question mark and a point with a digit behind them are not optional chaining
(`Operator`).
-/

namespace ScriptSpacing

/-! ## The classes -/

namespace Text

/-- A text of blanks. -/
def Blanks (w : List Char) : Prop := w ≠ [] ∧ All isBlank w

/-- A line break: a carriage return with a line feed, or one character that ends a line. -/
def Break (w : List Char) : Prop := w = ['\r', '\n'] ∨ ∃ c, isLineEnd c = true ∧ w = [c]

/-- Two slashes, and what follows on their line. -/
def LineComment (w : List Char) : Prop := ['/', '/'] <+: w ∧ All (fun c => !isNewline c) w

/-- A text of words: it does not begin with a digit. -/
def Word (w : List Char) : Prop := w.head?.any isWordStart = true ∧ All isWordPart w

/-- **`w` is the operator or delimiter that `cs` begins with**: the longest there is, with nothing in
    front of it in the order of the questions; but of a question mark and a point before a digit, the
    question mark. -/
structure Operator (w cs : List Char) : Prop where
  noComment : ¬ ['/', '/'] <+: cs ∧ ¬ ['/', '*'] <+: cs
  noNumber  : ¬ DigitBehind ['.'] cs
  longest   : ∃ p, Longest (· ∈ Token.punctuatorTexts) p cs ∧
    ((p = ['?', '.'] ∧ DigitBehind p cs) ∧ w = ['?'] ∨ ¬ (p = ['?', '.'] ∧ DigitBehind p cs) ∧ w = p)

end Text

open Text in
/-- **`w` is the token of kind `k` that `cs` begins with.** -/
def Token.Kind.Munches : Token.Kind → List Char → List Char → Prop
  | .whiteSpace,   w, cs => Longest Blanks w cs
  | .lineBreak,    w, cs => Longest Break w cs
  | .lineComment,  w, cs => Longest LineComment w cs
  | .blockComment, w, cs => Longest BlockComment w cs
  | .numeric,      w, cs => Longest Numeral w cs
  | .string,       w, cs => Longest Literal w cs
  | .punctuator,   w, cs => Operator w cs
  | k,             w, cs => Longest Word w cs ∧ Token.wordKind (String.ofList w) = k

theorem Text.Operator.unique {v w cs : List Char} (hv : Text.Operator v cs) (hw : Text.Operator w cs) :
    v = w := by
  obtain ⟨p, hp, htext⟩ := hv.longest
  obtain ⟨q, hq, htext'⟩ := hw.longest
  obtain rfl := hp.unique hq
  rcases htext with ⟨hchain, rfl⟩ | ⟨hchain, rfl⟩
  · rcases htext' with ⟨-, rfl⟩ | ⟨hchain', -⟩
    · rfl
    · exact absurd hchain hchain'
  · rcases htext' with ⟨hchain', -⟩ | ⟨-, rfl⟩
    · exact absurd hchain' hchain
    · rfl

theorem Text.Operator.isPrefix {w cs : List Char} (h : Text.Operator w cs) : w <+: cs := by
  obtain ⟨p, hp, ⟨⟨rfl, -⟩, rfl⟩ | ⟨-, rfl⟩⟩ := h.longest
  · exact (List.prefix_append ['?'] ['.']).trans hp.isPrefix
  · exact hp.isPrefix

theorem Token.Kind.Munches.isPrefix {k : Token.Kind} {w cs : List Char} (h : k.Munches w cs) :
    w <+: cs := by
  cases k
  case punctuator => exact Text.Operator.isPrefix h
  case identifier | keyword | boolean | null => exact h.1.isPrefix
  all_goals exact Text.Longest.isPrefix h

open Text in
/-- **No token begins with `cs`, for the reason `f`.** -/
def Flaw.Stands : Flaw → List Char → Prop
  | .unterminatedString,    cs => ∃ q r, isQuote q = true ∧ cs = q :: r ∧ ¬ Closes q r
  | .unterminatedComment,   cs => ∃ r, cs = '/' :: '*' :: r ∧ ¬ ['*', '/'] <:+: r
  | .templateLiteral,       cs => cs.head? = some '`'
  | .unexpectedCharacter c, cs => cs.head? = some c ∧ isAscii c = true ∧ c ≠ '`' ∧
      ∀ k w r, ¬ Token.Kind.Munches k w (c :: r)

namespace Lexeme
open Text

variable {c : Char} {cs : List Char} {l : Lexeme} {f : Flaw}

/-! ## Each cutter takes the longest -/

theorem longest_blanks (h : isBlank c = true) :
    Longest Blanks ((c :: cs).takeWhile isBlank) (c :: cs) :=
  longest_run (fun _ hv => hv.2)
    ⟨by rw [List.takeWhile_cons_of_pos h]; exact List.cons_ne_nil _ _, (longest_takeWhile _ _).mem⟩

theorem longest_word (h : isWordStart c = true) :
    Longest Word ((c :: cs).takeWhile isWordPart) (c :: cs) := by
  refine longest_run (fun _ hv => hv.2) ⟨?_, (longest_takeWhile _ _).mem⟩
  rw [List.takeWhile_cons_of_pos (by rw [isWordPart, h]; rfl)]
  exact h

theorem longest_lineComment : Longest LineComment
    (('/' :: '/' :: cs).takeWhile (fun c => !isNewline c)) ('/' :: '/' :: cs) := by
  refine longest_run (fun _ hv => hv.2) ⟨?_, (longest_takeWhile _ _).mem⟩
  rw [List.takeWhile_cons_of_pos (by decide), List.takeWhile_cons_of_pos (by decide)]
  exact List.prefix_append ['/', '/'] _

theorem longest_lineBreak (h : isLineEnd c = true) :
    Longest Break (lineBreak c cs).text (c :: cs) := by
  refine ⟨⟨_, lineBreak_text_append_rest c cs⟩, ?_, ?_⟩
  · unfold lineBreak
    split
    · split
      · exact .inl rfl
      · exact .inr ⟨c, h, rfl⟩
    · exact .inr ⟨c, h, rfl⟩
  · rintro v hv (rfl | ⟨d, -, rfl⟩)
    · obtain ⟨rfl, r, rfl⟩ := List.cons_prefix_cons.mp hv
      exact Nat.le_refl _
    · exact List.length_pos_iff.mpr (lineBreak_text_ne_nil c cs)

theorem longest_string {q : Char} (hq : isQuote q = true) (h : closeString q [q] cs = .ok l) :
    Longest Literal l.text (q :: cs) := by
  obtain ⟨-, body, htext, hlast, hbare⟩ := closeString_eq_ok_literal hq h
  have hliteral : Literal l.text := ⟨q, body, hq, htext, hlast, hbare⟩
  exact .of_prefixFree hliteral ⟨_, closeString_text_append_rest h⟩
    fun v hv => hv.eq_of_prefix hliteral

theorem longest_blockComment (h : closeComment ['*', '/'] cs = .ok l) :
    Longest BlockComment l.text ('/' :: '*' :: cs) := by
  obtain ⟨-, body, htext, -, hfirst⟩ := closeComment_eq_ok_first h
  have hcomment : BlockComment l.text := ⟨body, htext, hfirst⟩
  exact .of_prefixFree hcomment ⟨_, closeComment_text_append_rest h⟩
    fun v hv => hv.eq_of_prefix hcomment

/-- The vocabulary has longer operators in front of shorter ones. -/
theorem pairwise_punctuatorTexts :
    Token.punctuatorTexts.Pairwise fun a b => b.length ≤ a.length := by decide

theorem operator_punctuator (hslash : ¬ ['/', '/'] <+: c :: cs) (hstar : ¬ ['/', '*'] <+: c :: cs)
    (hpoint : ¬ DigitBehind ['.'] (c :: cs)) (h : punctuator c cs = .ok l) :
    Operator l.text (c :: cs) := by
  unfold punctuator at h
  split at h
  · next p hp =>
      cases h
      have hlongest : Longest (· ∈ Token.punctuatorTexts) p (c :: cs) :=
        longest_find? pairwise_punctuatorTexts hp
      refine ⟨⟨hslash, hstar⟩, hpoint, p, hlongest, ?_⟩
      obtain ⟨r, hr⟩ := hlongest.isPrefix
      have hbehind : p = ['?', '.'] → (DigitBehind p (p ++ r) ↔ startsWithDigit r = true) := by
        rintro rfl
        simp [digitBehind_cons, digitBehind_nil]
      rw [← hr, List.drop_left, and_congr_right hbehind]
      show _ ∧ punctuatorText p r = _ ∨ _ ∧ punctuatorText p r = _
      unfold punctuatorText
      split
      · next hchain =>
          exact .inl ⟨by simpa using hchain, rfl⟩
      · next hchain =>
          exact .inr ⟨by simpa using hchain, rfl⟩
  · cases h

theorem punctuator_eq_error (h : punctuator c cs = .error f) :
    f = .unexpectedCharacter c ∧ ∀ p ∈ Token.punctuatorTexts, ¬ p <+: c :: cs := by
  unfold punctuator at h
  split at h
  · cases h
  · next hnone =>
      cases h
      refine ⟨rfl, fun p hp => ?_⟩
      have hno := List.find?_eq_none.mp hnone p hp
      rwa [List.isPrefixOf_iff_prefix] at hno

theorem punctuator_kind (h : punctuator c cs = .ok l) : l.kind = .punctuator := by
  unfold punctuator at h
  split at h
  · cases h
    rfl
  · cases h

/-! ## The questions that `next` asks -/

/-- A character that says alone what begins with it: a blank, the end of a line, a quote, a backquote. -/
def isDecisive (c : Char) : Bool := isBlank c || isLineEnd c || isQuote c || c = '`'

/-- A class is decided on a finite list of characters by asking each of them. -/
theorem of_mem_list {p : Char → Bool} {xs : List Char} (hp : xs.any p = false) (h : c ∈ xs) :
    p c = false := Bool.eq_false_iff.mpr (List.any_eq_false.mp hp c h)

theorem mem_of_isLineEnd (h : isLineEnd c = true) : c ∈ ['\n', '\r', '\u2028', '\u2029'] := by
  simpa [isLineEnd, isNewline, isSeparator, or_assoc] using h

/-- A class without the four ends of lines has none of them. -/
theorem isLineEnd_of_class {p : Char → Bool} (hp : ['\n', '\r', '\u2028', '\u2029'].any p = false)
    (hc : p c = true) : isLineEnd c = false := by
  cases hend : isLineEnd c with
  | false => rfl
  | true =>
      rw [of_mem_list hp (mem_of_isLineEnd hend)] at hc
      cases hc

theorem mem_of_isDigit (h : isDigit c = true) : c ∈ "0123456789".toList := by
  simp only [isDigit, Bool.and_eq_true, decide_eq_true_eq, Char.le_def, UInt32.le_iff_toNat_le] at h
  obtain ⟨hlo, hhi⟩ := h
  change 48 ≤ c.toNat at hlo
  change c.toNat ≤ 57 at hhi
  rw [← Char.ofNat_toNat c]
  interval_cases c.toNat
  all_goals decide

theorem isDecisive_of_isDigit (h : isDigit c = true) : isDecisive c = false :=
  of_mem_list (by decide) (mem_of_isDigit h)

theorem isDigit_of_isWordStart (h : isWordStart c = true) : isDigit c = false := by
  cases hc : isDigit c with
  | false => rfl
  | true =>
      rw [of_mem_list (p := isWordStart) (by decide) (mem_of_isDigit hc)] at h
      cases h

theorem isDecisive_of_isWordStart (h : isWordStart c = true) : isDecisive c = false := by
  have hpart : isWordPart c = true := by rw [isWordPart, h]; rfl
  cases hc : isDecisive c with
  | false => rfl
  | true =>
      simp only [isDecisive, isQuote, Bool.or_eq_true, decide_eq_true_eq] at hc
      rcases hc with ((hc | hc) | hc) | rfl
      · rw [isWordPart_of_isNeutral (by rw [isNeutral, hc]; rfl)] at hpart
        cases hpart
      · rw [isLineEnd_of_class (by decide) h] at hc
        cases hc
      · rcases hc with rfl | rfl
        · exact absurd h (by decide)
        · exact absurd h (by decide)
      · exact absurd h (by decide)

/-- How punctuators begin: with one that is nothing else. -/
theorem head_of_mem_table {w : List Char} (h : c :: w ∈ Token.punctuatorTexts) :
    isDecisive c = false ∧ isDigit c = false ∧ isWordStart c = false ∧ [c] ∈ Token.punctuatorTexts := by
  have hall : Token.punctuatorTexts.all (fun p => p.head?.all fun c => !isDecisive c && !isDigit c &&
      !isWordStart c && Token.punctuatorTexts.contains [c]) = true := by decide
  have hp := List.all_eq_true.mp hall _ h
  simpa [and_assoc] using hp

theorem next_of_isBlank (h : isBlank c = true) :
    next c cs = .ok (run .whiteSpace isBlank (c :: cs)) := by
  rw [next, if_pos h]

theorem next_of_isLineEnd (h : isLineEnd c = true) : next c cs = .ok (lineBreak c cs) := by
  have hblank : ¬ isBlank c = true := by
    intro hblank
    rw [isLineEnd_of_class (by decide) hblank] at h
    cases h
  rw [next, if_neg hblank, if_pos h]

theorem next_slash_slash : next '/' ('/' :: cs) =
    .ok (run .lineComment (fun d => !isNewline d) ('/' :: '/' :: cs)) := rfl

theorem next_slash_star : next '/' ('*' :: cs) = closeComment ['*', '/'] cs := rfl

theorem next_of_isQuote (h : isQuote c = true) : next c cs = closeString c [c] cs := by
  simp only [isQuote, Bool.or_eq_true, decide_eq_true_eq] at h
  rcases h with rfl | rfl
  · rfl
  · rfl

/-- What is left when no character is decisive and no comment begins. -/
theorem next_eq_plain (hc : isDecisive c = false) (hslash : ¬ ['/', '/'] <+: c :: cs)
    (hstar : ¬ ['/', '*'] <+: c :: cs) : next c cs = plain c cs := by
  simp only [isDecisive, Bool.or_eq_false_iff, decide_eq_false_iff_not] at hc
  obtain ⟨⟨⟨hblank, hend⟩, hquote⟩, hback⟩ := hc
  have hpair : ∀ d, ¬ ['/', d] <+: c :: cs →
      ¬ (decide (c = '/') && decide (cs.head? = some d)) = true := by
    intro d hno
    simp only [Bool.and_eq_true, decide_eq_true_eq, not_and]
    rintro rfl hd
    obtain ⟨r, rfl⟩ := List.head?_eq_some_iff.mp hd
    exact hno ⟨r, rfl⟩
  rw [isQuote] at hquote
  rw [next, if_neg (by simp [hblank]), if_neg (by simp [hend]), if_neg (hpair _ hslash),
    if_neg (hpair _ hstar), if_neg (by simp [hquote]), if_neg hback]
  rfl

theorem not_prefix_of_ne {c d e : Char} (h : c ≠ d) : ¬ [d, e] <+: c :: cs :=
  fun hpre => h (List.cons_prefix_cons.mp hpre).1.symm

theorem begins_iff : Numeral.Begins (c :: cs) ↔
    (isDigit c || (decide (c = '.') && startsWithDigit cs)) = true := by
  rw [Numeral.Begins, digitBehind_nil, digitBehind_cons, digitBehind_nil, eq_comm (a := '.'),
    Bool.or_eq_true, Bool.and_eq_true, decide_eq_true_iff]
  rfl

theorem next_number (h : Numeral.Begins (c :: cs)) : next c cs = .ok (number (c :: cs)) := by
  have hdigit := h
  rw [begins_iff] at hdigit
  have hc : isDecisive c = false ∧ c ≠ '/' := by
    simp only [Bool.or_eq_true, Bool.and_eq_true, decide_eq_true_eq] at hdigit
    rcases hdigit with hdigit | ⟨rfl, -⟩
    · refine ⟨isDecisive_of_isDigit hdigit, ?_⟩
      rintro rfl
      exact absurd hdigit (by decide)
    · decide
  rw [next_eq_plain hc.1 (not_prefix_of_ne hc.2) (not_prefix_of_ne hc.2), plain, if_pos hdigit]

theorem next_word (h : isWordStart c = true) : next c cs = .ok (word (c :: cs)) := by
  have hc : c ≠ '/' ∧ c ≠ '.' := by
    constructor
    · rintro rfl
      exact absurd h (by decide)
    · rintro rfl
      exact absurd h (by decide)
  rw [next_eq_plain (isDecisive_of_isWordStart h) (not_prefix_of_ne hc.1) (not_prefix_of_ne hc.1), plain,
    if_neg (by simp [isDigit_of_isWordStart h, hc.2]), if_pos h]

theorem next_operator {w : List Char} (h : Operator w (c :: cs)) : next c cs = punctuator c cs := by
  obtain ⟨p, hp, -⟩ := h.longest
  obtain ⟨d, q, rfl⟩ := List.exists_cons_of_ne_nil (Token.ne_nil_of_mem_punctuatorTexts hp.mem)
  obtain rfl : d = c := (List.cons_prefix_cons.mp hp.isPrefix).1
  obtain ⟨hdecisive, hdigit, hword, -⟩ := head_of_mem_table hp.mem
  have hnumber : ¬ (isDigit d || (decide (d = '.') && startsWithDigit cs)) = true := by
    simp only [hdigit, Bool.false_or, Bool.and_eq_true, decide_eq_true_eq, not_and]
    rintro rfl hpoint
    exact h.noNumber ((digitBehind_cons [] cs).mpr ⟨rfl, (digitBehind_nil cs).mpr hpoint⟩)
  rw [next_eq_plain hdecisive h.noComment.1 h.noComment.2, plain, if_neg hnumber,
    if_neg (by simp [hword])]

/-! ## What is cut is what stands there -/

theorem wordKind_cases (s : String) : Token.wordKind s = .identifier ∨ Token.wordKind s = .keyword ∨
    Token.wordKind s = .boolean ∨ Token.wordKind s = .null := by
  unfold Token.wordKind
  repeat' split
  all_goals simp

theorem munches_word {w : List Char} (h : Longest Word w cs) :
    (Token.wordKind (String.ofList w)).Munches w cs := by
  rcases wordKind_cases (String.ofList w) with hk | hk | hk | hk
  all_goals
    rw [hk]
    exact ⟨h, hk⟩

/-- A test of `next` for a slash and another character. -/
theorem eq_slash_cons {d : Char} (h : (decide (c = '/') && decide (cs.head? = some d)) = true) :
    ∃ r, c = '/' ∧ cs = d :: r := by
  simp only [Bool.and_eq_true, decide_eq_true_eq] at h
  obtain ⟨r, hr⟩ := List.head?_eq_some_iff.mp h.2
  exact ⟨r, h.1, hr⟩

theorem not_prefix_of_test {d : Char} (h : ¬ (decide (c = '/') && decide (cs.head? = some d)) = true) :
    ¬ ['/', d] <+: c :: cs := by
  intro hpre
  obtain ⟨rfl, r, rfl⟩ := List.cons_prefix_cons.mp hpre
  exact h (by simp)

/-- **What `next` cuts stands there.** -/
theorem munches_of_next (h : next c cs = .ok l) : l.kind.Munches l.text (c :: cs) := by
  -- question by question; what an operator needs is that those in front of it were answered with no
  unfold next at h
  split at h
  · next hblank =>
      cases h
      exact longest_blanks hblank
  split at h
  · next hend =>
      cases h
      rw [lineBreak_kind]
      exact longest_lineBreak hend
  split at h
  · next hslash =>
      obtain ⟨r, rfl, rfl⟩ := eq_slash_cons hslash
      cases h
      exact longest_lineComment
  next hslash =>
  split at h
  · next hstar =>
      obtain ⟨r, rfl, rfl⟩ := eq_slash_cons hstar
      rw [List.tail_cons] at h
      rw [(closeComment_eq_ok_first h).1]
      exact longest_blockComment h
  next hstar =>
  split at h
  · next hquote =>
      rw [(closeString_eq_ok_literal hquote h).1]
      exact longest_string hquote h
  split at h
  · cases h
  split at h
  · next hdigit =>
      cases h
      exact Numeral.longest_number (begins_iff.mpr hdigit)
  next hdigit =>
  split at h
  · next hword =>
      cases h
      exact munches_word (longest_word hword)
  · have hpoint : ¬ DigitBehind ['.'] (c :: cs) := fun hbehind => hdigit (begins_iff.mp (.inr hbehind))
    rw [punctuator_kind h]
    exact operator_punctuator (not_prefix_of_test hslash) (not_prefix_of_test hstar) hpoint h

/-! ## What stands there is cut -/

variable {P : List Char → Prop} {k : Token.Kind} {w rest : List Char}

/-- The longest text of a class without the empty text begins as the text does. -/
theorem exists_cons_of_longest (h : Longest P w (c :: cs)) (hne : ¬ P []) :
    ∃ v, w = c :: v ∧ v <+: cs := by
  cases w with
  | nil => exact absurd h.mem hne
  | cons d v =>
      obtain ⟨rfl, hv⟩ := List.cons_prefix_cons.mp h.isPrefix
      exact ⟨v, rfl, hv⟩

theorem eq_of_text {m : Lexeme} (htext : m.text = w) (hmrest : m.text ++ m.rest = cs)
    (hrest : w ++ rest = cs) : m = ⟨m.kind, w, rest⟩ := by
  obtain ⟨kind, text, rest'⟩ := m
  obtain rfl : text = w := htext
  obtain rfl : rest' = rest := List.append_cancel_left (hmrest.trans hrest.symm)
  rfl

/-- A lexeme whose text is the longest of a class is the only one of its kind. -/
theorem eq_of_longest {m : Lexeme} (hm : Longest P m.text cs) (hw : Longest P w cs)
    (hmrest : m.text ++ m.rest = cs) (hrest : w ++ rest = cs) : m = ⟨m.kind, w, rest⟩ :=
  eq_of_text (hm.unique hw) hmrest hrest

theorem next_of_blanks (h : Longest Blanks w (c :: cs)) (hrest : w ++ rest = c :: cs) :
    next c cs = .ok ⟨.whiteSpace, w, rest⟩ := by
  obtain ⟨v, rfl, -⟩ := exists_cons_of_longest h (fun hnil => hnil.1 rfl)
  have hblank : isBlank c = true := h.mem.2 c List.mem_cons_self
  rw [next_of_isBlank hblank, eq_of_longest (longest_blanks hblank) h (run_text_append_rest _ _ _) hrest]
  rfl

theorem next_of_break (h : Longest Break w (c :: cs)) (hrest : w ++ rest = c :: cs) :
    next c cs = .ok ⟨.lineBreak, w, rest⟩ := by
  have hne : ¬ Break [] := by
    rintro (hnil | ⟨d, -, hnil⟩)
    · cases hnil
    · cases hnil
  have hend : isLineEnd c = true := by
    obtain ⟨v, rfl, -⟩ := exists_cons_of_longest h hne
    rcases h.mem with hpair | ⟨d, hd, hone⟩
    · cases hpair
      decide
    · cases hone
      exact hd
  rw [next_of_isLineEnd hend, eq_of_longest (longest_lineBreak hend) h
    (lineBreak_text_append_rest _ _) hrest, lineBreak_kind]

theorem next_of_lineComment (h : Longest LineComment w (c :: cs)) (hrest : w ++ rest = c :: cs) :
    next c cs = .ok ⟨.lineComment, w, rest⟩ := by
  obtain ⟨rfl, r, hr⟩ := List.cons_prefix_cons.mp (h.mem.1.trans h.isPrefix)
  obtain rfl : cs = '/' :: r := hr.symm
  rw [next_slash_slash, eq_of_longest longest_lineComment h (run_text_append_rest _ _ _) hrest]
  rfl

theorem next_of_blockComment (h : Longest BlockComment w (c :: cs)) (hrest : w ++ rest = c :: cs) :
    next c cs = .ok ⟨.blockComment, w, rest⟩ := by
  obtain ⟨body, rfl, -⟩ := id h.mem
  obtain ⟨rfl, hcs⟩ := List.cons_prefix_cons.mp h.isPrefix
  obtain ⟨r, rfl⟩ := id hcs
  rw [List.cons_append, next_slash_star]
  rw [List.cons_append] at h hrest
  cases hcut : closeComment ['*', '/'] (body ++ ['*', '/'] ++ r) with
  | ok l =>
      rw [eq_of_longest (longest_blockComment hcut) h (closeComment_text_append_rest hcut) hrest,
        (closeComment_eq_ok_first hcut).1]
  | error f =>
      have hinside : ['*', '/'] <:+: body ++ ['*', '/'] ++ r := ⟨body, r, rfl⟩
      exact absurd hinside (closeComment_eq_error hcut).2

theorem next_of_literal (h : Longest Literal w (c :: cs)) (hrest : w ++ rest = c :: cs) :
    next c cs = .ok ⟨.string, w, rest⟩ := by
  obtain ⟨q, body, hq, rfl, hlast, hbare⟩ := id h.mem
  obtain ⟨rfl, r, rfl⟩ := List.cons_prefix_cons.mp h.isPrefix
  rw [next_of_isQuote hq]
  cases hcut : closeString q [q] (body ++ [q] ++ r) with
  | ok l =>
      rw [eq_of_longest (longest_string hq hcut) h (closeString_text_append_rest hcut) hrest,
        (closeString_eq_ok_literal hq hcut).1]
  | error f =>
      rw [List.append_assoc, List.singleton_append] at hcut
      exact absurd (closes_of_literal hq hlast hbare r) (closeString_eq_error hcut).2

theorem next_of_numeral (h : Longest Numeral w (c :: cs)) (hrest : w ++ rest = c :: cs) :
    next c cs = .ok ⟨.numeric, w, rest⟩ := by
  have hbegins := Numeral.begins_of_prefix h.mem h.isPrefix
  rw [next_number hbegins, eq_of_longest (Numeral.longest_number hbegins) h
    (number_text_append_rest _) hrest]
  rfl

theorem next_of_word (h : Longest Word w (c :: cs)) (hrest : w ++ rest = c :: cs) :
    next c cs = .ok ⟨Token.wordKind (String.ofList w), w, rest⟩ := by
  obtain ⟨v, rfl, -⟩ := exists_cons_of_longest h (fun hnil => by cases hnil.1)
  have hstart : isWordStart c = true := h.mem.1
  have hcut : Longest Word ((c :: cs).takeWhile isWordPart) (c :: cs) := longest_word hstart
  rw [next_word hstart, word, eq_of_longest (m := run _ isWordPart (c :: cs)) hcut h
    (run_text_append_rest _ _ _) hrest, hcut.unique h]
  rfl

theorem next_of_operator (h : Operator w (c :: cs)) (hrest : w ++ rest = c :: cs) :
    next c cs = .ok ⟨.punctuator, w, rest⟩ := by
  rw [next_operator h]
  cases hcut : punctuator c cs with
  | ok l =>
      have hoperator := operator_punctuator h.noComment.1 h.noComment.2 h.noNumber hcut
      rw [eq_of_text (hoperator.unique h) (punctuator_text_append_rest hcut) hrest,
        punctuator_kind hcut]
  | error f =>
      obtain ⟨p, hp, -⟩ := h.longest
      exact absurd hp.isPrefix ((punctuator_eq_error hcut).2 p hp.mem)

/-- **What stands at the front of a text is cut from it.** -/
theorem next_of_munches (h : k.Munches w (c :: cs)) (hrest : w ++ rest = c :: cs) :
    next c cs = .ok ⟨k, w, rest⟩ := by
  cases k with
  | whiteSpace => exact next_of_blanks h hrest
  | lineBreak => exact next_of_break h hrest
  | lineComment => exact next_of_lineComment h hrest
  | blockComment => exact next_of_blockComment h hrest
  | string => exact next_of_literal h hrest
  | numeric => exact next_of_numeral h hrest
  | punctuator => exact next_of_operator h hrest
  | identifier | keyword | boolean | null => exact h.2 ▸ next_of_word h.1 hrest

/-- **The token at the front of a text is the one that stands there.** -/
theorem next_eq_ok_iff :
    next c cs = .ok l ↔ l.text ++ l.rest = c :: cs ∧ l.kind.Munches l.text (c :: cs) :=
  ⟨fun h => ⟨next_text_append_rest h, munches_of_next h⟩, fun h => next_of_munches h.2 h.1⟩

/-! ## What hinders a token -/

/-- What is left when a text begins with no operator is a character that begins no token. -/
theorem not_munches_of_operators (hc : isDecisive c = false) (hdigit : isDigit c = false)
    (hword : isWordStart c = false) (hno : ∀ p ∈ Token.punctuatorTexts, ¬ p <+: c :: cs)
    (k : Token.Kind) (w r : List Char) : ¬ k.Munches w (c :: r) := by
  intro h
  have hsingle : [c] ∉ Token.punctuatorTexts := fun hmem => hno [c] hmem ⟨cs, rfl⟩
  have hne : ∀ d, [d] ∈ Token.punctuatorTexts → c ≠ d := by
    rintro d hd rfl
    exact hsingle hd
  have hslash : c ≠ '/' := hne '/' (by decide)
  have hpoint : c ≠ '.' := hne '.' (by decide)
  obtain ⟨rest, hrest⟩ := h.isPrefix
  have hcut := next_of_munches h hrest
  rw [next_eq_plain hc (not_prefix_of_ne hslash) (not_prefix_of_ne hslash), plain,
    if_neg (by simp [hdigit, hpoint]), if_neg (by simp [hword])] at hcut
  obtain ⟨p, hp, -⟩ := (operator_punctuator (not_prefix_of_ne hslash) (not_prefix_of_ne hslash)
    (fun hbehind => hpoint ((digitBehind_cons _ _).mp hbehind).1.symm) hcut).longest
  obtain ⟨v, rfl, -⟩ := exists_cons_of_longest hp (by decide)
  exact hsingle (head_of_mem_table hp.mem).2.2.2

/-- A character outside ASCII is a blank, ends a line, or belongs to a word. -/
theorem isAscii_of_classes (hblank : isBlank c = false) (hend : isLineEnd c = false)
    (hword : isWordStart c = false) : isAscii c = true := by
  have hspace : isUnicodeSpace c = false := (Bool.or_eq_false_iff.mp hblank).2
  have hseparator : isSeparator c = false := (Bool.or_eq_false_iff.mp hend).2
  have hforeign : isForeign c = false := (Bool.or_eq_false_iff.mp hword).2
  simpa [isForeign, hspace, hseparator] using hforeign

/-- **Where `next` fails, what hinders it stands there.** -/
theorem stands_of_next (h : next c cs = .error f) : f.Stands (c :: cs) := by
  unfold next at h
  split at h
  · cases h
  next hblank =>
  split at h
  · cases h
  next hend =>
  split at h
  · cases h
  split at h
  · next hstar =>
      obtain ⟨r, rfl, rfl⟩ := eq_slash_cons hstar
      obtain ⟨rfl, hopen⟩ := closeComment_eq_error h
      exact ⟨r, rfl, hopen⟩
  split at h
  · next hquote =>
      obtain ⟨rfl, hopen⟩ := closeString_eq_error h
      exact ⟨c, cs, hquote, rfl, hopen⟩
  next hquote =>
  split at h
  · next hback =>
      cases h
      exact congrArg some hback
  next hback =>
  split at h
  · cases h
  next hdigit =>
  split at h
  · cases h
  next hword =>
  obtain ⟨rfl, hno⟩ := punctuator_eq_error h
  rw [Bool.not_eq_true] at hblank hend hquote hdigit hword
  obtain ⟨hdigit, -⟩ := Bool.or_eq_false_iff.mp hdigit
  have hdecisive : isDecisive c = false := by
    rw [isDecisive, hblank, hend, isQuote, hquote]
    exact decide_eq_false hback
  exact ⟨rfl, isAscii_of_classes hblank hend hword, hback,
    not_munches_of_operators hdecisive hdigit hword hno⟩

theorem next_of_not_closes (hc : isQuote c = true) (hopen : ¬ Closes c cs) :
    next c cs = .error .unterminatedString := by
  rw [next_of_isQuote hc]
  cases hcut : closeString c [c] cs with
  | ok l =>
      obtain ⟨-, body, htext, hlast, hbare⟩ := closeString_eq_ok_literal hc hcut
      have hall := closeString_text_append_rest hcut
      rw [htext, List.append_assoc, List.append_cancel_left_eq, List.append_assoc] at hall
      rw [← hall] at hopen
      exact absurd (closes_of_literal hc hlast hbare l.rest) hopen
  | error f => rw [(closeString_eq_error hcut).1]

theorem next_of_not_infix (hopen : ¬ ['*', '/'] <:+: cs) :
    next '/' ('*' :: cs) = .error .unterminatedComment := by
  rw [next_slash_star]
  cases hcut : closeComment ['*', '/'] cs with
  | ok l =>
      obtain ⟨-, body, -, hcs, -⟩ := closeComment_eq_ok_first hcut
      exact absurd ⟨body, l.rest, by rw [hcs]; simp⟩ hopen
  | error f => rw [(closeComment_eq_error hcut).1]

/-- A character that begins no token is not hindered by anything else: any other flaw is about a text whose
    first character does begin a token. -/
theorem eq_of_stands_unexpected {d : Char} (h : (Flaw.unexpectedCharacter d).Stands (c :: cs))
    (hf : f.Stands (c :: cs)) : f = .unexpectedCharacter d := by
  obtain ⟨hhead, -, hback, hno⟩ := h
  cases hhead
  cases f with
  | unterminatedString =>
      obtain ⟨q, r, hq, hcs, -⟩ := hf
      cases hcs
      have hempty : next c [c] = .ok ⟨.string, [c, c], []⟩ := by
        rw [next_of_isQuote hq, closeString, if_pos rfl]
        · rfl
        · rintro d r rfl hr
          cases hr
      exact absurd (munches_of_next hempty) (hno _ _ [c])
  | unterminatedComment =>
      obtain ⟨r, hcs, -⟩ := hf
      cases hcs
      have hslash : next '/' [] = .ok ⟨.punctuator, ['/'], []⟩ := by decide
      exact absurd (munches_of_next hslash) (hno _ _ [])
  | templateLiteral => exact absurd (Option.some.inj hf) hback
  | unexpectedCharacter d => rw [Option.some.inj hf.1]

/-- **What hinders a token makes `next` fail.** -/
theorem next_of_stands (h : f.Stands (c :: cs)) : next c cs = .error f := by
  cases f with
  | unterminatedString =>
      obtain ⟨q, r, hq, hcs, hopen⟩ := h
      cases hcs
      exact next_of_not_closes hq hopen
  | unterminatedComment =>
      obtain ⟨r, hcs, hopen⟩ := h
      cases hcs
      exact next_of_not_infix hopen
  | templateLiteral =>
      cases h
      rfl
  | unexpectedCharacter d =>
      cases hcut : next c cs with
      | ok l =>
          obtain ⟨hhead, -, -, hno⟩ := h
          cases hhead
          exact absurd (munches_of_next hcut) (hno l.kind l.text cs)
      | error f => rw [eq_of_stands_unexpected h (stands_of_next hcut)]

/-- **A text has no token at its front for the reason that stands there.** -/
theorem next_eq_error_iff : next c cs = .error f ↔ f.Stands (c :: cs) :=
  ⟨stands_of_next, next_of_stands⟩

end Lexeme
end ScriptSpacing
