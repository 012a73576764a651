import Mathlib.Tactic.Tauto
import ScriptSpacing.Token.Lexeme

/-!
# `Proofs.Token.Lookahead` — how far a cut looks past its token

Cutting one token may look at the text behind it: a number asks whether an exponent follows, an operator
whether a longer one does, `?` whether `.` and a digit follow. No such look goes past a blank or a
parenthesis. What a cut can see of the rest is therefore its `ahead`, the characters up to the first
neutral one, and two texts that look alike ahead are cut alike (`Proofs.Token.Cut`).

Runs of blanks and line comments are the exception. Their end is the first character outside a class
that takes in neutral characters too, so they ask for the same next character as well.
-/

namespace ScriptSpacing
namespace Text

/-- The characters at which every lookahead ends. -/
def isNeutral (c : Char) : Bool := isBlank c || c = '(' || c = ')'

/-- What a cut can see of the text behind its token. -/
def ahead (cs : List Char) : List Char := cs.takeWhile (fun c => !isNeutral c)

/-- The text from the first neutral character on. -/
def beyond (cs : List Char) : List Char := cs.dropWhile (fun c => !isNeutral c)

/-- The text ends here, or a neutral character comes next. -/
def Stops (cs : List Char) : Prop := ∀ c ∈ cs.head?, isNeutral c = true

theorem ahead_append_beyond (cs : List Char) : ahead cs ++ beyond cs = cs :=
  List.takeWhile_append_dropWhile

theorem stops_beyond (cs : List Char) : Stops (beyond cs) := by
  intro c hc
  have := List.head?_dropWhile_not (fun c => !isNeutral c) cs
  unfold beyond at hc
  rw [Option.mem_def] at hc
  rw [hc] at this
  simpa using this

theorem ahead_of_stops {cs : List Char} (h : Stops cs) : ahead cs = [] := by
  cases cs with
  | nil => rfl
  | cons c cs => simp [ahead, h c rfl]

/-- A neutral character hides what is behind it. -/
theorem ahead_append_of_stops (w : List Char) {r r' : List Char} (hr : Stops r) (hr' : Stops r') :
    ahead (w ++ r) = ahead (w ++ r') := by
  induction w with
  | nil => rw [List.nil_append, List.nil_append, ahead_of_stops hr, ahead_of_stops hr']
  | cons c w ih =>
      unfold ahead at ih ⊢
      simp only [List.cons_append, List.takeWhile_cons, ih]

theorem ahead_append_congr (w : List Char) {r r' : List Char} (h : ahead r = ahead r') :
    ahead (w ++ r) = ahead (w ++ r') := by
  induction w with
  | nil => exact h
  | cons c w ih =>
      unfold ahead at ih ⊢
      simp only [List.cons_append, List.takeWhile_cons, ih]

/-- A text can be asked for a next character that is not neutral by what is ahead. -/
theorem head?_eq_iff_of_ahead {r r' : List Char} (h : ahead r = ahead r') {d : Char}
    (hd : isNeutral d = false) : r.head? = some d ↔ r'.head? = some d := by
  have key : ∀ cs : List Char, cs.head? = some d ↔ (ahead cs).head? = some d := by
    intro cs
    cases cs with
    | nil => rfl
    | cons c cs =>
        cases hc : isNeutral c with
        | true =>
            simp only [ahead, List.takeWhile_cons, hc, List.head?_cons, Option.some.injEq]
            constructor
            · rintro rfl
              exact absurd hc (by simp [hd])
            · simp
        | false => simp [ahead, hc]
  rw [key r, key r', h]

/-! ## The neutral characters are outside the classes of words and numbers -/

theorem isAscii_of_le {c d : Char} (hd : isAscii d = true) (h : c ≤ d) : isAscii c = true := by
  have hle : c.val ≤ d.val := h
  simp only [isAscii, decide_eq_true_eq] at hd ⊢
  exact Std.lt_of_le_of_lt hle hd

theorem isAscii_of_isDigit {c : Char} (h : isDigit c = true) : isAscii c = true := by
  simp only [isDigit, Bool.and_eq_true, decide_eq_true_eq] at h
  exact isAscii_of_le (by decide) h.2

theorem isAscii_of_isHexDigit {c : Char} (h : isHexDigit c = true) : isAscii c = true := by
  simp only [isHexDigit, Bool.or_eq_true, Bool.and_eq_true, decide_eq_true_eq] at h
  rcases h with (h | h) | h
  · exact isAscii_of_isDigit h
  · exact isAscii_of_le (by decide) h.2
  · exact isAscii_of_le (by decide) h.2

theorem isAscii_of_isLetter {c : Char} (h : isLetter c = true) : isAscii c = true := by
  simp only [isLetter, Bool.or_eq_true, Bool.and_eq_true, decide_eq_true_eq] at h
  rcases h with h | h
  · exact isAscii_of_le (by decide) h.2
  · exact isAscii_of_le (by decide) h.2

theorem isAscii_of_isUnicodeSpace {c : Char} (h : isUnicodeSpace c = true) : isAscii c = false := by
  have hge : ∀ d : Char, isAscii d = false → d ≤ c → isAscii c = false := by
    intro d hd hle
    cases hc : isAscii c with
    | false => rfl
    | true => rw [isAscii_of_le hc hle] at hd; exact hd
  simp only [isUnicodeSpace, Bool.or_eq_true, Bool.and_eq_true, decide_eq_true_eq] at h
  rcases h with (((((rfl | rfl) | rfl) | h) | rfl) | rfl) | rfl
  · decide
  · decide
  · decide
  · exact hge '\u2000' (by decide) h.1
  · decide
  · decide
  · decide

/-- A neutral character is a Unicode space or one of six ASCII characters. -/
theorem isNeutral_cases {c : Char} (h : isNeutral c = true) : isUnicodeSpace c = true ∨
    c ∈ [' ', '\t', '\x0b', '\x0c', '(', ')'] := by
  simp only [isNeutral, isBlank, Bool.or_eq_true, decide_eq_true_eq] at h
  simp only [List.mem_cons, List.not_mem_nil, or_false]
  tauto

/-- A class of ASCII characters without the six leaves out every neutral character. -/
theorem not_of_isNeutral {p : Char → Bool} (hascii : ∀ c, p c = true → isAscii c = true)
    (hsix : [' ', '\t', '\x0b', '\x0c', '(', ')'].any p = false) {c : Char}
    (h : isNeutral c = true) : p c = false := by
  rcases isNeutral_cases h with hu | hmem
  · cases hp : p c with
    | false => rfl
    | true =>
        have := hascii c hp
        rw [isAscii_of_isUnicodeSpace hu] at this
        cases this
  · exact Bool.eq_false_iff.mpr (List.any_eq_false.mp hsix c hmem)

theorem isDigit_of_isNeutral {c : Char} (h : isNeutral c = true) : isDigit c = false :=
  not_of_isNeutral (fun _ => isAscii_of_isDigit) (by decide) h

theorem isHexDigit_of_isNeutral {c : Char} (h : isNeutral c = true) : isHexDigit c = false :=
  not_of_isNeutral (fun _ => isAscii_of_isHexDigit) (by decide) h

theorem isLetter_of_isNeutral {c : Char} (h : isNeutral c = true) : isLetter c = false :=
  not_of_isNeutral (fun _ => isAscii_of_isLetter) (by decide) h

theorem eq_false_of_isNeutral {c d : Char} (h : isNeutral c = true) (hd : isNeutral d = false) :
    c ≠ d := by
  rintro rfl
  rw [h] at hd
  cases hd

theorem isWordPart_of_isNeutral {c : Char} (h : isNeutral c = true) : isWordPart c = false := by
  have hforeign : isForeign c = false := by
    rcases isNeutral_cases h with hu | hmem
    · simp [isForeign, hu]
    · have hsix : [' ', '\t', '\x0b', '\x0c', '(', ')'].any isForeign = false := by decide
      exact Bool.eq_false_iff.mpr (List.any_eq_false.mp hsix c hmem)
  have h_ : c ≠ '_' := eq_false_of_isNeutral h (by decide)
  have hdollar : c ≠ '$' := eq_false_of_isNeutral h (by decide)
  simp [isWordPart, isWordStart, isLetter_of_isNeutral h, isDigit_of_isNeutral h, hforeign, h_,
    hdollar]

end Text

namespace Lexeme
open Text

theorem isDigitOrGap_of_isNeutral {c : Char} (h : isNeutral c = true) : isDigitOrGap c = false := by
  simp [isDigitOrGap, isDigit_of_isNeutral h, eq_false_of_isNeutral h (d := '_') (by decide)]

theorem isHexDigitOrGap_of_isNeutral {c : Char} (h : isNeutral c = true) :
    isHexDigitOrGap c = false := by
  simp [isHexDigitOrGap, isHexDigit_of_isNeutral h,
    eq_false_of_isNeutral h (d := '_') (by decide)]

/-! ## Cutters that look no further -/

variable {a r : List Char}

theorem takeWhile_append_stops {p : Char → Bool} (hp : ∀ c, isNeutral c = true → p c = false)
    (a : List Char) (hr : Stops r) :
    (a ++ r).takeWhile p = a.takeWhile p ∧ (a ++ r).dropWhile p = a.dropWhile p ++ r := by
  induction a with
  | nil =>
      cases r with
      | nil => exact ⟨rfl, rfl⟩
      | cons c r => simp [hp c (hr c rfl)]
  | cons c a ih =>
      simp only [List.cons_append, List.takeWhile_cons, List.dropWhile_cons]
      cases p c
      · exact ⟨rfl, rfl⟩
      · simpa using ih

theorem startsWithDigit_append (a : List Char) (hr : Stops r) :
    startsWithDigit (a ++ r) = startsWithDigit a := by
  cases a with
  | nil =>
      cases r with
      | nil => rfl
      | cons c r => exact isDigit_of_isNeutral (hr c rfl)
  | cons c a => rfl

/-- A neutral head is none of the characters that the cutters of a number ask for. -/
theorem ne_of_stops {c d : Char} {r : List Char} (hr : Stops (c :: r)) (hd : isNeutral d = false) :
    c ≠ d := eq_false_of_isNeutral (hr c rfl) hd

theorem fraction_append_stops (a : List Char) (hr : Stops r) :
    fraction (a ++ r) = ((fraction a).1, (fraction a).2 ++ r) := by
  cases a with
  | nil =>
      cases r with
      | nil => rfl
      | cons c r =>
          have hdot := ne_of_stops hr (d := '.') (by decide)
          simp only [List.nil_append, fraction]
          split <;> simp_all
  | cons c a =>
      obtain ⟨htake, hdrop⟩ := takeWhile_append_stops (fun _ => isDigitOrGap_of_isNeutral) a hr
      by_cases hc : c = '.'
      · subst hc
        simp only [List.cons_append, fraction, htake, hdrop]
      · simp only [List.cons_append, fraction]
        split
        · simp_all
        · split <;> simp_all

theorem sign_append_stops (a : List Char) (hr : Stops r) :
    sign (a ++ r) = ((sign a).1, (sign a).2 ++ r) := by
  cases a with
  | nil =>
      cases r with
      | nil => rfl
      | cons c r =>
          have hplus := ne_of_stops hr (d := '+') (by decide)
          have hminus := ne_of_stops hr (d := '-') (by decide)
          simp only [List.nil_append, sign]
          split <;> simp_all
  | cons c a =>
      simp only [List.cons_append, sign]
      split <;> simp_all

theorem exponent_append_stops (a : List Char) (hr : Stops r) :
    exponent (a ++ r) = ((exponent a).1, (exponent a).2 ++ r) := by
  cases a with
  | nil =>
      cases r with
      | nil => rfl
      | cons c r =>
          have he := ne_of_stops hr (d := 'e') (by decide)
          have hE := ne_of_stops hr (d := 'E') (by decide)
          simp [exponent, he, hE]
  | cons c a =>
      obtain ⟨htake, hdrop⟩ :=
        takeWhile_append_stops (fun _ => isDigit_of_isNeutral) (sign a).2 hr
      simp only [List.cons_append, exponent, sign_append_stops a hr,
        startsWithDigit_append _ hr, htake, hdrop]
      split <;> rfl

theorem suffix_append_stops (a : List Char) (hr : Stops r) :
    suffix (a ++ r) = ((suffix a).1, (suffix a).2 ++ r) := by
  cases a with
  | nil =>
      cases r with
      | nil => rfl
      | cons c r =>
          have hn := ne_of_stops hr (d := 'n') (by decide)
          simp only [List.nil_append, suffix]
          split <;> simp_all
  | cons c a =>
      simp only [List.cons_append, suffix]
      split <;> simp_all

theorem hexMarker?_append_stops (a : List Char) (hr : Stops r) :
    hexMarker? (a ++ r) = (hexMarker? a).map fun m => (m.1, m.2 ++ r) := by
  match a with
  | [] =>
      cases r with
      | nil => rfl
      | cons c r =>
          have h0 := ne_of_stops hr (d := '0') (by decide)
          simp only [List.nil_append, hexMarker?]
          split <;> simp_all
  | [c] =>
      cases r with
      | nil => simp
      | cons d r =>
          have hx := ne_of_stops hr (d := 'x') (by decide)
          have hX := ne_of_stops hr (d := 'X') (by decide)
          simp only [List.cons_append, List.nil_append, hexMarker?]
          split <;> simp_all
  | c :: x :: a =>
      simp only [List.cons_append, hexMarker?]
      split <;> simp_all

theorem magnitude_append_stops (a : List Char) (hr : Stops r) :
    magnitude (a ++ r) = ((magnitude a).1, (magnitude a).2 ++ r) := by
  unfold magnitude
  rw [hexMarker?_append_stops a hr]
  cases hexMarker? a with
  | some m =>
      obtain ⟨htake, hdrop⟩ :=
        takeWhile_append_stops (fun _ => isHexDigitOrGap_of_isNeutral) m.2 hr
      simp only [Option.map_some, htake, hdrop]
  | none =>
      obtain ⟨htake, hdrop⟩ := takeWhile_append_stops (fun _ => isDigitOrGap_of_isNeutral) a hr
      simp only [Option.map_none, htake, hdrop, fraction_append_stops _ hr,
        exponent_append_stops _ hr]

end Lexeme
end ScriptSpacing
