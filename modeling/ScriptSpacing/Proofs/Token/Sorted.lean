import ScriptSpacing.Proofs.Token.Recut

/-!
# `Proofs.Token.Sorted` — the kind of a token fits its text

A token is sorted when its kind is the one the vocabulary has for its text: what reads like a punctuator is
one, and what reads like a reserved word is one. Every code token of a scan is sorted (`Cut.sorted`), since
the first characters of a text tell words, numbers, strings and punctuators apart.
-/

namespace ScriptSpacing

/-- **The kind of the token fits its text.** -/
structure Token.Sorted (t : Token) : Prop where
  punctuator : t.text ∈ Token.punctuators → t.kind = .punctuator
  keyword    : t.text ∈ Token.keywords → t.kind = .keyword

namespace Lexeme
open Text

variable {c : Char} {cs : List Char} {l : Lexeme}

/-- A number that begins with a point goes on with a digit. -/
theorem startsWithDigit_tail_number (h : startsWithDigit cs = true) :
    startsWithDigit (number ('.' :: cs)).text.tail = true := by
  cases cs with
  | nil => cases h
  | cons d cs =>
      have hdigit : isDigit d = true := h
      have hpoint : isDigitOrGap '.' = false := by decide
      have hgap : isDigitOrGap d = true := by
        rw [isDigitOrGap, hdigit]
        rfl
      simp [number, magnitude, hexMarker?, fraction, hpoint, hgap, startsWithDigit, hdigit]

/-- The text of a punctuator token is a punctuator. -/
theorem punctuator_text_mem (h : punctuator c cs = .ok l) :
    l.kind = .punctuator ∧ l.text ∈ Token.punctuatorTexts := by
  unfold punctuator at h
  split at h
  · next p hp =>
      cases h
      refine ⟨rfl, ?_⟩
      show punctuatorText p _ ∈ _
      unfold punctuatorText
      split
      · decide
      · exact List.mem_of_find?_eq_some hp
  · cases h

/-- **What the first characters of a code token say of it.** -/
theorem code_cases (h : next c cs = .ok l) (hcode : l.kind.isCode = true) :
    (l.kind = .string ∧ (c = '"' ∨ c = '\'')) ∨
    (l.kind = .numeric ∧ (isDigit c = true ∨ c = '.' ∧ startsWithDigit l.text.tail = true)) ∨
    (isWordStart c = true ∧ l = word (c :: cs)) ∨
    (l.kind = .punctuator ∧ l.text ∈ Token.punctuatorTexts) := by
  unfold next at h
  split at h
  · cases h
    cases hcode
  split at h
  · cases h
    rw [lineBreak_kind] at hcode
    cases hcode
  split at h
  · cases h
    cases hcode
  split at h
  · obtain ⟨u, -, hu, hclose⟩ := closeComment_eq_ok h
    have hsame := hclose l.rest
    rw [← hu, h] at hsame
    injection hsame with hsame
    rw [hsame] at hcode
    cases hcode
  split at h
  · next hquote =>
      have hq : c ≠ '\\' := by
        rintro rfl
        exact absurd hquote (by decide)
      obtain ⟨u, -, hu, hclose⟩ := closeString_eq_ok hq h
      have hsame := hclose l.rest
      rw [← hu, h] at hsame
      injection hsame with hsame
      rw [hsame]
      exact .inl ⟨rfl, by simpa using hquote⟩
  split at h
  · cases h
  split at h
  · next hdigit =>
      cases h
      refine .inr (.inl ⟨rfl, ?_⟩)
      simp only [Bool.or_eq_true, Bool.and_eq_true, decide_eq_true_eq] at hdigit
      rcases hdigit with hdigit | ⟨rfl, hdigit⟩
      · exact .inl hdigit
      · exact .inr ⟨rfl, startsWithDigit_tail_number hdigit⟩
  split at h
  · next hword =>
      cases h
      exact .inr (.inr (.inl ⟨hword, rfl⟩))
  · exact .inr (.inr (.inr (punctuator_text_mem h)))

end Lexeme

namespace Token
open Text

/-- How punctuators begin: with no quote, digit or letter, and with no point before a digit. -/
theorem head_of_mem_punctuatorTexts {c : Char} {w : List Char} (h : c :: w ∈ punctuatorTexts) :
    c ≠ '"' ∧ c ≠ '\'' ∧ isDigit c = false ∧ isWordStart c = false ∧ startsWithDigit w = false := by
  have hall : punctuatorTexts.all (fun p => p.head?.all fun c => c ≠ '"' && c ≠ '\'' &&
      !isDigit c && !isWordStart c && !startsWithDigit p.tail) = true := by decide
  have hp := List.all_eq_true.mp hall _ h
  simpa [and_assoc] using hp

/-- How reserved words begin: with a letter. -/
theorem head_of_mem_keywords {c : Char} {w : List Char} (h : String.ofList (c :: w) ∈ keywords) :
    c ≠ '"' ∧ c ≠ '\'' ∧ c ≠ '.' ∧ isDigit c = false ∧ isWordStart c = true ∧
      wordKind (String.ofList (c :: w)) = .keyword := by
  have hall : keywords.all (fun s => wordKind s = .keyword && s.toList.head?.all fun c =>
      c ≠ '"' && c ≠ '\'' && c ≠ '.' && !isDigit c && isWordStart c) = true := by decide
  have hs := List.all_eq_true.mp hall _ h
  rw [String.toList_ofList] at hs
  simp only [List.head?_cons, Option.all_some, Bool.and_eq_true, Bool.not_eq_true',
    decide_eq_true_eq] at hs
  obtain ⟨hkind, ⟨⟨⟨hquote, hsingle⟩, hpoint⟩, hdigit⟩, hword⟩ := hs
  exact ⟨hquote, hsingle, hpoint, hdigit, hword, hkind⟩

/-- **A code token that is cut from a text is sorted.** -/
theorem CutBefore.sorted {t : Token} {rest : List Char} (h : t.CutBefore rest)
    (hcode : t.isCode = true) : t.Sorted := by
  obtain ⟨c, w, htext, hnext⟩ := h
  have hofList : t.text = String.ofList (c :: w) := by rw [← htext, String.ofList_toList]
  constructor
  · intro hmem
    have hchars : c :: w ∈ punctuatorTexts := by
      rw [← htext]
      exact List.mem_map_of_mem hmem
    obtain ⟨hquote, hsingle, hdigit, hword, hpoint⟩ := head_of_mem_punctuatorTexts hchars
    rcases Lexeme.code_cases hnext hcode with ⟨-, hc⟩ | ⟨-, hc⟩ | ⟨hc, -⟩ | ⟨hkind, -⟩
    · exact absurd hc (not_or.mpr ⟨hquote, hsingle⟩)
    · rcases hc with hc | ⟨-, hc⟩
      · rw [hdigit] at hc
        cases hc
      · rw [show startsWithDigit w = true from hc] at hpoint
        cases hpoint
    · rw [hword] at hc
      cases hc
    · exact hkind
  · intro hmem
    rw [hofList] at hmem
    obtain ⟨hquote, hsingle, hpoint, hdigit, hword, hkeyword⟩ := head_of_mem_keywords hmem
    rcases Lexeme.code_cases hnext hcode with ⟨-, hc⟩ | ⟨-, hc⟩ | ⟨-, hl⟩ | ⟨-, hchars⟩
    · exact absurd hc (not_or.mpr ⟨hquote, hsingle⟩)
    · rcases hc with hc | ⟨hc, -⟩
      · rw [hdigit] at hc
        cases hc
      · exact absurd hc hpoint
    · -- a word is sorted by its own text
      have hkind := congrArg Lexeme.kind hl
      have hwhole := congrArg Lexeme.text hl
      rw [show t.kind = _ from hkind]
      show wordKind (String.ofList (Lexeme.word (c :: (w ++ rest))).text) = _
      rw [← hwhole]
      exact hkeyword
    · obtain ⟨-, -, -, hno, -⟩ := head_of_mem_punctuatorTexts hchars
      rw [hword] at hno
      cases hno

/-- **The code tokens of a scan are sorted.** -/
theorem Cut.sorted {ts : List Token} (h : Cut ts) {t : Token} (ht : t ∈ ts)
    (hcode : t.isCode = true) : t.Sorted := by
  obtain ⟨rest, hcut⟩ := h.exists_cutBefore ht
  exact hcut.sorted hcode

end Token
end ScriptSpacing
