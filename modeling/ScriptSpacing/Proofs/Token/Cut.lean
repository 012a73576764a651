import Mathlib.Data.List.Find
import Mathlib.Data.List.TakeWhile
import ScriptSpacing.Proofs.Token.Lookahead

/-!
# `Proofs.Token.Cut` — cutting a token again after a change behind it

`next_congr` is the main statement: a token cut from `w ++ rest` is cut from `w ++ rest'` too, when the
two rests look alike. Strings and block comments end by themselves and do not look at all; words, numbers
and operators look ahead (`Proofs.Token.Lookahead`); blanks and line comments look at one character.
-/

namespace ScriptSpacing
namespace Lexeme
open Text

/-! ## Tokens that end by themselves -/

/-- **A block comment is cut by its own characters.** -/
theorem closeComment_eq_ok {taken cs : List Char} {l : Lexeme} (h : closeComment taken cs = .ok l) :
    ∃ u, u ≠ [] ∧ cs = u ++ l.rest ∧
      ∀ r, closeComment taken (u ++ r) = .ok ⟨.blockComment, taken.reverse ++ u, r⟩ := by
  fun_induction closeComment taken cs with
  | case1 taken rest =>
      cases h
      exact ⟨['*', '/'], by simp, rfl, fun r => by simp [closeComment]⟩
  | case2 taken c cs hpat ih =>
      obtain ⟨u, hu, rfl, hclose⟩ := ih h
      refine ⟨c :: u, by simp, rfl, fun r => ?_⟩
      -- the end is in `u`, so `c` and what stands behind `u` are not the star and the slash
      obtain ⟨d, u, rfl⟩ := List.exists_cons_of_ne_nil hu
      rw [List.cons_append, closeComment, hclose]
      · simp
      · rintro rest rfl hrest
        simp only [List.cons_append, List.cons.injEq] at hrest
        exact hpat (u ++ l.rest) rfl (by rw [hrest.1]; rfl)
  | case3 => cases h

/-- **A string is cut by its own characters.** -/
theorem closeString_eq_ok {quote : Char} (hq : quote ≠ '\\') {taken cs : List Char} {l : Lexeme}
    (h : closeString quote taken cs = .ok l) :
    ∃ u, u ≠ [] ∧ cs = u ++ l.rest ∧
      ∀ r, closeString quote taken (u ++ r) = .ok ⟨.string, taken.reverse ++ u, r⟩ := by
  fun_induction closeString quote taken cs with
  | case1 taken c cs ih =>
      obtain ⟨u, -, rfl, hclose⟩ := ih h
      exact ⟨'\\' :: c :: u, by simp, rfl, fun r => by simp [closeString, hclose]⟩
  | case2 taken cs hpat =>
      cases h
      refine ⟨[quote], by simp, rfl, fun r => ?_⟩
      rw [List.singleton_append, closeString, if_pos rfl, List.reverse_cons]
      exact fun _ _ he => absurd he hq
  | case3 => cases h
  | case4 taken c cs hpat hquote hnewline ih =>
      obtain ⟨u, hu, rfl, hclose⟩ := ih h
      refine ⟨c :: u, by simp, rfl, fun r => ?_⟩
      obtain ⟨d, u, rfl⟩ := List.exists_cons_of_ne_nil hu
      rw [List.cons_append, closeString, if_neg hquote, if_neg hnewline, hclose]
      · simp
      · rintro d' rest rfl hrest
        exact hpat d (u ++ l.rest) rfl rfl
  | case5 => cases h

/-! ## Tokens that look ahead -/

/-- A lexeme cut from a text with `r` behind it. -/
def extend (l : Lexeme) (r : List Char) : Lexeme := { l with rest := l.rest ++ r }

/-- A cutter that looks no further than the next neutral character. -/
def Local (f : List Char → Except Flaw Lexeme) : Prop :=
  ∀ a r, Stops r → f (a ++ r) = (f a).map (·.extend r)

/-- **A local cutter cuts alike what looks alike.** -/
theorem Local.congr {f : List Char → Except Flaw Lexeme} (hf : Local f) {w rest rest' : List Char}
    {l : Lexeme} (h : f (w ++ rest) = .ok l) (hrest : l.rest = rest)
    (hahead : ahead rest' = ahead rest) : f (w ++ rest') = .ok { l with rest := rest' } := by
  -- of the rest only what is ahead counts; the remainder is handed on
  have key : ∀ r, f (w ++ r) = (f (w ++ ahead r)).map (·.extend (beyond r)) := by
    intro r
    rw [← hf _ _ (stops_beyond r), List.append_assoc, ahead_append_beyond]
  rw [key, hahead]
  rw [key] at h
  cases hm : f (w ++ ahead rest) with
  | error e => rw [hm] at h; cases h
  | ok m =>
      rw [hm] at h
      cases h
      have hm' : m.rest = ahead rest := by
        rw [← List.append_left_inj (beyond rest), ahead_append_beyond]
        exact hrest
      simp only [Except.map, extend, hm', ← hahead, ahead_append_beyond]

theorem number_append_stops (a : List Char) {r : List Char} (hr : Stops r) :
    number (a ++ r) = (number a).extend r := by
  simp only [number, extend, magnitude_append_stops a hr, suffix_append_stops _ hr]

theorem word_append_stops (a : List Char) {r : List Char} (hr : Stops r) :
    word (a ++ r) = (word a).extend r := by
  obtain ⟨htake, hdrop⟩ := takeWhile_append_stops (fun _ => isWordPart_of_isNeutral) a hr
  simp only [word, run, extend, htake, hdrop]

/-- Behind its first character no punctuator has a neutral one. -/
theorem isNeutral_of_mem_punctuator {p : List Char} (hp : p ∈ Token.punctuatorTexts) :
    ∀ d ∈ p.tail, isNeutral d = false := by
  have hall : Token.punctuatorTexts.all (fun p => !p.tail.any isNeutral) = true := by decide
  intro d hd
  have htail := List.all_eq_true.mp hall p hp
  rw [Bool.not_eq_true', List.any_eq_false] at htail
  exact Bool.eq_false_iff.mpr (htail d hd)

theorem isPrefixOf_append_stops {p : List Char} (hp : ∀ d ∈ p, isNeutral d = false)
    (a : List Char) {r : List Char} (hr : Stops r) : p.isPrefixOf (a ++ r) = p.isPrefixOf a := by
  induction a generalizing p with
  | nil =>
      cases p with
      | nil => simp
      | cons d p =>
          cases r with
          | nil => rfl
          | cons c r =>
              have hne : d ≠ c := (eq_false_of_isNeutral (hr c rfl) (hp d List.mem_cons_self)).symm
              simp [List.isPrefixOf, hne]
  | cons c a ih =>
      cases p with
      | nil => simp
      | cons d p =>
          simp only [List.cons_append, List.isPrefixOf]
          rw [ih fun x hx => hp x (List.mem_cons_of_mem _ hx)]

theorem punctuatorAt?_append_stops (c : Char) (a : List Char) {r : List Char} (hr : Stops r) :
    Token.punctuatorAt? (c :: (a ++ r)) = Token.punctuatorAt? (c :: a) := by
  unfold Token.punctuatorAt?
  apply List.find?_congr
  intro p hp
  cases p with
  | nil => rfl
  | cons d p =>
      have htail : ∀ x ∈ p, isNeutral x = false := isNeutral_of_mem_punctuator hp
      simp only [List.isPrefixOf, isPrefixOf_append_stops htail a hr]

theorem punctuator_append_stops (c : Char) (a : List Char) {r : List Char} (hr : Stops r) :
    punctuator c (a ++ r) = (punctuator c a).map (·.extend r) := by
  unfold punctuator
  rw [punctuatorAt?_append_stops c a hr]
  cases hp : Token.punctuatorAt? (c :: a) with
  | none => rfl
  | some p =>
      have hprefix := (Token.punctuatorAt?_spec hp).1
      have hdrop : ∀ q : List Char, q <+: c :: a →
          (c :: (a ++ r)).drop q.length = (c :: a).drop q.length ++ r := by
        intro q hq
        rw [← List.cons_append, List.drop_append_of_le_length hq.length_le]
      have htext : punctuatorText p ((c :: (a ++ r)).drop p.length) =
          punctuatorText p ((c :: a).drop p.length) := by
        rw [hdrop p hprefix, punctuatorText, punctuatorText, startsWithDigit_append _ hr]
      simp only [htext, hdrop _ (isPrefix_punctuatorText hprefix _)]
      rfl

/-- What `next` cuts when the text begins with no blank, line end, comment, quote or backquote. -/
def plain (c : Char) (cs : List Char) : Except Flaw Lexeme :=
  if isDigit c || (c = '.' && startsWithDigit cs) then .ok (number (c :: cs))
  else if isWordStart c then .ok (word (c :: cs))
  else punctuator c cs

theorem local_plain (c : Char) : Local (plain c) := by
  intro a r hr
  unfold plain
  rw [startsWithDigit_append a hr, ← List.cons_append, number_append_stops _ hr,
    word_append_stops _ hr, punctuator_append_stops c a hr]
  split
  · rfl
  · split <;> rfl

/-! ## Tokens that look at one character -/

/-- **A run is cut again** when the character behind it still ends it. -/
theorem run_congr {kind : Token.Kind} {p : Char → Bool} {u rest rest' : List Char}
    (hrest : (run kind p (u ++ rest)).rest = rest)
    (hhead : ∀ c ∈ rest'.head?, p c = false) : run kind p (u ++ rest') = ⟨kind, u, rest'⟩ := by
  have htext : (u ++ rest).takeWhile p = u := by
    have happ := run_text_append_rest kind p (u ++ rest)
    rw [hrest] at happ
    exact List.append_cancel_right happ
  have hall : ∀ c ∈ u, p c = true := fun c hc => List.mem_takeWhile_imp (htext ▸ hc)
  have hstop : rest'.takeWhile p = [] ∧ rest'.dropWhile p = rest' := by
    cases rest' with
    | nil => exact ⟨rfl, rfl⟩
    | cons c cs => simp [hhead c rfl]
  simp only [run, List.takeWhile_append_of_pos hall, List.dropWhile_append_of_pos hall, hstop.1,
    hstop.2, List.append_nil]

theorem head_of_run_rest (kind : Token.Kind) (p : Char → Bool) (cs : List Char) :
    ∀ c ∈ (run kind p cs).rest.head?, p c = false := by
  intro c hc
  have := List.head?_dropWhile_not p cs
  simp only [run, Option.mem_def] at hc
  rw [hc] at this
  simpa using this

theorem lineBreak_congr {c : Char} {w rest rest' : List Char}
    (hrest : (lineBreak c (w ++ rest)).rest = rest) (hahead : ahead rest' = ahead rest) :
    lineBreak c (w ++ rest') = { lineBreak c (w ++ rest) with rest := rest' } := by
  have hlf := head?_eq_iff_of_ahead hahead (d := '\n') (by decide)
  cases w with
  | nil =>
      -- a return cut alone had no line feed behind it, and must not get one
      rw [List.nil_append] at hrest
      have hpair : ∀ r : List Char, (c = '\r' → r.head? ≠ some '\n') →
          lineBreak c r = ⟨.lineBreak, [c], r⟩ := by
        intro r hne
        unfold lineBreak
        split
        · rw [if_neg fun hc => hne hc rfl]
        · rfl
      have hne : c = '\r' → rest.head? ≠ some '\n' := by
        rintro rfl hhead
        obtain ⟨rest, rfl⟩ : ∃ r, rest = '\n' :: r := by
          cases rest with
          | nil => cases hhead
          | cons d r => exact ⟨r, by simpa using hhead⟩
        have hlen := congrArg List.length hrest
        simp [lineBreak] at hlen
      rw [List.nil_append, List.nil_append, hpair rest hne,
        hpair rest' fun hc hhead => hne hc (hlf.mp hhead)]
  | cons d w =>
      -- a pair was cut, or more than the token is left and `hrest` is false
      rw [List.cons_append] at hrest ⊢
      unfold lineBreak at hrest ⊢
      split at hrest
      · next r hr =>
          injection hr with hd hr
          subst hd hr
          split at hrest
          · next hc =>
              obtain rfl : w = [] := by
                have := congrArg List.length hrest
                simpa using this
              simp [hc]
          · have := congrArg List.length hrest
            simp at this
            omega
      · have := congrArg List.length hrest
        simp at this
        omega

/-! ## The next token -/

/-- **A cut does not see past its lookahead.** If `next` cuts a token from `c :: w ++ rest` and leaves
    `rest`, it cuts the same token from `c :: w ++ rest'` when the two rests look alike. -/
theorem next_congr {c : Char} {w rest rest' : List Char} {l : Lexeme}
    (h : next c (w ++ rest) = .ok l) (hrest : l.rest = rest) (hahead : ahead rest' = ahead rest)
    (hhead : l.kind = .whiteSpace ∨ l.kind = .lineComment → rest'.head? = rest.head?) :
    next c (w ++ rest') = .ok { l with rest := rest' } := by
  have htext : l.text = c :: w := by
    have happ := next_text_append_rest h
    rw [hrest, ← List.cons_append] at happ
    exact List.append_cancel_right happ
  have hl : { l with rest := rest' } = (⟨l.kind, c :: w, rest'⟩ : Lexeme) := by rw [← htext]
  have hsecond : ∀ d, isNeutral d = false →
      ((w ++ rest').head? = some d ↔ (w ++ rest).head? = some d) := by
    intro d hd
    cases w with
    | nil => exact head?_eq_iff_of_ahead hahead hd
    | cons e w => rfl
  have hslash := hsecond '/' (by decide)
  have hstar := hsecond '*' (by decide)
  -- one case for each test of `next`, in its order; the tests come out alike for both rests
  unfold next at h ⊢
  simp only [hslash, hstar]
  rw [hl]
  split at h
  · next hblank =>
      cases h
      have hstop := head_of_run_rest .whiteSpace isBlank (c :: (w ++ rest))
      rw [hrest, ← hhead (.inl rfl)] at hstop
      rw [if_pos hblank, ← List.cons_append, run_congr hrest hstop]
      rfl
  next hblank =>
  rw [if_neg hblank]
  split at h
  · next hend =>
      cases h
      rw [if_pos hend, lineBreak_congr hrest hahead, hl]
  next hend =>
  rw [if_neg hend]
  split at h
  · next hline =>
      cases h
      have hstop := head_of_run_rest .lineComment (fun d => !isNewline d) (c :: (w ++ rest))
      rw [hrest, ← hhead (.inr rfl)] at hstop
      rw [if_pos hline, ← List.cons_append, run_congr hrest hstop]
      rfl
  next hline =>
  rw [if_neg hline]
  split at h
  · next hblock =>
      rw [if_pos hblock]
      obtain ⟨u, -, hu, hclose⟩ := closeComment_eq_ok h
      have hsame := hclose l.rest
      rw [← hu, h] at hsame
      injection hsame with hsame
      obtain rfl : w = '*' :: u := by
        have := htext.symm.trans (congrArg Lexeme.text hsame)
        simpa using (List.cons.inj this).2
      rw [List.cons_append, List.tail_cons, hclose, hsame]
      simp only [Bool.and_eq_true, decide_eq_true_eq] at hblock
      simp [hblock.1]
  next hblock =>
  rw [if_neg hblock]
  split at h
  · next hquote =>
      rw [if_pos hquote]
      have hq : c ≠ '\\' := by
        rintro rfl
        exact absurd hquote (by decide)
      obtain ⟨u, -, hu, hclose⟩ := closeString_eq_ok hq h
      rw [hrest] at hu
      obtain rfl : w = u := List.append_cancel_right hu
      have hkind := hclose rest
      rw [h] at hkind
      cases hkind
      rw [hclose]
      rfl
  next hquote =>
  rw [if_neg hquote]
  split at h
  · cases h
  next hback =>
  rw [if_neg hback]
  rw [← hl]
  exact (local_plain c).congr h hrest hahead

/-! ## What a kind says about a cut -/

theorem wordKind_isCode (word : String) : (Token.wordKind word).isCode = true := by
  unfold Token.wordKind
  repeat' split
  all_goals rfl

/-- A cut that is not plain is decided by the first character, or by it and the second. -/
theorem next_cases {c : Char} {cs : List Char} {l : Lexeme} (h : next c cs = .ok l) :
    (isBlank c = true ∧ l = run .whiteSpace isBlank (c :: cs)) ∨
    (isBlank c = false ∧ isLineEnd c = true ∧ l = lineBreak c cs) ∨
    (isBlank c = false ∧ c = '/' ∧ l = run .lineComment (fun d => !isNewline d) (c :: cs)) ∨
    (isBlank c = false ∧ l.kind = .blockComment) ∨
    (isBlank c = false ∧ l.kind.isCode = true) := by
  unfold next at h
  split at h
  · next hblank => cases h; exact .inl ⟨hblank, rfl⟩
  next hblank =>
  rw [Bool.not_eq_true] at hblank
  split at h
  · next hend => cases h; exact .inr (.inl ⟨hblank, hend, rfl⟩)
  split at h
  · next hline =>
      cases h
      simp only [Bool.and_eq_true, decide_eq_true_eq] at hline
      exact .inr (.inr (.inl ⟨hblank, hline.1, rfl⟩))
  split at h
  · obtain ⟨u, -, hu, hclose⟩ := closeComment_eq_ok h
    have hsame := hclose l.rest
    rw [← hu, h] at hsame
    injection hsame with hsame
    exact .inr (.inr (.inr (.inl ⟨hblank, by rw [hsame]⟩)))
  refine .inr (.inr (.inr (.inr ⟨hblank, ?_⟩)))
  split at h
  · next hquote =>
      have hq : c ≠ '\\' := by
        rintro rfl
        exact absurd hquote (by decide)
      obtain ⟨u, -, hu, hclose⟩ := closeString_eq_ok hq h
      have hsame := hclose l.rest
      rw [← hu, h] at hsame
      injection hsame with hsame
      rw [hsame]
      rfl
  split at h
  · cases h
  split at h
  · cases h; rfl
  split at h
  · cases h; exact wordKind_isCode _
  · unfold punctuator at h
    split at h
    · cases h; rfl
    · cases h

theorem lineBreak_kind (c : Char) (cs : List Char) : (lineBreak c cs).kind = .lineBreak := by
  unfold lineBreak
  repeat' split
  all_goals rfl

/-- **Whitespace tokens are those that begin with a blank.** -/
theorem kind_eq_whiteSpace_iff {c : Char} {cs : List Char} {l : Lexeme} (h : next c cs = .ok l) :
    l.kind = .whiteSpace ↔ isBlank c = true := by
  rcases next_cases h with ⟨hb, rfl⟩ | ⟨hb, -, rfl⟩ | ⟨hb, -, rfl⟩ | ⟨hb, hk⟩ | ⟨hb, hk⟩
  · exact ⟨fun _ => hb, fun _ => rfl⟩
  · simp [hb, lineBreak_kind]
  · simp [hb, run]
  · simp [hb, hk]
  · rw [hb]
    cases hkind : l.kind <;> rw [hkind] at hk <;> simp_all [Token.Kind.isCode, Token.Kind.isEmpty]

/-- A line comment goes on to the end of its line. -/
theorem isNewline_of_lineComment {c : Char} {cs : List Char} {l : Lexeme} (h : next c cs = .ok l)
    (hk : l.kind = .lineComment) : ∀ d ∈ l.rest.head?, isNewline d = true := by
  rcases next_cases h with ⟨-, rfl⟩ | ⟨-, -, rfl⟩ | ⟨-, -, rfl⟩ | ⟨-, hk'⟩ | ⟨-, hk'⟩
  · cases hk
  · rw [lineBreak_kind] at hk
    cases hk
  · intro d hd
    simpa using head_of_run_rest _ _ _ d hd
  · rw [hk] at hk'
    cases hk'
  · rw [hk] at hk'
    cases hk'

/-- **A bracket is a token**, whatever stands behind it. -/
theorem next_bracket {c : Char} (hc : c ∈ ['(', ')', '[', ']', '\x7b', '\x7d']) (cs : List Char) :
    next c cs = .ok ⟨.punctuator, [c], cs⟩ := by
  simp only [List.mem_cons, List.not_mem_nil, or_false] at hc
  rcases hc with rfl | rfl | rfl | rfl | rfl | rfl
  all_goals rfl

end Lexeme
end ScriptSpacing
