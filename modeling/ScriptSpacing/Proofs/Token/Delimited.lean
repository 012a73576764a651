import ScriptSpacing.Proofs.Token.Longest
import ScriptSpacing.Token.Lexeme

/-!
# `Proofs.Token.Delimited` — strings and block comments, which end by themselves

A string ends at the first bare occurrence of its quote, and a block comment at the first star and slash
behind its opening. Either way no text of the class goes on from another (`Literal.eq_of_prefix`,
`BlockComment.eq_of_prefix`), so the one that a text begins with is the longest. The cutters find it when
there is one, and fail when there is none: no bare quote before the end of the line, or no star and slash.
-/

namespace ScriptSpacing
namespace Text

/-! ## Strings -/

/-- The characters of a text that are not escaped. A backslash takes the character behind it along, and
    neither of the two is bare. -/
def bare : List Char → List Char
  | []             => []
  | ['\\']         => []
  | '\\' :: _ :: cs => bare cs
  | c :: cs        => c :: bare cs

/-- The quotes of a string. -/
def isQuote (c : Char) : Bool := c = '"' || c = '\''

/-- Read from behind an opening quote `q`, a bare `q` comes before any bare newline and before the end. -/
def Closes (q : Char) (cs : List Char) : Prop := q ∈ (bare cs).takeWhile (fun c => !isNewline c)

/-- A text of strings: a quote, then characters among whose bare ones that quote and newlines are not, and
    the quote once more, which is bare. -/
def Literal (w : List Char) : Prop :=
  ∃ q body, isQuote q = true ∧ w = q :: (body ++ [q]) ∧ bare (body ++ [q]) = bare body ++ [q] ∧
    ∀ c ∈ bare body, c ≠ q ∧ isNewline c = false

theorem bare_cons {c : Char} (h : c ≠ '\\') (cs : List Char) : bare (c :: cs) = c :: bare cs := by
  rw [bare]
  · rintro rfl
    exact absurd rfl h
  · rintro d r rfl
    exact absurd rfl h

theorem ne_of_isQuote {q d : Char} (hq : isQuote q = true) (hd : isQuote d = false) : q ≠ d := by
  rintro rfl
  rw [hq] at hd
  cases hd

/-- No quote is a newline. -/
theorem isNewline_of_isQuote {q : Char} (h : isQuote q = true) : isNewline q = false := by
  simp [isNewline, ne_of_isQuote h (show isQuote '\n' = false by decide),
    ne_of_isQuote h (show isQuote '\r' = false by decide)]

/-- A text is read escape by escape: a backslash with the character behind it, a backslash at the end, or
    any other character. -/
theorem escape_induction {motive : List Char → Prop} (nil : motive []) (lone : motive ['\\'])
    (escaped : ∀ d cs, motive cs → motive ('\\' :: d :: cs))
    (plain : ∀ c cs, c ≠ '\\' → motive cs → motive (c :: cs)) (cs : List Char) : motive cs := by
  fun_induction bare cs with
  | case1 => exact nil
  | case2 => exact lone
  | case3 d cs ih => exact escaped d cs ih
  | case4 c cs hlone hescape ih =>
      refine plain c cs ?_ ih
      rintro rfl
      cases cs with
      | nil => exact hlone rfl rfl
      | cons d cs => exact hescape d cs rfl rfl

/-- A text in front of which nothing is left to be escaped can be read part by part. -/
theorem bare_append {body : List Char} {q : Char} (h : bare (body ++ [q]) = bare body ++ [q])
    (r : List Char) : bare (body ++ r) = bare body ++ bare r := by
  induction body using escape_induction with
  | nil => rfl
  | lone => cases h
  | escaped d cs ih => exact ih h
  | plain c cs hc ih =>
      rw [List.cons_append, bare_cons hc, bare_cons hc, List.cons_append, List.cons_inj_right] at h
      rw [List.cons_append, bare_cons hc, ih h, bare_cons hc, List.cons_append]

/-- **A literal closes.** -/
theorem closes_of_literal {q : Char} {body : List Char} (hq : isQuote q = true)
    (hlast : bare (body ++ [q]) = bare body ++ [q])
    (hbare : ∀ c ∈ bare body, c ≠ q ∧ isNewline c = false) (r : List Char) :
    Closes q (body ++ q :: r) := by
  unfold Closes
  rw [bare_append hlast, bare_cons (ne_of_isQuote hq (by decide)),
    List.takeWhile_append_of_pos (fun c hc => by simp [(hbare c hc).2]),
    List.takeWhile_cons_of_pos (by simp [isNewline_of_isQuote hq])]
  simp

/-- **No literal goes on from another.** -/
theorem Literal.eq_of_prefix {v w : List Char} (hv : Literal v) (hw : Literal w) (hpre : w <+: v) :
    v = w := by
  obtain ⟨q, a, hq, rfl, hlast, -⟩ := hw
  obtain ⟨q', b, -, rfl, -, hbare⟩ := hv
  obtain ⟨rfl, r, hr⟩ := List.cons_prefix_cons.mp hpre
  -- were there more, the quote that ends the first would be bare inside of the other
  rcases List.eq_nil_or_concat r with rfl | ⟨r, d, rfl⟩
  · rw [List.append_nil] at hr
    rw [hr]
  · rw [List.concat_eq_append, ← List.append_assoc, List.append_assoc a] at hr
    obtain ⟨hbody, -⟩ := List.append_inj' hr rfl
    have hmem : q ∈ bare b := by
      rw [← hbody, bare_append hlast, List.singleton_append, bare_cons (ne_of_isQuote hq (by decide))]
      simp
    exact absurd rfl (hbare q hmem).1

/-! ## Block comments -/

/-- A text of block comments: the opening, and a star and a slash that no other stand in front of. -/
def BlockComment (w : List Char) : Prop :=
  ∃ body, w = '/' :: '*' :: (body ++ ['*', '/']) ∧ ¬ ['*', '/'] <:+: body ++ ['*']

/-- **No block comment goes on from another.** -/
theorem BlockComment.eq_of_prefix {v w : List Char} (hv : BlockComment v) (hw : BlockComment w)
    (hpre : w <+: v) : v = w := by
  obtain ⟨a, rfl, -⟩ := hw
  obtain ⟨b, rfl, hfirst⟩ := hv
  have hab : a ++ ['*', '/'] <+: b ++ ['*', '/'] :=
    (List.cons_prefix_cons.mp (List.cons_prefix_cons.mp hpre).2).2
  rcases Nat.lt_or_ge a.length b.length with hlt | hge
  · -- the shorter one would end inside of the longer
    have hstar : b ++ ['*'] <+: b ++ ['*', '/'] :=
      (List.prefix_append_right_inj b).mpr ⟨['/'], rfl⟩
    have hinside : a ++ ['*', '/'] <+: b ++ ['*'] :=
      List.prefix_of_prefix_length_le hab hstar (by simp; omega)
    exact absurd ((List.suffix_append a _).isInfix.trans hinside.isInfix) hfirst
  · have hsame := hab.eq_of_length (by have := hab.length_le; simp at this ⊢; omega)
    rw [hsame]

end Text

/-! ## The cutters -/

namespace Lexeme
open Text

variable {taken cs : List Char} {l : Lexeme} {f : Flaw}

/-- What is cut as a string ends with the first bare quote. -/
theorem closeString_eq_ok_literal {q : Char} (hq : isQuote q = true)
    (h : closeString q taken cs = .ok l) : l.kind = .string ∧ ∃ body,
      l.text = taken.reverse ++ (body ++ [q]) ∧ bare (body ++ [q]) = bare body ++ [q] ∧
        ∀ c ∈ bare body, c ≠ q ∧ isNewline c = false := by
  have hback : q ≠ '\\' := ne_of_isQuote hq (by decide)
  fun_induction closeString q taken cs with
  | case1 taken c cs ih =>
      obtain ⟨hkind, body, htext, hlast, hbare⟩ := ih h
      exact ⟨hkind, '\\' :: c :: body, by simp [htext], hlast, hbare⟩
  | case2 taken cs hescape =>
      cases h
      refine ⟨rfl, [], by simp, ?_, fun c hc => by cases hc⟩
      exact bare_cons hback []
  | case3 => cases h
  | case4 taken c cs hescape hquote hnewline ih =>
      obtain ⟨hkind, body, htext, hlast, hbare⟩ := ih h
      have hc : c ≠ '\\' := by
        rintro rfl
        cases cs with
        | nil => cases h
        | cons d cs => exact hescape d cs rfl rfl
      refine ⟨hkind, c :: body, by simp [htext], ?_, ?_⟩
      · rw [List.cons_append, bare_cons hc, hlast, bare_cons hc]
        rfl
      · rw [bare_cons hc]
        rintro d hd
        rcases List.mem_cons.mp hd with rfl | hd
        · exact ⟨hquote, by simpa using hnewline⟩
        · exact hbare d hd
  | case5 => cases h

/-- **Cutting a string fails when its quote does not close.** -/
theorem closeString_eq_error {q : Char} (h : closeString q taken cs = .error f) :
    f = .unterminatedString ∧ ¬ Closes q cs := by
  unfold Closes
  fun_induction closeString q taken cs with
  | case1 taken c cs ih => exact ih h
  | case2 => cases h
  | case3 taken c cs hescape hquote hnewline =>
      cases h
      have hc : c ≠ '\\' := by
        rintro rfl
        exact absurd hnewline (by decide)
      rw [bare_cons hc, List.takeWhile_cons_of_neg (by simp [hnewline])]
      exact ⟨rfl, List.not_mem_nil⟩
  | case4 taken c cs hescape hquote hnewline ih =>
      obtain ⟨rfl, hopen⟩ := ih h
      refine ⟨rfl, ?_⟩
      by_cases hc : c = '\\'
      · subst hc
        cases cs with
        | nil => exact List.not_mem_nil
        | cons d cs => exact absurd rfl (hescape d cs rfl)
      · rw [bare_cons hc, List.takeWhile_cons_of_pos (by simpa using hnewline)]
        rintro hmem
        rcases List.mem_cons.mp hmem with rfl | hmem
        · exact hquote rfl
        · exact hopen hmem
  | case5 =>
      cases h
      exact ⟨rfl, List.not_mem_nil⟩

/-- What is cut as a block comment ends with the first star and slash. -/
theorem closeComment_eq_ok_first (h : closeComment taken cs = .ok l) : l.kind = .blockComment ∧
    ∃ body, l.text = taken.reverse ++ (body ++ ['*', '/']) ∧ cs = body ++ '*' :: '/' :: l.rest ∧
      ¬ ['*', '/'] <:+: body ++ ['*'] := by
  fun_induction closeComment taken cs with
  | case1 taken rest =>
      cases h
      exact ⟨rfl, [], by simp, rfl, by decide⟩
  | case2 taken c cs hpair ih =>
      obtain ⟨hkind, body, htext, hcs, hfirst⟩ := ih h
      refine ⟨hkind, c :: body, by simp [htext], by rw [hcs]; rfl, ?_⟩
      rw [List.cons_append, List.infix_cons_iff, not_or]
      refine ⟨?_, hfirst⟩
      -- a star and a slash at `c` would have ended the comment here
      intro hpre
      obtain ⟨rfl, hslash⟩ := List.cons_prefix_cons.mp hpre
      cases body with
      | nil => exact absurd hslash (by decide)
      | cons d body =>
          obtain ⟨rfl, -⟩ := List.cons_prefix_cons.mp hslash
          exact hpair (body ++ '*' :: '/' :: l.rest) rfl hcs
  | case3 => cases h

/-- **Cutting a block comment fails when no star and slash are left.** -/
theorem closeComment_eq_error (h : closeComment taken cs = .error f) :
    f = .unterminatedComment ∧ ¬ ['*', '/'] <:+: cs := by
  fun_induction closeComment taken cs with
  | case1 => cases h
  | case2 taken c cs hpair ih =>
      obtain ⟨rfl, hopen⟩ := ih h
      refine ⟨rfl, ?_⟩
      rw [List.infix_cons_iff, not_or]
      refine ⟨?_, hopen⟩
      intro hpre
      obtain ⟨rfl, r, rfl⟩ := List.cons_prefix_cons.mp hpre
      exact hpair r rfl rfl
  | case3 =>
      cases h
      exact ⟨rfl, by decide⟩

end Lexeme
end ScriptSpacing
