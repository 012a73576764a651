import ScriptSpacing.Proofs.Token.Classes

/-!
# `Proofs.Token.LineEndings` — line feeds made carriage returns with line feeds

`Text.crlf` converts a text: it puts a carriage return in front of every line feed. A text without
carriage returns is then cut into the same tokens, each of them converted, but for one case: in a string,
a backslash takes one character along, which is the carriage return now, and the line feed behind it
breaks the string. `Lexeme.next_crlf` says this of one step, and `scan_crlf_iff` of a whole scan.

Most classes hold no line feed. Of such a text, `crlf` keeps what begins with it, and makes nothing begin
with it that did not (`isPrefix_crlf_iff`), so the longest text of the class stays the longest.
-/

namespace ScriptSpacing
namespace Text

/-- A carriage return in front of every line feed. -/
def crlf (cs : List Char) : List Char := cs.flatMap fun c => if c = '\n' then ['\r', '\n'] else [c]

@[simp] theorem crlf_nil : crlf [] = [] := rfl

@[simp] theorem crlf_newline (cs : List Char) : crlf ('\n' :: cs) = '\r' :: '\n' :: crlf cs := rfl

theorem crlf_cons {c : Char} (h : c ≠ '\n') (cs : List Char) : crlf (c :: cs) = c :: crlf cs := by
  rw [crlf, List.flatMap_cons, if_neg h]
  rfl

theorem exists_crlf_eq_cons (c : Char) (cs : List Char) : ∃ c' cs', crlf (c :: cs) = c' :: cs' := by
  by_cases hc : c = '\n'
  · subst hc
    exact ⟨_, _, crlf_newline cs⟩
  · exact ⟨_, _, crlf_cons hc cs⟩

@[simp] theorem crlf_append (u v : List Char) : crlf (u ++ v) = crlf u ++ crlf v := List.flatMap_append

end Text

/-- The text with a carriage return in front of every line feed. -/
def Text.withCrlf (s : String) : String := String.ofList (crlf s.toList)

/-- The token, converted. -/
def Token.crlf (t : Token) : Token := ⟨t.kind, Text.withCrlf t.text⟩

/-- **A string holds a line feed**, which a backslash takes along. -/
def Token.IsFolded (t : Token) : Prop := t.kind = .string ∧ '\n' ∈ t.text.toList

instance : DecidablePred Token.IsFolded := fun t =>
  inferInstanceAs (Decidable (t.kind = .string ∧ '\n' ∈ t.text.toList))

namespace Text

variable {P : List Char → Prop} {q c : Char} {v w cs : List Char}

theorem crlf_of_not_mem (h : '\n' ∉ w) : crlf w = w := by
  induction w with
  | nil => rfl
  | cons c w ih =>
      rw [List.mem_cons, not_or] at h
      rw [crlf_cons (Ne.symm h.1), ih h.2]

theorem isPrefix_crlf (h : w <+: cs) : crlf w <+: crlf cs := by
  obtain ⟨r, rfl⟩ := h
  exact ⟨crlf r, (crlf_append w r).symm⟩

/-! ## Texts without line feeds -/

/-- A text on one line. -/
def OneLine (w : List Char) : Prop := ∀ c ∈ w, isNewline c = false

instance : DecidablePred OneLine := fun w => List.decidableBAll (fun c => isNewline c = false) w

theorem oneLine_of_isLineEnd (h : ∀ c ∈ w, isLineEnd c = false) : OneLine w :=
  fun c hc => (Bool.or_eq_false_iff.mp (h c hc)).1

theorem OneLine.crlf_eq (h : OneLine w) : crlf w = w :=
  crlf_of_not_mem fun hmem => absurd (h _ hmem) (by decide)

theorem OneLine.head_ne {d : Char} (h : OneLine (d :: v)) : d ≠ '\n' ∧ d ≠ '\r' := by
  simpa [isNewline] using h d List.mem_cons_self

/-- **`crlf` changes nothing in front of a line feed.** -/
theorem isPrefix_crlf_iff (h : OneLine v) : v <+: crlf cs ↔ v <+: cs := by
  induction v generalizing cs with
  | nil => simp
  | cons d v ih =>
      cases cs with
      | nil => rfl
      | cons c cs =>
          by_cases hc : c = '\n'
          · subst hc
            rw [crlf_newline, List.cons_prefix_cons, List.cons_prefix_cons]
            exact iff_of_false (fun hpre => h.head_ne.2 hpre.1) (fun hpre => h.head_ne.1 hpre.1)
          · rw [crlf_cons hc, List.cons_prefix_cons, List.cons_prefix_cons,
              ih fun e he => h e (List.mem_cons_of_mem d he)]

theorem isInfix_of_crlf (h : OneLine v) (hin : v <:+: crlf cs) : v <:+: cs := by
  induction cs with
  | nil => exact hin
  | cons c cs ih =>
      by_cases hpre : v <+: c :: cs
      · exact hpre.isInfix
      · refine List.infix_cons_iff.mpr (.inr (ih ?_))
        by_cases hc : c = '\n'
        · subst hc
          rw [crlf_newline, List.infix_cons_iff, List.infix_cons_iff] at hin
          cases v with
          | nil => exact List.nil_infix
          | cons d v =>
              refine (hin.resolve_left fun hno => ?_).resolve_left fun hno => ?_
              · exact h.head_ne.2 (List.cons_prefix_cons.mp hno).1
              · exact h.head_ne.1 (List.cons_prefix_cons.mp hno).1
        · rw [crlf_cons hc, List.infix_cons_iff] at hin
          refine hin.resolve_left fun hno => hpre ?_
          rw [← isPrefix_crlf_iff h, crlf_cons hc]
          exact hno

theorem Longest.crlf (hP : ∀ v, P v → OneLine v) (h : Longest P w cs) : Longest P w (crlf cs) :=
  h.congr ((isPrefix_crlf_iff (hP w h.mem)).mpr h.isPrefix)
    fun v hv hpre => (isPrefix_crlf_iff (hP v hv)).mp hpre

theorem digitBehind_crlf_iff (h : OneLine v) : DigitBehind v (crlf cs) ↔ DigitBehind v cs := by
  refine exists_congr fun d => and_congr_right fun hd => isPrefix_crlf_iff ?_
  intro c hc
  rcases List.mem_append.mp hc with hc | hc
  · exact h c hc
  · obtain rfl := List.mem_singleton.mp hc
    exact (Bool.or_eq_false_iff.mp (Lexeme.isLineEnd_of_class (by decide) hd)).1

/-! ## What stands in a text, stands converted in the converted text -/

theorem Operator.crlf (h : Operator w cs) : Operator w (crlf cs) := by
  obtain ⟨p, hp, htext⟩ := h.longest
  have hslash : ∀ d, isNewline d = false → OneLine ['/', d] := by
    intro d hd c hc
    rcases List.mem_pair.mp hc with rfl | rfl
    · decide
    · exact hd
  have htable : ∀ p ∈ Token.punctuatorTexts, OneLine p :=
    fun p hp => oneLine_of_isLineEnd fun c hc => isLineEnd_of_mem_table hp hc
  refine ⟨⟨?_, ?_⟩, ?_, p, hp.crlf htable, ?_⟩
  · rw [isPrefix_crlf_iff (hslash '/' (by decide))]
    exact h.noComment.1
  · rw [isPrefix_crlf_iff (hslash '*' (by decide))]
    exact h.noComment.2
  · rw [digitBehind_crlf_iff (by decide)]
    exact h.noNumber
  · rwa [digitBehind_crlf_iff (htable p hp.mem)]

theorem longest_break_crlf (h : Longest Break w cs) (hr : '\r' ∉ cs) :
    Longest Break (crlf w) (crlf cs) := by
  obtain ⟨r, rfl⟩ := h.isPrefix
  rcases h.mem with rfl | ⟨c, hc, rfl⟩
  · exact absurd (by simp) hr
  · have hreturn : c ≠ '\r' := by
      rintro rfl
      exact hr (by simp)
    by_cases hfeed : c = '\n'
    · subst hfeed
      refine ⟨isPrefix_crlf (List.prefix_append _ _), .inl rfl, ?_⟩
      rintro v - (rfl | ⟨d, -, rfl⟩)
      · exact Nat.le_refl 2
      · exact Nat.le_succ 1
    · rw [crlf_append, crlf_cons hfeed]
      refine ⟨List.prefix_append _ _, .inr ⟨c, hc, rfl⟩, ?_⟩
      rintro v hv (rfl | ⟨d, -, rfl⟩)
      · exact absurd (List.cons_prefix_cons.mp hv).1.symm hreturn
      · exact Nat.le_refl 1

theorem BlockComment.crlf (h : BlockComment w) : BlockComment (crlf w) := by
  obtain ⟨body, rfl, hfirst⟩ := h
  refine ⟨Text.crlf body, ?_, fun hin => hfirst (isInfix_of_crlf (by decide) ?_)⟩
  · rw [crlf_cons (by decide), crlf_cons (by decide), crlf_append]
    rfl
  · rw [crlf_append]
    exact hin

/-- **A token stands converted at the front of the converted text**, if it is no
    string that holds one. -/
theorem munches_crlf {k : Token.Kind} (h : k.Munches w cs) (hr : '\r' ∉ cs)
    (hfold : k = .string → '\n' ∉ w) : k.Munches (crlf w) (crlf cs) := by
  have hlongest : ∀ {P : List Char → Prop}, (∀ v, P v → OneLine v) → Longest P w cs →
      Longest P (crlf w) (crlf cs) := by
    intro P hP hw
    rw [(hP w hw.mem).crlf_eq]
    exact hw.crlf hP
  have hword : Longest Word w cs ∧ Token.wordKind (String.ofList w) = k →
      Longest Word (crlf w) (crlf cs) ∧ Token.wordKind (String.ofList (crlf w)) = k := by
    rintro ⟨hw, hkind⟩
    have hline : ∀ v, Word v → OneLine v :=
      fun v hv => oneLine_of_isLineEnd fun c hc => isLineEnd_of_word hv hc
    refine ⟨hlongest hline hw, ?_⟩
    rwa [(hline w hw.mem).crlf_eq]
  cases k with
  | whiteSpace =>
      exact hlongest (fun v hv => oneLine_of_isLineEnd fun c hc => isLineEnd_of_blanks hv hc) h
  | lineBreak => exact longest_break_crlf h hr
  | lineComment => exact hlongest (fun v hv c hc => by simpa using hv.2 c hc) h
  | blockComment =>
      exact .of_prefixFree h.mem.crlf (isPrefix_crlf h.isPrefix) fun v hv => hv.eq_of_prefix h.mem.crlf
  | numeric =>
      exact hlongest (fun v hv => oneLine_of_isLineEnd fun c hc => isLineEnd_of_numeral hv hc) h
  | string =>
      have hsame : crlf w = w := crlf_of_not_mem (hfold rfl)
      have hpre : crlf w <+: crlf cs := isPrefix_crlf h.isPrefix
      rw [hsame] at hpre ⊢
      exact .of_prefixFree h.mem hpre fun v hv => hv.eq_of_prefix h.mem
  | punctuator =>
      have hline : OneLine w := oneLine_of_isLineEnd fun c hc => isLineEnd_of_operator h hc
      rw [hline.crlf_eq]
      exact Operator.crlf h
  | identifier | keyword | boolean | null => exact hword h

/-! ## What hinders a token, hinders it there too -/

/-- What is bare up to the first newline of a converted text is bare in the text. -/
theorem takeWhile_bare_crlf (hr : '\r' ∉ cs) :
    (bare (crlf cs)).takeWhile (fun c => !isNewline c) <+:
      (bare cs).takeWhile (fun c => !isNewline c) := by
  induction cs using escape_induction with
  | nil => exact List.prefix_refl _
  | lone => exact List.prefix_refl _
  | escaped d cs ih =>
      simp only [List.mem_cons, not_or] at hr
      rw [crlf_cons (by decide)]
      by_cases hd : d = '\n'
      · subst hd
        exact List.nil_prefix
      · rw [crlf_cons hd]
        exact ih hr.2.2
  | plain c cs hc ih =>
      simp only [List.mem_cons, not_or] at hr
      by_cases hfeed : c = '\n'
      · subst hfeed
        exact List.nil_prefix
      · have hline : isNewline c = false := by simp [isNewline, hfeed, Ne.symm hr.1]
        rw [crlf_cons hfeed, bare_cons hc, bare_cons hc, List.takeWhile_cons_of_pos (by simp [hline]),
          List.takeWhile_cons_of_pos (by simp [hline]), List.cons_prefix_cons]
        exact ⟨rfl, ih hr.2⟩

/-- **A line feed that a string takes along breaks it**: the backslash takes the carriage return now. -/
theorem not_closes_of_fold (hbare : ∀ c ∈ bare w, c ≠ q ∧ isNewline c = false) (hfold : '\n' ∈ w)
    (r : List Char) : ¬ Closes q (crlf w ++ r) := by
  induction w using escape_induction with
  | nil => cases hfold
  | lone => exact absurd hfold (by decide)
  | escaped d cs ih =>
      rw [crlf_cons (by decide)]
      by_cases hd : d = '\n'
      · -- the carriage return is taken along, and nothing comes before the line feed, which is bare
        subst hd
        exact List.not_mem_nil
      · rw [crlf_cons hd]
        simp only [List.mem_cons, Ne.symm hd, false_or] at hfold
        exact ih hbare (hfold.resolve_left (by decide))
  | plain c cs hc ih =>
      rw [bare_cons hc] at hbare
      obtain ⟨hquote, hline⟩ := hbare c List.mem_cons_self
      have hfeed : c ≠ '\n' := by
        rintro rfl
        cases hline
      have hopen := ih (fun d hd => hbare d (List.mem_cons_of_mem c hd))
        ((List.mem_cons.mp hfold).resolve_left (Ne.symm hfeed))
      unfold Closes at hopen ⊢
      rw [crlf_cons hfeed, List.cons_append, bare_cons hc,
        List.takeWhile_cons_of_pos (by simp [hline]), List.mem_cons, not_or]
      exact ⟨Ne.symm hquote, hopen⟩

theorem head?_crlf (hc : c ≠ '\n') (h : cs.head? = some c) : (crlf cs).head? = some c := by
  obtain ⟨r, rfl⟩ := List.head?_eq_some_iff.mp h
  rw [crlf_cons hc]
  rfl

theorem stands_crlf {f : Flaw} (h : f.Stands cs) (hr : '\r' ∉ cs) : f.Stands (crlf cs) := by
  cases f with
  | unterminatedString =>
      obtain ⟨q, r, hq, rfl, hopen⟩ := h
      refine ⟨q, crlf r, hq, crlf_cons (ne_of_isQuote hq (by decide)) r, fun hclose => hopen ?_⟩
      exact (takeWhile_bare_crlf fun hmem => hr (List.mem_cons_of_mem q hmem)).subset hclose
  | unterminatedComment =>
      obtain ⟨r, rfl, hopen⟩ := h
      refine ⟨crlf r, ?_, fun hin => hopen (isInfix_of_crlf (by decide) hin)⟩
      rw [crlf_cons (by decide), crlf_cons (by decide)]
  | templateLiteral => exact head?_crlf (by decide) h
  | unexpectedCharacter c =>
      obtain ⟨hhead, hascii, hback, hno⟩ := h
      refine ⟨head?_crlf ?_ hhead, hascii, hback, hno⟩
      -- a line feed would begin a line break
      rintro rfl
      have hfeed : Lexeme.next '\n' [] = .ok ⟨.lineBreak, ['\n'], []⟩ := by decide
      exact hno _ _ [] (Lexeme.munches_of_next hfeed)

end Text

/-! ## One step -/

namespace Lexeme
open Text

/-- What is cut from the converted text, where `l` is cut from the text. -/
def crlf (l : Lexeme) : Except Flaw Lexeme :=
  if l.kind = .string ∧ '\n' ∈ l.text then .error .unterminatedString
  else .ok ⟨l.kind, Text.crlf l.text, Text.crlf l.rest⟩

theorem crlf_eq_ok_iff {l m : Lexeme} : crlf l = .ok m ↔
    ¬ (l.kind = .string ∧ '\n' ∈ l.text) ∧ m = ⟨l.kind, Text.crlf l.text, Text.crlf l.rest⟩ := by
  unfold crlf
  split
  · next hfold => exact iff_of_false (fun h => by cases h) (fun h => h.1 hfold)
  · next hfold => rw [Except.ok.injEq, eq_comm, and_iff_right hfold]

variable {c c' : Char} {cs cs' : List Char}

/-- **A step over the converted text** is the step over the text, converted. -/
theorem next_crlf (hr : '\r' ∉ c :: cs) (h : Text.crlf (c :: cs) = c' :: cs') :
    next c' cs' = next c cs >>= crlf := by
  cases hnext : next c cs with
  | error f =>
      have hstands := stands_crlf (stands_of_next hnext) hr
      rw [h] at hstands
      exact next_of_stands hstands
  | ok l =>
      have hmunches := munches_of_next hnext
      have hall := next_text_append_rest hnext
      show next c' cs' = crlf l
      unfold crlf
      split
      · next hfold =>
          rw [hfold.1] at hmunches
          obtain ⟨q, body, hq, htext, -, hbare⟩ := hmunches.mem
          have hfeed : q ≠ '\n' := ne_of_isQuote hq (by decide)
          refine next_of_stands ⟨q, Text.crlf body ++ q :: Text.crlf l.rest, hq, ?_, ?_⟩
          · rw [← h, ← hall, htext, crlf_append, crlf_cons hfeed, crlf_append, crlf_cons hfeed]
            simp
          · refine not_closes_of_fold hbare ?_ _
            have hmem := hfold.2
            rw [htext] at hmem
            simpa [Ne.symm hfeed] using hmem
      · next hfold =>
          have hover := munches_crlf hmunches hr fun hkind hmem => hfold ⟨hkind, hmem⟩
          rw [h] at hover
          refine next_of_munches hover ?_
          rw [← h, ← hall, crlf_append]

end Lexeme
/-! ## A whole scan -/

namespace Token
open Text

variable {c : Char} {cs : List Char} {ts us : List Token}

/-- `ts` are the tokens that `cs` is cut into. -/
def Reads (cs : List Char) (ts : List Token) : Prop := Cut ts ∧ chars ts = cs

theorem scan_eq_ok_iff_reads {s : String} : scan s = .ok ts ↔ Reads s.toList ts := by
  rw [scan_eq_ok_iff, Reads, chars_eq_toList_source, String.toList_inj]

theorem reads_nil_iff : Reads [] ts ↔ ts = [] := by
  constructor
  · rintro ⟨hcut, hchars⟩
    cases hcut with
    | nil => rfl
    | @cons t ts ht hts =>
        obtain ⟨d, w, htext, -⟩ := ht
        rw [chars_cons, htext] at hchars
        cases hchars
  · rintro rfl
    exact ⟨.nil, rfl⟩

/-- **The tokens of a text are the one in front and the tokens of the rest.** -/
theorem reads_cons_iff : Reads (c :: cs) ts ↔
    ∃ l us, Lexeme.next c cs = .ok l ∧ Reads l.rest us ∧ ts = l.token :: us := by
  constructor
  · rintro ⟨hcut, hchars⟩
    cases hcut with
    | nil => cases hchars
    | @cons t ts ht hts =>
        obtain ⟨d, w, htext, hnext⟩ := ht
        rw [chars_cons, htext, List.cons_append, List.cons.injEq] at hchars
        obtain ⟨rfl, rfl⟩ := hchars
        refine ⟨_, ts, hnext, ⟨hts, rfl⟩, ?_⟩
        rw [Lexeme.token, ← htext, String.ofList_toList]
  · rintro ⟨l, us, hnext, ⟨hcut, hchars⟩, rfl⟩
    refine ⟨.cons ?_ hcut, ?_⟩
    · rw [hchars]
      exact cutBefore_token hnext
    · rw [chars_cons, hchars, ← Lexeme.next_text_append_rest hnext, Lexeme.token, String.toList_ofList]

theorem isFolded_token {l : Lexeme} : l.token.IsFolded ↔ l.kind = .string ∧ '\n' ∈ l.text := by
  rw [IsFolded, Lexeme.token, String.toList_ofList]

theorem crlf_token (l : Lexeme) : l.token.crlf = ⟨l.kind, String.ofList (Text.crlf l.text)⟩ := by
  rw [crlf, Lexeme.token, withCrlf, String.toList_ofList]

/-- **A converted text is cut into the tokens of the text, converted**, if no string among them holds a
    line feed; otherwise it cannot be cut. -/
theorem reads_crlf_iff (hr : '\r' ∉ cs) : Reads (Text.crlf cs) us ↔
    ∃ ts, Reads cs ts ∧ (∀ t ∈ ts, ¬ t.IsFolded) ∧ us = ts.map crlf := by
  -- on the text, which each token shortens
  induction hn : cs.length using Nat.strong_induction_on generalizing cs us with
  | _ n ih =>
    cases cs with
    | nil =>
        rw [crlf_nil, reads_nil_iff]
        constructor
        · rintro rfl
          exact ⟨[], reads_nil_iff.mpr rfl, by simp, rfl⟩
        · rintro ⟨ts, hts, -, rfl⟩
          rw [reads_nil_iff.mp hts, List.map_nil]
    | cons c cs =>
        obtain ⟨c', cs', hcrlf⟩ := exists_crlf_eq_cons c cs
        rw [hcrlf, reads_cons_iff, Lexeme.next_crlf hr hcrlf]
        cases hnext : Lexeme.next c cs with
        | error f =>
            constructor
            · rintro ⟨m, vs, hm, -⟩
              cases hm
            · rintro ⟨ts, hts, -⟩
              obtain ⟨l, vs, hl, -⟩ := reads_cons_iff.mp hts
              rw [hnext] at hl
              cases hl
        | ok l =>
            have hshort : l.rest.length < n := hn ▸ Lexeme.next_rest_lt hnext
            have hr' : '\r' ∉ l.rest := by
              intro hmem
              rw [← Lexeme.next_text_append_rest hnext] at hr
              exact hr (List.mem_append_right _ hmem)
            constructor
            · rintro ⟨m, vs, hm, hvs, rfl⟩
              obtain ⟨hfold, rfl⟩ := Lexeme.crlf_eq_ok_iff.mp hm
              obtain ⟨ts, hts, hall, rfl⟩ := (ih _ hshort hr' rfl).mp hvs
              refine ⟨l.token :: ts, reads_cons_iff.mpr ⟨l, ts, hnext, hts, rfl⟩, ?_, ?_⟩
              · exact List.forall_mem_cons.mpr ⟨fun h => hfold (isFolded_token.mp h), hall⟩
              · rw [List.map_cons, crlf_token]
                rfl
            · rintro ⟨ts, hts, hall, rfl⟩
              obtain ⟨l', vs, hl, hvs, rfl⟩ := reads_cons_iff.mp hts
              rw [hnext] at hl
              cases hl
              obtain ⟨hfold, hall⟩ := List.forall_mem_cons.mp hall
              refine ⟨_, vs.map crlf, Lexeme.crlf_eq_ok_iff.mpr ⟨?_, rfl⟩, ?_, ?_⟩
              · exact fun h => hfold (isFolded_token.mpr h)
              · exact (ih _ hshort hr' rfl).mpr ⟨vs, hvs, hall, rfl⟩
              · rw [List.map_cons, crlf_token]
                rfl

end Token

/-- **A converted text is scanned exactly if the text is and no string in it holds a line feed.** Its
    tokens are then those of the text, converted. -/
theorem scan_crlf_iff {s : String} (hr : '\r' ∉ s.toList) {us : List Token} :
    Token.scan (Text.withCrlf s) = .ok us ↔
      ∃ ts, Token.scan s = .ok ts ∧ (∀ t ∈ ts, ¬ t.IsFolded) ∧ us = ts.map Token.crlf := by
  simp only [Token.scan_eq_ok_iff_reads, Text.withCrlf, String.toList_ofList]
  exact Token.reads_crlf_iff hr

/-- A string may go on behind a backslash and a line feed, but not behind a backslash, a carriage return
    and a line feed. -/
theorem scan_fold :
    '\r' ∉ "'a\\\nb'".toList ∧ Token.scan "'a\\\nb'" = .ok [⟨.string, "'a\\\nb'"⟩] ∧
      Token.scan (Text.withCrlf "'a\\\nb'") = .error ⟨.unterminatedString, 0⟩ := by
  decide +kernel

end ScriptSpacing
