import ScriptSpacing.Proofs.Token.Cut
import ScriptSpacing.Proofs.Token.Gaps
import ScriptSpacing.Token.Scan

/-!
# `Proofs.Token.Recut` — lists of tokens that their own text is cut into

`Cut ts` says that each token of `ts` is what `Lexeme.next` takes from the text that begins with it. It is
`Token.scan` read as a property of the tokens (`scan_eq_ok_iff`), and it is carried from a list to a
changed one by working from the back: a token is cut again when the text behind it looks the same to it.

`Cut.resize` is the case that spacing needs. Whitespace beside a parenthesis can be made any number of
spaces: the parenthesis and the blanks both end every lookahead, and a line comment ends at neither, so
there is none in front of them.
-/

namespace ScriptSpacing

/-- The texts of brackets. -/
def brackets : List String := ["(", ")", "[", "]", "\x7b", "\x7d"]

namespace Token
open Text

/-- The characters of a list of tokens. -/
def chars (ts : List Token) : List Char := ts.flatMap (·.text.toList)

/-- `t` is what is cut from its own text with `rest` behind it. -/
def CutBefore (t : Token) (rest : List Char) : Prop :=
  ∃ c w, t.text.toList = c :: w ∧ Lexeme.next c (w ++ rest) = .ok ⟨t.kind, c :: w, rest⟩

/-- **Each token of the list is cut from the text that begins with it.** -/
inductive Cut : List Token → Prop where
  | nil : Cut []
  | cons {t : Token} {ts : List Token} : t.CutBefore (chars ts) → Cut ts → Cut (t :: ts)

@[simp] theorem chars_nil : chars [] = [] := rfl

@[simp] theorem chars_cons (t : Token) (ts : List Token) :
    chars (t :: ts) = t.text.toList ++ chars ts := rfl

@[simp] theorem chars_append (ts us : List Token) : chars (ts ++ us) = chars ts ++ chars us :=
  List.flatMap_append

theorem chars_eq_toList_source (ts : List Token) : chars ts = (source ts).toList :=
  (toList_source ts).symm

/-! ## Scanning -/

theorem cutBefore_token {c : Char} {cs : List Char} {l : Lexeme} (h : Lexeme.next c cs = .ok l) :
    l.token.CutBefore l.rest := by
  have htext := Lexeme.next_text_append_rest h
  obtain ⟨d, w, hw⟩ := List.exists_cons_of_ne_nil (Lexeme.next_text_ne_nil h)
  rw [hw, List.cons_append, List.cons.injEq] at htext
  obtain ⟨rfl, rfl⟩ := htext
  exact ⟨d, w, by simp [Lexeme.token, hw], by rw [h, ← hw]; rfl⟩

/-- What a scan adds to the tokens already taken is cut from the text it was given. -/
theorem cut_of_scanFrom {offset : Nat} {taken ts : List Token} {cs : List Char}
    (h : scanFrom offset taken cs = .ok ts) :
    ∃ us, ts = taken.reverse ++ us ∧ Cut us ∧ chars us = cs := by
  fun_induction scanFrom offset taken cs with
  | case1 offset taken =>
      cases h
      exact ⟨[], by simp, .nil, rfl⟩
  | case2 => cases h
  | case3 offset taken c cs l hl ih =>
      obtain ⟨us, rfl, hcut, hchars⟩ := ih h
      refine ⟨l.token :: us, by simp, .cons ?_ hcut, ?_⟩
      · rw [hchars]
        exact cutBefore_token hl
      · rw [chars_cons, hchars, ← Lexeme.next_text_append_rest hl]
        simp [Lexeme.token]

/-- A scan takes the tokens of a cut list one by one. -/
theorem scanFrom_of_cut {us : List Token} (h : Cut us) (offset : Nat) (taken : List Token) :
    scanFrom offset taken (chars us) = .ok (taken.reverse ++ us) := by
  induction h generalizing offset taken with
  | nil => rw [chars_nil, scanFrom, List.append_nil]
  | @cons t us ht _ ih =>
      obtain ⟨c, w, htext, hnext⟩ := ht
      have htoken : (⟨t.kind, String.ofList (c :: w)⟩ : Token) = t := by
        rw [← htext, String.ofList_toList]
      rw [chars_cons, htext, List.cons_append, scanFrom]
      split
      · next e he => rw [hnext] at he; cases he
      · next l hl =>
          rw [hnext] at hl
          cases hl
          simp only [Lexeme.token, htoken]
          rw [ih]
          simp

/-- **A scan succeeds with the one list of tokens that its text is cut into.** -/
theorem scan_eq_ok_iff {s : String} {ts : List Token} :
    scan s = .ok ts ↔ Cut ts ∧ source ts = s := by
  constructor
  · intro h
    obtain ⟨us, rfl, hcut, -⟩ := cut_of_scanFrom h
    exact ⟨hcut, source_scan h⟩
  · rintro ⟨hcut, rfl⟩
    have := scanFrom_of_cut hcut 0 []
    rwa [chars_eq_toList_source] at this

/-! ## What a token in a cut list begins with -/

namespace Cut

variable {A B G ts : List Token} {t x y : Token}

theorem of_append (h : Cut (A ++ B)) : Cut B := by
  induction A with
  | nil => exact h
  | cons a A ih =>
      cases h with
      | cons _ h => exact ih h

theorem head (h : Cut (t :: ts)) : t.CutBefore (chars ts) := by
  cases h with
  | cons ht _ => exact ht

theorem tail (h : Cut (t :: ts)) : Cut ts := of_append (A := [t]) h

/-- Each token of a cut list is cut from some text. -/
theorem exists_cutBefore (h : Cut ts) (ht : t ∈ ts) : ∃ rest, t.CutBefore rest := by
  obtain ⟨A, B, rfl⟩ := List.append_of_mem ht
  exact ⟨chars B, h.of_append.head⟩

/-- A token of a cut list has a text. -/
theorem text_ne (h : Cut ts) (ht : t ∈ ts) : t.text ≠ "" := by
  obtain ⟨rest, c, w, htext, -⟩ := h.exists_cutBefore ht
  intro hempty
  rw [hempty] at htext
  cases htext

end Cut

section CutBefore

variable {t : Token} {rest rest' : List Char}

/-- A whitespace token begins with a blank, and no other token does. -/
theorem CutBefore.isSolid_iff (h : t.CutBefore rest) :
    t.isSolid = false ↔ ∃ c w, t.text.toList = c :: w ∧ isBlank c = true := by
  obtain ⟨c, w, htext, hnext⟩ := h
  have hkind : t.kind = .whiteSpace ↔ isBlank c = true := Lexeme.kind_eq_whiteSpace_iff hnext
  rw [isSolid, isWhiteSpace, Bool.not_eq_false', decide_eq_true_eq, hkind, htext]
  constructor
  · intro hc
    exact ⟨c, w, rfl, hc⟩
  · rintro ⟨d, v, hd, hblank⟩
    rwa [(List.cons.inj hd).1]

theorem cutBefore_open (htext : t.text = "(") (hkind : t.kind = .punctuator) (rest : List Char) :
    t.CutBefore rest :=
  ⟨'(', [], by rw [htext]; rfl, by rw [hkind]; exact Lexeme.next_bracket (by decide) rest⟩

/-- **A token whose text is a bracket is a punctuator.** -/
theorem CutBefore.kind_of_bracket (h : t.CutBefore rest) (ht : t.text ∈ brackets) :
    t.kind = .punctuator := by
  obtain ⟨c, w, htext, hnext⟩ := h
  have hchars : brackets.all (fun s => ['(', ')', '[', ']', '\x7b', '\x7d'].any (s.toList == [·])) =
      true := by decide
  obtain ⟨b, hb, hs⟩ := List.any_eq_true.mp (List.all_eq_true.mp hchars t.text ht)
  rw [eq_of_beq hs] at htext
  cases htext
  rw [List.nil_append, Lexeme.next_bracket hb] at hnext
  injection hnext with hnext
  exact (congrArg Lexeme.kind hnext).symm

/-- Every bracket of a cut list is a punctuator. -/
theorem Cut.kind_of_bracket {ts : List Token} (h : Cut ts) (ht : t ∈ ts) (hb : t.text ∈ brackets) :
    t.kind = .punctuator := by
  obtain ⟨rest, hcut⟩ := h.exists_cutBefore ht
  exact hcut.kind_of_bracket hb

/-- A line comment goes on to the end of its line, so nothing neutral stands behind it. -/
theorem CutBefore.not_lineComment (h : t.CutBefore rest) (hrest : Stops rest) (hne : rest ≠ []) :
    t.kind ≠ .lineComment := by
  intro hk
  obtain ⟨c, w, -, hnext⟩ := h
  obtain ⟨d, r, rfl⟩ := List.exists_cons_of_ne_nil hne
  have hend : isNewline d = true := Lexeme.isNewline_of_lineComment hnext hk d rfl
  have hneutral : isNeutral d = true := hrest d rfl
  simp only [isNewline, Bool.or_eq_true, decide_eq_true_eq] at hend
  rcases hend with rfl | rfl
  · exact absurd hneutral (by decide)
  · exact absurd hneutral (by decide)

/-- **A token is cut again** when the text behind it looks the same to it. -/
theorem CutBefore.congr (h : t.CutBefore rest) (hahead : ahead rest' = ahead rest)
    (hhead : t.kind = .whiteSpace ∨ t.kind = .lineComment → rest'.head? = rest.head?) :
    t.CutBefore rest' := by
  obtain ⟨c, w, htext, hnext⟩ := h
  exact ⟨c, w, htext, Lexeme.next_congr hnext rfl hahead hhead⟩

/-- Spaces are cut as one token, unless a blank stands behind them. -/
theorem cutBefore_spaces {n : Nat} (hn : n ≠ 0) (hrest : ∀ c ∈ rest.head?, isBlank c = false) :
    (spaces n).CutBefore rest := by
  obtain ⟨m, rfl⟩ := Nat.exists_eq_succ_of_ne_zero hn
  refine ⟨' ', List.replicate m ' ', by simp [spaces, List.replicate_succ], ?_⟩
  have hall : ∀ c ∈ ' ' :: List.replicate m ' ', isBlank c = true := by
    intro c hc
    rw [← List.replicate_succ] at hc
    rw [List.eq_of_mem_replicate hc]
    decide
  have halone : (Lexeme.run .whiteSpace isBlank ((' ' :: List.replicate m ' ') ++ [])).rest = [] := by
    simp only [Lexeme.run, List.append_nil, List.dropWhile_eq_nil_iff]
    exact hall
  have hrun := Lexeme.run_congr halone hrest
  show Lexeme.next ' ' _ = _
  rw [Lexeme.next, if_pos (by decide), ← List.cons_append, hrun]
  rfl

/-- No blank stands behind whitespace. -/
theorem CutBefore.not_isBlank_behind (h : t.CutBefore rest) (ht : t.isSolid = false) :
    ∀ c ∈ rest.head?, isBlank c = false := by
  obtain ⟨d, v, hd, hblank⟩ := h.isSolid_iff.mp ht
  obtain ⟨c, w, htext, hnext⟩ := h
  rw [hd] at htext
  obtain ⟨rfl, -⟩ := List.cons.inj htext
  rcases Lexeme.next_cases hnext with ⟨-, hrun⟩ | ⟨hno, -⟩ | ⟨hno, -⟩ | ⟨hno, -⟩ | ⟨hno, -⟩
  · have hrest : rest = (Lexeme.run .whiteSpace isBlank (d :: (w ++ rest))).rest :=
      congrArg Lexeme.rest hrun
    rw [hrest]
    exact Lexeme.head_of_run_rest .whiteSpace isBlank _
  all_goals
    rw [hblank] at hno
    cases hno

end CutBefore

/-! ## The gaps of a cut list -/

namespace Cut

variable {ts us G H : List Token} {t u : Token}

/-- A whitespace token has no other directly behind it. -/
theorem isSolid_of_blank (h : Cut (t :: u :: ts)) (ht : t.isSolid = false) : u.isSolid = true := by
  by_contra hu
  obtain ⟨c, w, htext, hblank⟩ := h.tail.head.isSolid_iff.mp (Bool.not_eq_true _ ▸ hu)
  have hno := h.head.not_isBlank_behind ht c (by rw [chars_cons, htext]; rfl)
  rw [hblank] at hno
  cases hno

/-- **A gap is one whitespace token or none.** -/
theorem length_le_one_of_mem_gaps (h : Cut ts) (hG : G ∈ gaps ts) : G.length ≤ 1 := by
  induction ts generalizing G with
  | nil =>
      rw [gaps, List.mem_singleton] at hG
      rw [hG]
      exact Nat.zero_le 1
  | cons t ts ih =>
      rw [gaps] at hG
      split at hG
      · rcases List.mem_cons.mp hG with rfl | hG
        · exact Nat.zero_le 1
        · exact ih h.tail hG
      · next ht =>
          -- behind the whitespace comes a solid token or nothing, so its gap is not longer
          have hhead : ∃ gs, gaps ts = [] :: gs := by
            cases ts with
            | nil => exact ⟨[], rfl⟩
            | cons u ts =>
                exact ⟨gaps ts, gaps_cons_of_isSolid (h.isSolid_of_blank (by simpa using ht)) ts⟩
          obtain ⟨gs, hgs⟩ := hhead
          rw [hgs, List.modifyHead_cons] at hG
          rcases List.mem_cons.mp hG with rfl | hG
          · exact Nat.le_refl 1
          · exact ih h.tail (by rw [hgs]; exact List.mem_cons_of_mem [] hG)

/-- A gap has no token, or one that is whitespace. -/
theorem gap_cases (h : Cut ts) (hG : G ∈ gaps ts) :
    G = [] ∨ ∃ text, G = [⟨.whiteSpace, text⟩] ∧ text ≠ "" := by
  have hlen := h.length_le_one_of_mem_gaps hG
  cases G with
  | nil => exact .inl rfl
  | cons t G =>
      obtain rfl : G = [] := List.length_eq_zero_iff.mp (by simpa using hlen)
      obtain ⟨hmem, hblank⟩ := isSolid_of_mem_gaps hG List.mem_cons_self
      have htext := h.text_ne hmem
      obtain ⟨kind, text⟩ := t
      obtain rfl : kind = .whiteSpace := by simpa [isSolid, isWhiteSpace] using hblank
      exact .inr ⟨text, rfl, htext⟩

/-- **The text of a gap determines it.** -/
theorem eq_of_source_gap (h : Cut ts) (h' : Cut us) (hG : G ∈ gaps ts) (hH : H ∈ gaps us)
    (hsource : source G = source H) : G = H := by
  have hsingle : ∀ text, source [⟨.whiteSpace, text⟩] = text := fun text => String.empty_append
  rcases h.gap_cases hG with rfl | ⟨v, rfl, hv⟩
  · rcases h'.gap_cases hH with rfl | ⟨w, rfl, hw⟩
    · rfl
    · rw [hsingle] at hsource
      exact absurd hsource.symm hw
  · rcases h'.gap_cases hH with rfl | ⟨w, rfl, hw⟩
    · rw [hsingle] at hsource
      exact absurd hsource hv
    · rw [hsingle, hsingle] at hsource
      rw [hsource]

/-- Gaps with one text are one gap. -/
theorem gapText_eq_iff (h : Cut ts) (h' : Cut us) (g : Nat) :
    gapText ts g = gapText us g ↔ (gaps ts)[g]? = (gaps us)[g]? := by
  constructor
  · intro htext
    unfold gapText at htext
    cases hG : (gaps ts)[g]? with
    | none =>
        rw [hG] at htext
        exact (Option.map_eq_none_iff.mp htext.symm).symm
    | some G =>
        rw [hG] at htext
        obtain ⟨H, hH, hsource⟩ := Option.map_eq_some_iff.mp htext.symm
        rw [hH, h.eq_of_source_gap h' (List.mem_of_getElem? hG) (List.mem_of_getElem? hH) hsource.symm]
  · intro hgap
    rw [gapText, gapText, hgap]

end Cut

/-! ## Resizing whitespace beside a parenthesis -/

namespace Cut

variable {A B B' G : List Token} {x y : Token}

/-- **A change behind some tokens leaves them cut as they were**, when what comes first is the same and
    looks the same. -/
theorem append_congr (h : Cut (A ++ B)) (hB' : Cut B')
    (hahead : ahead (chars B') = ahead (chars B)) (hhead : (chars B').head? = (chars B).head?) :
    Cut (A ++ B') := by
  induction A with
  | nil => exact hB'
  | cons a A ih =>
      have hlook : ahead (chars (A ++ B')) = ahead (chars (A ++ B)) := by
        rw [chars_append, chars_append]
        exact ahead_append_congr _ hahead
      have hfirst : (chars (A ++ B')).head? = (chars (A ++ B)).head? := by
        rw [chars_append, chars_append, List.head?_append, List.head?_append, hhead]
      exact .cons (h.head.congr hlook fun _ => hfirst) (ih h.tail)

/-- What follows whitespace, or nothing, before a closing parenthesis stops every lookahead. -/
theorem stops_of_close (h : Cut (G ++ y :: B)) (hG : ∀ t ∈ G, t.isSolid = false)
    (hy : y.text = ")") : Stops (chars (G ++ y :: B)) ∧ chars (G ++ y :: B) ≠ [] := by
  cases G with
  | nil =>
      rw [List.nil_append, chars_cons, hy]
      exact ⟨fun c hc => by cases hc; decide, by simp⟩
  | cons g G =>
      obtain ⟨c, w, htext, hblank⟩ := h.head.isSolid_iff.mp (hG g List.mem_cons_self)
      rw [List.cons_append, chars_cons, htext]
      refine ⟨fun d hd => ?_, by simp⟩
      obtain rfl : c = d := by simpa using hd
      simp [isNeutral, hblank]

/-- Spaces can be put in front of anything solid. -/
theorem blankRun_append (h : Cut (y :: B)) (hy : y.isSolid = true) (n : Nat) :
    Cut (blankRun n ++ y :: B) := by
  unfold blankRun
  split
  · exact h
  · next hn =>
      have hhead : ∀ c ∈ (chars (y :: B)).head?, isBlank c = false := by
        intro c hc
        obtain ⟨d, w, htext, -⟩ := id h.head
        rw [chars_cons, htext] at hc
        obtain rfl : d = c := by simpa using hc
        cases hblank : isBlank d with
        | false => rfl
        | true =>
            have hblankY : y.isSolid = false := h.head.isSolid_iff.mpr ⟨d, w, htext, hblank⟩
            rw [hy] at hblankY
            cases hblankY
      exact .cons (cutBefore_spaces hn hhead) h

/-- **Whitespace beside a parenthesis can be resized**: its inner side, behind an opening one or in front
    of a closing one. -/
theorem resize (h : Cut (A ++ x :: (G ++ y :: B))) (hx : x.isSolid = true) (hy : y.isSolid = true)
    (hG : ∀ t ∈ G, t.isSolid = false) (hparen : x.text = "(" ∨ y.text = ")") (n : Nat) :
    Cut (A ++ x :: (blankRun n ++ y :: B)) := by
  -- from the back: the spaces and `y`, then `x`, then what is in front of it
  have hback : Cut (blankRun n ++ y :: B) := h.of_append.tail.of_append.blankRun_append hy n
  have hxcut := h.of_append.head
  obtain ⟨c, w, htext, -⟩ := id hxcut
  rcases hparen with hopen | hclose
  -- an opening parenthesis is cut alone and hides what is behind it
  · have hkind := hxcut.kind_of_bracket (by rw [hopen]; decide)
    have hstops : ∀ r, Stops (x.text.toList ++ r) := by
      intro r c hc
      rw [hopen] at hc
      cases hc
      decide
    refine h.append_congr (.cons (cutBefore_open hopen hkind _) hback) ?_ ?_
    · rw [chars_cons, chars_cons, ahead_of_stops (hstops _), ahead_of_stops (hstops _)]
    · rw [chars_cons, chars_cons, htext]
      rfl
  -- in front of a closing one, a blank or the parenthesis itself ends what `x` can see
  · obtain ⟨hstops, hne⟩ := stops_of_close h.of_append.tail hG hclose
    obtain ⟨hstops', -⟩ := stops_of_close hback (fun t ht => isSolid_of_mem_blankRun ht) hclose
    have hx' : x.CutBefore (chars (blankRun n ++ y :: B)) := by
      refine hxcut.congr ?_ ?_
      · rw [ahead_of_stops hstops, ahead_of_stops hstops']
      · rintro (hk | hk)
        · simp [isSolid, isWhiteSpace, hk] at hx
        · exact absurd hk (hxcut.not_lineComment hstops hne)
    refine h.append_congr (.cons hx' hback) ?_ ?_
    · rw [chars_cons, chars_cons]
      exact ahead_append_of_stops _ hstops' hstops
    · rw [chars_cons, chars_cons, htext]
      rfl

end Cut
end Token
end ScriptSpacing
