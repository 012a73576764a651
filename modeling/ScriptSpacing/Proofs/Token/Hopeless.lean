import ScriptSpacing.Proofs.Token.Classes

/-!
# `Proofs.Token.Hopeless` — where a scan fails, and what it has taken by then

A byte of a text is hopeless when no token begins there; `Flaw.Stands` says why from the characters alone.
A scan fails at a hopeless byte with the flaw that stands there, and a scan that succeeds begins no token
at one.

What is in front of the byte is a text of its own, whose tokens are those that the scan had taken
(`CutUpTo.cut`). Cutting off what is behind a token cannot make a longer text fit its class, so the token
stays the longest (`munches_of_isPrefix`). One token looks further: a question mark and a point are
optional chaining when the digit behind them is cut off. But a point with a digit behind it is the
beginning of a number, and no text is cut off between the two.
-/

namespace ScriptSpacing

/-- **No token begins at the byte `k` of `s`, for the reason `f`.** -/
def Hopeless (s : String) (k : Nat) (f : Flaw) : Prop :=
  ∃ r, Text.slice? s k s.utf8ByteSize = some r ∧ f.Stands r.toList

namespace Token
open Text

/-- The tokens that a scan takes until it ends or fails. -/
def scanned (cs : List Char) : List Token :=
  match cs with
  | [] => []
  | c :: cs =>
    match _h : Lexeme.next c cs with
    | .error _ => []
    | .ok l => l.token :: scanned l.rest
termination_by cs.length
decreasing_by exact Lexeme.next_rest_lt _h

/-- Each token of the list is cut from the text that begins with it, which ends with `x`. -/
inductive CutUpTo (x : List Char) : List Token → Prop where
  | nil : CutUpTo x []
  | cons {t : Token} {ts : List Token} :
      t.CutBefore (chars ts ++ x) → CutUpTo x ts → CutUpTo x (t :: ts)

/-! ## A text without its end -/

variable {k : Kind} {w cs cs' rest x : List Char} {t : Token} {ts : List Token}

/-- An operator stays the longest when what is behind it is cut off, unless the question mark of a
    conditional is left with the point of a fraction. -/
theorem operator_of_isPrefix (h : Operator w cs) (hw : w <+: cs') (hpre : cs' <+: cs)
    (hpoint : ¬ (w = ['?'] ∧ cs' = ['?', '.'] ∧ DigitBehind cs' cs)) : Operator w cs' := by
  obtain ⟨p, hp, htext⟩ := h.longest
  refine ⟨⟨fun hno => h.noComment.1 (hno.trans hpre), fun hno => h.noComment.2 (hno.trans hpre)⟩,
    fun hno => h.noNumber (hno.mono hpre), ?_⟩
  have hback : ∀ v, v ∈ punctuatorTexts → v <+: cs' → v <+: cs := fun v _ hv => hv.trans hpre
  rcases htext with ⟨⟨rfl, d, hd, hdigit⟩, rfl⟩ | ⟨hchain, rfl⟩
  · -- a conditional: what is left of the point and the digit behind the question mark
    obtain ⟨s, rfl⟩ := hw
    obtain ⟨r, rfl⟩ := id hdigit
    have hs : s <+: '.' :: d :: r := (List.prefix_append_right_inj ['?']).mp hpre
    match s with
    | [] =>
        have hone : Longest (· ∈ punctuatorTexts) ['?'] ['?'] :=
          ⟨List.prefix_refl _, by decide, fun v hv _ => hv.length_le⟩
        exact ⟨['?'], hone, .inr ⟨fun hno => absurd hno.1 (by decide), rfl⟩⟩
    | [a] =>
        obtain rfl : a = '.' := (List.cons_prefix_cons.mp hs).1
        exact absurd ⟨rfl, rfl, d, hd, hdigit⟩ hpoint
    | a :: b :: s =>
        obtain ⟨rfl, hs'⟩ := List.cons_prefix_cons.mp hs
        obtain ⟨rfl, -⟩ := List.cons_prefix_cons.mp hs'
        exact ⟨_, hp.congr (List.prefix_append ['?', '.'] _) hback,
          .inl ⟨⟨rfl, b, hd, List.prefix_append ['?', '.', b] _⟩, rfl⟩⟩
  · exact ⟨w, hp.congr hw hback, .inr ⟨fun hno => hchain ⟨hno.1, hno.2.mono hpre⟩, rfl⟩⟩

/-- **A token stays the longest of its class when what is behind it is cut off.** -/
theorem munches_of_isPrefix (h : k.Munches w cs) (hw : w <+: cs') (hpre : cs' <+: cs)
    (hpoint : ¬ (w = ['?'] ∧ cs' = ['?', '.'] ∧ DigitBehind cs' cs)) : k.Munches w cs' := by
  have hlongest : ∀ {P : List Char → Prop}, Longest P w cs → Longest P w cs' :=
    fun hP => hP.congr hw fun v _ hv => hv.trans hpre
  cases k with
  | punctuator => exact operator_of_isPrefix h hw hpre hpoint
  | identifier | keyword | boolean | null => exact ⟨hlongest h.1, h.2⟩
  | _ => exact hlongest h

theorem CutBefore.of_append (h : t.CutBefore (rest ++ x))
    (hpoint : ¬ (rest = ['.'] ∧ startsWithDigit x = true)) : t.CutBefore rest := by
  obtain ⟨c, w, htext, hnext⟩ := h
  refine ⟨c, w, htext, Lexeme.next_of_munches ?_ rfl⟩
  refine munches_of_isPrefix (Lexeme.munches_of_next hnext) (List.prefix_append (c :: w) rest) ?_ ?_
  · exact (List.prefix_append_right_inj (c :: w)).mpr (List.prefix_append rest x)
  · rintro ⟨hw, hcs, hdigit⟩
    cases hw
    obtain rfl := (List.cons.inj hcs).2
    refine hpoint ⟨rfl, (digitBehind_nil x).mp ?_⟩
    exact ((digitBehind_cons _ _).mp ((digitBehind_cons _ _).mp hdigit).2).2

/-- A point with a digit behind it does not stand alone: a number begins there. -/
theorem CutBefore.text_ne_point (h : t.CutBefore x) (hx : startsWithDigit x = true) :
    t.text.toList ≠ ['.'] := by
  intro hpoint
  obtain ⟨c, w, htext, hnext⟩ := h
  rw [hpoint] at htext
  cases htext
  obtain ⟨d, hd, r, rfl⟩ := (digitBehind_nil x).mpr hx
  have hbegins : Numeral.Begins ('.' :: ([] ++ [d] ++ r)) :=
    .inr ⟨d, hd, List.prefix_append ['.', d] r⟩
  have hfraction : Numeral ['.', d] :=
    ⟨['.', d], [], .inr ⟨['.', d], [], .fraction hd .nil, .none, rfl⟩, .inl rfl, rfl⟩
  have hle := (Numeral.longest_number hbegins).le ['.', d] (List.prefix_append ['.', d] r) hfraction
  rw [List.nil_append, Lexeme.next_number hbegins, Except.ok.injEq] at hnext
  rw [hnext] at hle
  exact absurd hle (by simp)

/-- **The tokens in front of a place are those of the text that ends there.** -/
theorem CutUpTo.cut (h : CutUpTo x ts) : Cut ts := by
  induction h with
  | nil => exact .nil
  | @cons t ts ht hts ih =>
      refine .cons (ht.of_append ?_) ih
      -- a point in front of a digit would be a token of its own
      rintro ⟨hpoint, hdigit⟩
      cases hts with
      | nil => cases hpoint
      | @cons u us hu hus =>
          obtain ⟨c, w, htext, -⟩ := id hu
          rw [chars_cons, htext, List.cons_append, List.cons.injEq, List.append_eq_nil_iff] at hpoint
          obtain ⟨rfl, rfl, hnil⟩ := hpoint
          rw [hnil] at hu
          exact hu.text_ne_point hdigit htext

/-! ## How a scan fails -/

theorem scanned_of_ok {c : Char} {l : Lexeme} (h : Lexeme.next c cs = .ok l) :
    scanned (c :: cs) = l.token :: scanned l.rest := by
  rw [scanned]
  split
  · next f hf =>
      rw [h] at hf
      cases hf
  · next m hm =>
      rw [h] at hm
      cases hm
      rfl

theorem scanned_of_error {c : Char} {f : Flaw} (h : Lexeme.next c cs = .error f) :
    scanned (c :: cs) = [] := by
  rw [scanned]
  split
  · rfl
  · next m hm =>
      rw [h] at hm
      cases hm

/-- **A scan fails behind the tokens it has taken.** -/
theorem scanFrom_eq_error {offset : Nat} {taken : List Token} {e : LexError}
    (h : scanFrom offset taken cs = .error e) :
    ∃ c r, cs = chars (scanned cs) ++ c :: r ∧ CutUpTo (c :: r) (scanned cs) ∧
      Lexeme.next c r = .error e.flaw ∧ e.offset = offset + (source (scanned cs)).utf8ByteSize := by
  fun_induction scanFrom offset taken cs with
  | case1 => cases h
  | case2 offset taken c cs f hl =>
      cases h
      rw [scanned_of_error hl]
      exact ⟨c, cs, rfl, .nil, hl, rfl⟩
  | case3 offset taken c cs l hl ih =>
      obtain ⟨d, r, hrest, hcut, hflaw, hoffset⟩ := ih h
      rw [scanned_of_ok hl]
      refine ⟨d, r, ?_, .cons ?_ hcut, hflaw, ?_⟩
      · rw [← Lexeme.next_text_append_rest hl, chars_cons, List.append_assoc, ← hrest]
        simp [Lexeme.token]
      · rw [← hrest]
        exact cutBefore_token hl
      · rw [hoffset, source_cons, String.utf8ByteSize_append, ← Nat.add_assoc]
        rfl

end Token

/-! ## Hopeless bytes -/

/-- A byte between characters is hopeless for the reason that `next` gives there. -/
theorem hopeless_append_iff {front r : String} {c : Char} {cs : List Char} (hr : r.toList = c :: cs)
    {f : Flaw} : Hopeless (front ++ r) front.utf8ByteSize f ↔ Lexeme.next c cs = .error f := by
  rw [Hopeless, ByteCursor.slice?_append_right, Lexeme.next_eq_error_iff, ← hr]
  constructor
  · rintro ⟨r', hr', hstands⟩
    cases hr'
    exact hstands
  · intro hstands
    exact ⟨r, rfl, hstands⟩

/-- **Where a scan fails, the text splits**: in front is what the scan has taken, behind it the flaw. -/
theorem Token.split_of_scan_error {s : String} {e : LexError} (h : Token.scan s = .error e) :
    ∃ p c r, s = p ++ String.ofList (c :: r) ∧ e.offset = p.utf8ByteSize ∧
      Token.scan p = .ok (Token.scanned s.toList) ∧ Lexeme.next c r = .error e.flaw := by
  obtain ⟨c, r, hs, hcut, hflaw, hoffset⟩ := Token.scanFrom_eq_error h
  refine ⟨Token.source (Token.scanned s.toList), c, r, ?_, ?_, ?_, hflaw⟩
  · apply String.ext
    rw [String.toList_append, String.toList_ofList, ← Token.chars_eq_toList_source]
    exact hs
  · rw [hoffset, Nat.zero_add]
  · exact Token.scan_eq_ok_iff.mpr ⟨hcut.cut, rfl⟩

/-- **A scan fails at a byte that is hopeless, and nowhere before.** If it fails, its offset is between
    characters and inside of the text, the flaw is the one reason for which the byte there is hopeless,
    and the text up to there is scanned into the tokens that were taken by then. If it succeeds, no token
    begins at a hopeless byte. -/
theorem scan_hopeless (s : String) :
    (∀ e, Token.scan s = .error e →
      (String.Pos.Raw.mk e.offset).IsValid s ∧ e.offset < s.utf8ByteSize ∧
      (∀ f, Hopeless s e.offset f ↔ f = e.flaw) ∧
      ∃ p, Text.slice? s 0 e.offset = some p ∧ Token.scan p = .ok (Token.scanned s.toList)) ∧
    (∀ ts, Token.scan s = .ok ts → ∀ front t back, ts = front ++ t :: back →
      ∀ f, ¬ Hopeless s (Token.source front).utf8ByteSize f) := by
  constructor
  · intro e he
    obtain ⟨c, r, hs, hcut, hflaw, hoffset⟩ := Token.scanFrom_eq_error he
    -- the text is that of the tokens taken, and what the flaw stands in front of
    obtain ⟨p, hp⟩ : ∃ p, p = Token.source (Token.scanned s.toList) := ⟨_, rfl⟩
    have hsplit : s = p ++ String.ofList (c :: r) := by
      apply String.ext
      rw [String.toList_append, String.toList_ofList, hp, ← Token.chars_eq_toList_source]
      exact hs
    rw [Nat.zero_add, ← hp] at hoffset
    have hinside : 0 < (String.ofList (c :: r)).utf8ByteSize := by
      rw [String.utf8ByteSize_ofList, String.utf8Len_cons]
      have := c.utf8Size_pos
      omega
    refine ⟨?_, ?_, fun f => ?_, p, ?_, ?_⟩
    · exact String.Pos.Raw.isValid_iff_exists_append.mpr
        ⟨p, String.ofList (c :: r), hsplit, by rw [hoffset]; rfl⟩
    · rw [hoffset, hsplit, String.utf8ByteSize_append]
      omega
    · rw [hoffset, hsplit, hopeless_append_iff String.toList_ofList, hflaw, Except.error.injEq, eq_comm]
    · have hslice := ByteCursor.slice?_append "" p (String.ofList (c :: r))
      rwa [String.empty_append, ← hsplit, String.utf8ByteSize_empty, ← hoffset] at hslice
    · exact Token.scan_eq_ok_iff.mpr ⟨hcut.cut, hp.symm⟩
  · rintro ts hts front t back rfl f hf
    obtain ⟨hcut, hsource⟩ := Token.scan_eq_ok_iff.mp hts
    obtain ⟨c, w, htext, hnext⟩ := hcut.of_append.head
    have hrest : (Token.source (t :: back)).toList = c :: (w ++ Token.chars back) := by
      rw [← Token.chars_eq_toList_source, Token.chars_cons, htext, List.cons_append]
    rw [← hsource, Token.source_append, hopeless_append_iff hrest, hnext] at hf
    cases hf

/-- The backslash takes nothing along at the end of a text. -/
theorem scan_hopeless_escape :
    Token.scan "é?'\\" = .error ⟨.unterminatedString, 3⟩ ∧
      Hopeless "é?'\\" 3 .unterminatedString ∧
      ∃ p, Text.slice? "é?'\\" 0 3 = some p ∧ Token.scan p = .ok (Token.scanned "é?'\\".toList) := by
  have hscan : Token.scan "é?'\\" = .error ⟨.unterminatedString, 3⟩ := by decide +kernel
  obtain ⟨-, -, hreason, hfront⟩ := (scan_hopeless "é?'\\").1 _ hscan
  exact ⟨hscan, (hreason _).mpr rfl, hfront⟩

end ScriptSpacing
