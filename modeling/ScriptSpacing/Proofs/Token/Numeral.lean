import ScriptSpacing.Proofs.Token.Longest
import ScriptSpacing.Token.Lexeme

/-!
# `Proofs.Token.Numeral` — the texts of numbers, and the longest of them

The grammar of a number is stated here by its parts: a hexadecimal one, or a mantissa with an exponent or
none, and the suffix of a big integer behind either. The cutters of `Lexeme` take the parts one by one,
each as long as it can be. That this gives the longest number as a whole (`longest_number`) rests on the
letters: no part begins with a character that the part before it may hold, an `e` apart from the
hexadecimal digits, which no exponent follows.
-/

namespace ScriptSpacing

/-! ## Digits ahead -/

namespace Text

/-- Some digit stands behind `front` at the start of a text. -/
def DigitBehind (front cs : List Char) : Prop := ∃ d, isDigit d = true ∧ front ++ [d] <+: cs

theorem DigitBehind.mono {front cs cs' : List Char} (h : DigitBehind front cs) (hpre : cs <+: cs') :
    DigitBehind front cs' := by
  obtain ⟨d, hd, hfront⟩ := h
  exact ⟨d, hd, hfront.trans hpre⟩

theorem digitBehind_nil (cs : List Char) : DigitBehind [] cs ↔ startsWithDigit cs = true := by
  cases cs with
  | nil => simp [DigitBehind, startsWithDigit]
  | cons c cs => simp [DigitBehind, startsWithDigit, List.cons_prefix_cons]

theorem digitBehind_cons {a c : Char} (front cs : List Char) :
    DigitBehind (a :: front) (c :: cs) ↔ a = c ∧ DigitBehind front cs := by
  simp only [DigitBehind, List.cons_append, List.cons_prefix_cons]
  constructor
  · rintro ⟨d, hd, rfl, hpre⟩
    exact ⟨rfl, d, hd, hpre⟩
  · rintro ⟨rfl, d, hd, hpre⟩
    exact ⟨d, hd, rfl, hpre⟩

end Text

namespace Numeral
open Text Lexeme

/-! ## The grammar -/

/-- A point with digits and gaps behind it, or nothing. -/
def Point (w : List Char) : Prop := w = [] ∨ ∃ fs, All isDigitOrGap fs ∧ w = '.' :: fs

/-- What stands in front of an exponent: a whole part, with a point and a fraction or without, or a point
    and a fraction. -/
inductive Mantissa : List Char → Prop where
  | whole {d : Char} {ds p : List Char} :
      isDigit d = true → All isDigitOrGap ds → Point p → Mantissa (d :: ds ++ p)
  | fraction {d : Char} {fs : List Char} :
      isDigit d = true → All isDigitOrGap fs → Mantissa ('.' :: d :: fs)

/-- A sign, or none. -/
def Sign (w : List Char) : Prop := w = [] ∨ w = ['+'] ∨ w = ['-']

/-- A mark, a sign or none, and at least one digit; or nothing. -/
inductive Exponent : List Char → Prop where
  | none : Exponent []
  | power {e d : Char} {sg ds : List Char} :
      e = 'e' ∨ e = 'E' → Sign sg → isDigit d = true → All isDigit ds → Exponent (e :: (sg ++ d :: ds))

/-- The marker `0x` or `0X` and hexadecimal digits and gaps. -/
inductive Hexadecimal : List Char → Prop where
  | mk {x : Char} {ds : List Char} :
      x = 'x' ∨ x = 'X' → All isHexDigitOrGap ds → Hexadecimal ('0' :: x :: ds)

/-- A number in the decimal system. -/
def Decimal : List Char → Prop := Then Mantissa Exponent

/-- A number without its suffix. -/
def Magnitude (w : List Char) : Prop := Hexadecimal w ∨ Decimal w

/-- The suffix of a big integer, or none. -/
def Suffix (w : List Char) : Prop := w = [] ∨ w = ['n']

end Numeral

/-- **The texts of numbers.** -/
def Numeral : List Char → Prop := Text.Then Numeral.Magnitude Numeral.Suffix

namespace Numeral
open Text Lexeme

/-! ## The characters of the parts -/

theorem isDigitOrGap_of_isDigit {c : Char} (h : isDigit c = true) : isDigitOrGap c = true := by
  rw [isDigitOrGap, h]
  rfl

theorem Mantissa.chars {w : List Char} (h : Mantissa w) :
    ∀ c ∈ w, isDigitOrGap c = true ∨ c = '.' := by
  intro c hc
  cases h with
  | whole hd hds hp =>
      rcases List.mem_append.mp hc with hc | hc
      · rcases List.mem_cons.mp hc with rfl | hc
        · exact .inl (isDigitOrGap_of_isDigit hd)
        · exact .inl (hds c hc)
      · rcases hp with rfl | ⟨fs, hfs, rfl⟩
        · cases hc
        · exact (List.mem_cons.mp hc).symm.imp (hfs c) id
  | fraction hd hfs =>
      rcases List.mem_cons.mp hc with rfl | hc
      · exact .inr rfl
      · rcases List.mem_cons.mp hc with rfl | hc
        · exact .inl (isDigitOrGap_of_isDigit hd)
        · exact .inl (hfs c hc)

theorem Exponent.chars {w : List Char} (h : Exponent w) :
    ∀ c ∈ w, isDigit c = true ∨ c ∈ ['e', 'E', '+', '-'] := by
  intro c hc
  cases h with
  | none => cases hc
  | power he hsg hd hds =>
      rcases List.mem_cons.mp hc with rfl | hc
      · rcases he with rfl | rfl
        · exact .inr (by decide)
        · exact .inr (by decide)
      rcases List.mem_append.mp hc with hc | hc
      · rcases hsg with rfl | rfl | rfl
        · cases hc
        · exact .inr (by simp_all)
        · exact .inr (by simp_all)
      · rcases List.mem_cons.mp hc with rfl | hc
        · exact .inl hd
        · exact .inl (hds c hc)

/-- The letters of a decimal number are its exponent's mark only. -/
theorem Decimal.chars {w : List Char} (h : Decimal w) :
    ∀ c ∈ w, isDigitOrGap c = true ∨ c ∈ ['.', 'e', 'E', '+', '-'] := by
  obtain ⟨a, b, ha, hb, rfl⟩ := h
  intro c hc
  rcases List.mem_append.mp hc with hc | hc
  · rcases ha.chars c hc with hgap | rfl
    · exact .inl hgap
    · exact .inr (by decide)
  · rcases hb.chars c hc with hdigit | hmem
    · exact .inl (isDigitOrGap_of_isDigit hdigit)
    · exact .inr (List.mem_cons_of_mem _ hmem)

/-- No number holds the suffix before its end. -/
theorem Magnitude.ne_n {w : List Char} (h : Magnitude w) : ∀ c ∈ w, c ≠ 'n' := by
  rintro c hc rfl
  rcases h with h | h
  · cases h with
    | mk hx hds =>
        rcases List.mem_cons.mp hc with hzero | hc
        · exact absurd hzero (by decide)
        rcases List.mem_cons.mp hc with rfl | hc
        · rcases hx with hx | hx
          · exact absurd hx (by decide)
          · exact absurd hx (by decide)
        · exact absurd (hds 'n' hc) (by decide)
  · rcases h.chars 'n' hc with hgap | hmem
    · exact absurd hgap (by decide)
    · exact absurd hmem (by decide)

/-- The letters of a number: hexadecimal digits, its marks and its suffix. -/
theorem chars {w : List Char} (h : Numeral w) :
    ∀ c ∈ w, isHexDigitOrGap c = true ∨ c ∈ ['x', 'X', '.', 'e', 'E', '+', '-', 'n'] := by
  have hdigit : ∀ c, isDigitOrGap c = true → isHexDigitOrGap c = true := by
    intro c hc
    rcases Bool.or_eq_true_iff.mp hc with hc | hc
    · rw [isHexDigitOrGap, isHexDigit, hc]
      rfl
    · rw [isHexDigitOrGap, hc, Bool.or_true]
  obtain ⟨m, s, hm, hs, rfl⟩ := h
  intro c hc
  rcases List.mem_append.mp hc with hc | hc
  · rcases hm with hm | hm
    · cases hm with
      | mk hx hds =>
          rcases List.mem_cons.mp hc with rfl | hc
          · exact .inl (by decide)
          rcases List.mem_cons.mp hc with rfl | hc
          · exact .inr (hx.elim (fun h => by simp [h]) (fun h => by simp [h]))
          · exact .inl (hds c hc)
    · exact (hm.chars c hc).imp (hdigit c) fun hmem =>
        List.mem_append_left ['n'] (List.mem_append_right ['x', 'X'] hmem)
  · rcases hs with rfl | rfl
    · cases hc
    · exact .inr (by simp_all)

/-- **A decimal number stops at the marker of a hexadecimal one.** -/
theorem Decimal.length_le_one {v r : List Char} {x : Char} (h : Decimal v) (hx : x = 'x' ∨ x = 'X')
    (hpre : v <+: '0' :: x :: r) : v.length ≤ 1 := by
  match v with
  | [] => exact Nat.zero_le _
  | [_] => exact Nat.le_refl _
  | c :: d :: v =>
      have hd : d = x := (List.cons_prefix_cons.mp (List.cons_prefix_cons.mp hpre).2).1
      have hno := h.chars d (by simp)
      rcases hx with rfl | rfl
      · subst hd
        exact absurd hno (by decide)
      · subst hd
        exact absurd hno (by decide)

/-! ## Each part is taken as long as it can be -/

theorem longest_fraction (cs : List Char) : Longest Point (fraction cs).1 cs := by
  unfold fraction
  split
  · next cs =>
      refine ⟨List.prefix_cons_inj _ |>.mpr (List.takeWhile_prefix _),
        .inr ⟨_, (longest_takeWhile isDigitOrGap cs).mem, rfl⟩, ?_⟩
      rintro v hv (rfl | ⟨fs, hfs, rfl⟩)
      · exact Nat.zero_le _
      · exact Nat.succ_le_succ
          ((longest_takeWhile isDigitOrGap cs).le fs (List.cons_prefix_cons.mp hv).2 hfs)
  · next hno =>
      refine ⟨List.nil_prefix, .inl rfl, ?_⟩
      rintro v hv (rfl | ⟨fs, -, rfl⟩)
      · exact Nat.le_refl _
      · obtain ⟨r, hr⟩ := hv
        exact absurd hr.symm (hno _)

/-- A sign in front of a digit is taken off. -/
theorem sign_append_digit {sg : List Char} (h : Sign sg) {d : Char} (hd : isDigit d = true)
    (r : List Char) : sign (sg ++ d :: r) = (sg, d :: r) := by
  rcases h with rfl | rfl | rfl
  · unfold sign
    split
    · next hplus =>
        cases hplus
        exact absurd hd (by decide)
    · next hminus =>
        cases hminus
        exact absurd hd (by decide)
    · rfl
  · rfl
  · rfl

theorem sign_sign (cs : List Char) : Sign (sign cs).1 := by
  unfold sign
  split
  · exact .inr (.inl rfl)
  · exact .inr (.inr rfl)
  · exact .inl rfl

/-- Whatever exponent a text begins with, its mark, its sign and its first digit are found. -/
theorem exponent_append_digit {e d : Char} {sg : List Char} (he : e = 'e' ∨ e = 'E') (hsg : Sign sg)
    (hd : isDigit d = true) (r : List Char) :
    (exponent (e :: (sg ++ d :: r))).1 = e :: (sg ++ (d :: r).takeWhile isDigit) := by
  have hmark : ((decide (e = 'e') || decide (e = 'E')) && startsWithDigit (d :: r)) = true := by
    simpa [startsWithDigit, hd] using he
  simp only [exponent, sign_append_digit hsg hd, hmark, if_true, List.cons_append]

theorem longest_exponent (cs : List Char) : Longest Exponent (exponent cs).1 cs := by
  refine ⟨⟨_, exponent_append cs⟩, ?_, ?_⟩
  · unfold exponent
    split
    · next c cs =>
        split
        · next hmark =>
            simp only [Bool.and_eq_true, Bool.or_eq_true, decide_eq_true_eq] at hmark
            obtain ⟨hc, hdigit⟩ := hmark
            cases hrest : (sign cs).2 with
            | nil =>
                rw [hrest] at hdigit
                cases hdigit
            | cons d r =>
                rw [hrest] at hdigit
                have hd : isDigit d = true := hdigit
                rw [List.takeWhile_cons_of_pos hd]
                exact .power hc (sign_sign cs) hd (longest_takeWhile isDigit r).mem
        · exact .none
    · exact .none
  · intro v hv hexp
    cases hexp with
    | none => exact Nat.zero_le _
    | @power e d sg ds he hsg hd hds =>
        obtain ⟨r, rfl⟩ := hv
        have hrun : (d :: ds).length ≤ ((d :: (ds ++ r)).takeWhile isDigit).length :=
          (longest_takeWhile isDigit _).le (d :: ds) (List.prefix_append (d :: ds) r) (.cons hd hds)
        rw [show e :: (sg ++ d :: ds) ++ r = e :: (sg ++ d :: (ds ++ r)) by simp,
          exponent_append_digit he hsg hd]
        simp only [List.length_cons, List.length_append] at hrun ⊢
        omega

theorem longest_suffix (cs : List Char) : Longest Suffix (suffix cs).1 cs := by
  unfold suffix
  split
  · next cs =>
      refine ⟨⟨cs, rfl⟩, .inr rfl, ?_⟩
      rintro v - (rfl | rfl)
      · exact Nat.zero_le _
      · exact Nat.le_refl _
  · next hno =>
      refine ⟨List.nil_prefix, .inl rfl, ?_⟩
      rintro v hv (rfl | rfl)
      · exact Nat.le_refl _
      · obtain ⟨r, hr⟩ := hv
        exact absurd hr.symm (hno _)

/-! ## The whole number -/

/-- A number begins here: a digit, or a point with a digit behind it. -/
def Begins (cs : List Char) : Prop := DigitBehind [] cs ∨ DigitBehind ['.'] cs

theorem Mantissa.split {w : List Char} (h : Mantissa w) : Then (All isDigitOrGap) Point w := by
  cases h with
  | @whole d ds p hd hds hp =>
      exact ⟨d :: ds, p, .cons (isDigitOrGap_of_isDigit hd) hds, hp, rfl⟩
  | @fraction d fs hd hfs =>
      have hpoint : Point ('.' :: d :: fs) :=
        .inr ⟨d :: fs, .cons (isDigitOrGap_of_isDigit hd) hfs, rfl⟩
      exact ⟨[], '.' :: d :: fs, .nil, hpoint, rfl⟩

/-- The part in front of an exponent, as `magnitude` takes it. -/
theorem longest_mantissa {cs : List Char} (h : Begins cs) :
    Longest Mantissa (cs.takeWhile isDigitOrGap ++ (fraction (cs.dropWhile isDigitOrGap)).1) cs := by
  have hparts : Longest (Then (All isDigitOrGap) Point)
      (cs.takeWhile isDigitOrGap ++ (fraction (cs.dropWhile isDigitOrGap)).1) cs := by
    refine .append List.takeWhile_append_dropWhile (longest_takeWhile isDigitOrGap cs)
      (longest_fraction _) ?_
    rintro c hc b (hnil | ⟨fs, -, hpoint⟩)
    · cases hnil
    · cases hpoint
      exact absurd (List.mem_takeWhile_imp hc) (by decide)
  refine hparts.of_imp (fun v hv => hv.split) ?_
  rcases h with ⟨d, hd, r, rfl⟩ | ⟨d, hd, r, rfl⟩
  · show Mantissa ((d :: r).takeWhile isDigitOrGap ++ (fraction ((d :: r).dropWhile isDigitOrGap)).1)
    rw [List.takeWhile_cons_of_pos (isDigitOrGap_of_isDigit hd)]
    exact .whole hd (longest_takeWhile isDigitOrGap r).mem (longest_fraction _).mem
  · have hpoint : ¬ isDigitOrGap '.' = true := by decide
    show Mantissa (('.' :: d :: r).takeWhile isDigitOrGap ++
      (fraction (('.' :: d :: r).dropWhile isDigitOrGap)).1)
    rw [List.takeWhile_cons_of_neg hpoint, List.dropWhile_cons_of_neg hpoint]
    show Mantissa ('.' :: (d :: r).takeWhile isDigitOrGap)
    rw [List.takeWhile_cons_of_pos (isDigitOrGap_of_isDigit hd)]
    exact .fraction hd (longest_takeWhile isDigitOrGap r).mem

theorem hexMarker?_eq_some {cs marker rest : List Char} (h : hexMarker? cs = some (marker, rest)) :
    ∃ x, (x = 'x' ∨ x = 'X') ∧ marker = ['0', x] ∧ cs = '0' :: x :: rest := by
  unfold hexMarker? at h
  split at h
  · next x cs =>
      split at h
      · next hx =>
          cases h
          exact ⟨x, by simpa using hx, rfl, rfl⟩
      · cases h
  · cases h

/-- Behind its marker, a hexadecimal number goes on as far as it can, and no decimal one does. -/
theorem longest_hexadecimal {x : Char} (hx : x = 'x' ∨ x = 'X') (rest : List Char) :
    Longest Magnitude ('0' :: x :: rest.takeWhile isHexDigitOrGap) ('0' :: x :: rest) := by
  have hrun := longest_takeWhile isHexDigitOrGap rest
  refine ⟨?_, .inl (.mk hx hrun.mem), ?_⟩
  · exact (List.prefix_append_right_inj ['0', x]).mpr hrun.isPrefix
  · rintro v hv (hhex | hdec)
    · cases hhex with
      | mk hy hds =>
          have htail := (List.cons_prefix_cons.mp (List.cons_prefix_cons.mp hv).2).2
          exact Nat.succ_le_succ (Nat.succ_le_succ (hrun.le _ htail hds))
    · exact (hdec.length_le_one hx hv).trans (Nat.succ_le_succ (Nat.zero_le _))

theorem longest_decimal {cs : List Char} (h : Begins cs) :
    Longest Decimal (cs.takeWhile isDigitOrGap ++ (fraction (cs.dropWhile isDigitOrGap)).1 ++
      (exponent (fraction (cs.dropWhile isDigitOrGap)).2).1) cs := by
  refine .append ?_ (longest_mantissa h) (longest_exponent _) ?_
  · rw [List.append_assoc, fraction_append, List.takeWhile_append_dropWhile]
  · intro c hc b hexp
    have hmark : c = 'e' ∨ c = 'E' := by
      cases hexp with
      | power he => exact he
    rcases (longest_mantissa h).mem.chars c hc with hgap | rfl
    · rcases hmark with rfl | rfl
      · exact absurd hgap (by decide)
      · exact absurd hgap (by decide)
    · exact absurd hmark (by decide)

/-- **A number without its suffix is taken as long as it can be.** -/
theorem longest_magnitude {cs : List Char} (h : Begins cs) :
    Longest Magnitude (magnitude cs).1 cs := by
  unfold magnitude
  split
  · next marker rest hmarker =>
      obtain ⟨x, hx, rfl, rfl⟩ := hexMarker?_eq_some hmarker
      exact longest_hexadecimal hx rest
  · next hmarker =>
      have hdec := longest_decimal h
      refine ⟨hdec.isPrefix, .inr hdec.mem, ?_⟩
      rintro v hv (hhex | hdec')
      · -- a hexadecimal number would have been found by its marker
        cases hhex with
        | mk hx hds =>
            obtain ⟨r, rfl⟩ := hv
            simp [hexMarker?, hx] at hmarker
      · exact hdec.le v hv hdec'

/-- **A number is the longest text of its grammar.** -/
theorem longest_number {cs : List Char} (h : Begins cs) : Longest Numeral (number cs).text cs := by
  refine .append (magnitude_append cs) (longest_magnitude h) (longest_suffix _) ?_
  rintro c hc b (hnil | hn)
  · cases hnil
  · cases hn
    exact (longest_magnitude h).mem.ne_n _ hc rfl

theorem Mantissa.begins {w : List Char} (h : Mantissa w) : Begins w := by
  cases h with
  | @whole d ds p hd => exact .inl ⟨d, hd, ds ++ p, rfl⟩
  | @fraction d fs hd => exact .inr ⟨d, hd, fs, rfl⟩

/-- What a number begins, begins with a number. -/
theorem begins_of_prefix {w cs : List Char} (h : Numeral w) (hpre : w <+: cs) : Begins cs := by
  obtain ⟨m, s, hm, -, rfl⟩ := h
  have hbegins : Begins m := by
    rcases hm with hhex | ⟨a, b, ha, -, rfl⟩
    · cases hhex with
      | @mk x ds => exact .inl ⟨'0', by decide, x :: ds, rfl⟩
    · exact ha.begins.imp (·.mono (List.prefix_append a b)) (·.mono (List.prefix_append a b))
  have hfront : m <+: cs := (List.prefix_append m s).trans hpre
  exact hbegins.imp (·.mono hfront) (·.mono hfront)

end Numeral
end ScriptSpacing
