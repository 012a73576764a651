import ScriptSpacing.Json.Number
import ScriptSpacing.Proofs.Json.Literal

/-!
# `Proofs.Json.Numeral` — numbers, as written and as read

A number has a whole part without needless zeros, and a fraction and an exponent or not. It goes on as long as it
can, so what follows it must not go on with it (`Stops`).

Passing over a number takes this grammar as it is. Reading one gives the integer that its digits come to if it is
written without a fraction and an exponent and the bounds allow it, and a floating point number in all other cases:
`-0` is one of those.
-/

namespace ScriptSpacing
namespace Json
open Text (All isDigit)

/-! ## The grammar -/

/-- One digit or more. -/
def IsDigits (ds : List Char) : Prop := ds ≠ [] ∧ All isDigit ds

/-- A whole part: zero, or digits that do not begin with it. -/
inductive IsWhole : List Char → Prop where
  | zero : IsWhole ['0']
  | digits {d : Char} {ds : List Char} (hd : isDigit d = true) (hzero : d ≠ '0') (hds : All isDigit ds) :
      IsWhole (d :: ds)

/-- A fraction, or none. -/
inductive IsFraction : List Char → Prop where
  | none : IsFraction []
  | point {ds : List Char} (hds : IsDigits ds) : IsFraction ('.' :: ds)

/-- A sign before an exponent's digits, or none. -/
def IsSign (s : List Char) : Prop := s = [] ∨ s = ['+'] ∨ s = ['-']

/-- An exponent, or none. -/
inductive IsExponent : List Char → Prop where
  | none : IsExponent []
  | mark {e : Char} {s ds : List Char} (he : e = 'e' ∨ e = 'E') (hs : IsSign s) (hds : IsDigits ds) :
      IsExponent (e :: s ++ ds)

/-- **A number without a sign.** -/
def IsNumber (t : List Char) : Prop :=
  ∃ w f e, IsWhole w ∧ IsFraction f ∧ IsExponent e ∧ t = w ++ f ++ e

/-- Whether a number can go on with a character. -/
def continuesNumber (c : Char) : Bool := isDigit c || c = '.' || c = 'e' || c = 'E'

/-- What follows does not go on with a number. -/
def Stops (rest : List Char) : Prop := EndsRun continuesNumber rest

variable {ds e f rest w t : List Char} {c d : Char} {i : Nat} {k k' : Cursor}

theorem Stops.append (ht : Stops t) (hrest : Stops rest) : Stops (t ++ rest) := by
  cases t with
  | nil => exact hrest
  | cons c t => exact endsRun_cons (ht c rfl)

/-- Only the first character counts. -/
theorem Stops.of_prefix {u : List Char} (h : Stops t) (hu : u <+: t) (hne : u ≠ []) (rest : List Char) :
    Stops (u ++ rest) := by
  obtain ⟨back, rfl⟩ := hu
  cases u with
  | nil => exact absurd rfl hne
  | cons c u => exact endsRun_cons (h c rfl)

theorem Stops.endsRun_isDigit (h : Stops rest) : EndsRun isDigit rest := by
  intro c hc
  have hstop := h c hc
  simp only [continuesNumber, Bool.or_eq_false_iff] at hstop
  exact hstop.1.1.1

theorem isBlank_of_isDigit (hd : isDigit d = true) : Cursor.isBlank d = false := by
  simp only [Cursor.isBlank, Bool.or_eq_false_iff, decide_eq_false_iff_not]
  refine ⟨⟨⟨?_, ?_⟩, ?_⟩, ?_⟩ <;> rintro rfl <;> cases hd

theorem any_peek?_of_endsRun (h : EndsRun isDigit rest) (i : Nat) :
    (Cursor.peek? ⟨rest, i⟩).any isDigit = false := by
  cases rest with
  | nil => rfl
  | cons c rest => exact h c rfl

theorem IsDigits.head (h : IsDigits ds) : ∃ d r, ds = d :: r ∧ isDigit d = true := by
  obtain ⟨hne, hall⟩ := h
  cases ds with
  | nil => exact absurd rfl hne
  | cons d r => exact ⟨d, r, rfl, hall d List.mem_cons_self⟩

theorem isDigits_takeWhile (h : k.peek?.any isDigit = true) :
    IsDigits (k.rest.takeWhile isDigit) := by
  refine ⟨?_, all_takeWhile k.rest⟩
  obtain ⟨c, hpeek, hc⟩ := Option.any_eq_true _ _ |>.mp h
  rw [rest_of_peek? hpeek, List.takeWhile_cons_of_pos hc]
  exact List.cons_ne_nil _ _

theorem IsWhole.isDigits (h : IsWhole w) : IsDigits w := by
  cases h with
  | zero => exact ⟨List.cons_ne_nil _ _, All.cons rfl All.nil⟩
  | digits hd _ hds => exact ⟨List.cons_ne_nil _ _, All.cons hd hds⟩

/-! ## Passing over a number -/

theorem exponentSign_digit (hd : isDigit d = true) (i : Nat) :
    exponentSign ⟨d :: rest, i⟩ = (false, ⟨d :: rest, i⟩) := by
  unfold exponentSign
  split
  · next hpeek =>
      cases hpeek
      cases hd
  · next hpeek =>
      cases hpeek
      cases hd
  · rfl

theorem exponentSign_complete {s : List Char} (hs : IsSign s) (hds : IsDigits ds) (rest : List Char)
    (i : Nat) : ∃ b j, exponentSign ⟨s ++ (ds ++ rest), i⟩ = (b, ⟨ds ++ rest, j⟩) := by
  obtain ⟨d, r, rfl, hd⟩ := hds.head
  obtain rfl | rfl | rfl := hs
  · exact ⟨false, i, exponentSign_digit hd i⟩
  · exact ⟨false, _, rfl⟩
  · exact ⟨true, _, rfl⟩

theorem exponentSign_sound (k : Cursor) : ∃ s, IsSign s ∧ k.rest = s ++ (exponentSign k).2.rest := by
  unfold exponentSign
  split
  · next hpeek => exact ⟨['+'], .inr (.inl rfl), rest_of_peek? hpeek⟩
  · next hpeek => exact ⟨['-'], .inr (.inr rfl), rest_of_peek? hpeek⟩
  · exact ⟨[], .inl rfl, rfl⟩

theorem any_isDigit_peek? (hds : IsDigits ds) (i : Nat) :
    (Cursor.peek? ⟨ds ++ rest, i⟩).any isDigit = true := by
  obtain ⟨d, r, rfl, hd⟩ := hds.head
  exact hd

/-- An exponent's mark is next. -/
theorem atExponent_iff : atExponent k = true ↔ k.peek? = some 'e' ∨ k.peek? = some 'E' := by
  simp only [atExponent, Bool.or_eq_true, decide_eq_true_eq]

theorem atExponent_of_stops (h : Stops rest) (i : Nat) : atExponent ⟨rest, i⟩ = false := by
  rw [Bool.eq_false_iff]
  intro hat
  rcases atExponent_iff.mp hat with hpeek | hpeek <;> cases h _ hpeek

theorem peek?_ne_point_of_stops (h : Stops rest) (i : Nat) :
    ¬ Cursor.peek? ⟨rest, i⟩ = some '.' := by
  intro hpeek
  cases h _ hpeek

/-- **What stands behind the whole part of a number is passed over up to where the number stops.** -/
theorem skipExponent_complete {s : List Char} (hs : IsSign s) (hds : IsDigits ds) (hrest : Stops rest)
    (i : Nat) : ∃ j, skipExponent ⟨c :: (s ++ (ds ++ rest)), i⟩ = .ok ⟨rest, j⟩ := by
  obtain ⟨b, j, hsign⟩ := exponentSign_complete hs hds rest (i + c.utf8Size)
  obtain ⟨j', hrun⟩ := skipWhile_run hds.2 hrest.endsRun_isDigit j
  refine ⟨j', ?_⟩
  simp only [skipExponent, advance_cons, hsign, any_isDigit_peek? hds, if_true, hrun]

/-- No fraction and no exponent begins with a digit. -/
theorem endsRun_isDigit_append (hf : IsFraction f) (he : IsExponent e) (hrest : Stops rest) :
    EndsRun isDigit (f ++ (e ++ rest)) := by
  cases hf with
  | point hds => exact endsRun_cons rfl
  | none =>
      cases he with
      | none => exact hrest.endsRun_isDigit
      | mark he _ _ => rcases he with rfl | rfl <;> exact endsRun_cons rfl

theorem skipExponentAhead_complete (he : IsExponent e) (hrest : Stops rest) (i : Nat) :
    ∃ j, (if atExponent ⟨e ++ rest, i⟩ then skipExponent ⟨e ++ rest, i⟩ else .ok ⟨e ++ rest, i⟩) =
      .ok ⟨rest, j⟩ := by
  cases he with
  | none =>
      refine ⟨i, ?_⟩
      rw [List.nil_append, atExponent_of_stops hrest]
      rfl
  | @mark c s ds he hs hds =>
      rw [List.cons_append, List.cons_append, List.append_assoc]
      have hat : atExponent ⟨c :: (s ++ (ds ++ rest)), i⟩ = true := by
        rcases he with rfl | rfl <;> rfl
      rw [if_pos hat]
      exact skipExponent_complete hs hds hrest i

theorem skipAfterInteger_complete (hf : IsFraction f) (he : IsExponent e) (hrest : Stops rest) (i : Nat) :
    ∃ j, skipAfterInteger ⟨f ++ (e ++ rest), i⟩ = .ok ⟨rest, j⟩ := by
  cases hf with
  | none =>
      have hpoint : ¬ Cursor.peek? ⟨e ++ rest, i⟩ = some '.' := by
        cases he with
        | none => exact peek?_ne_point_of_stops hrest i
        | mark he _ _ => rcases he with rfl | rfl <;> exact fun hpeek => by cases hpeek
      obtain ⟨j, hskip⟩ := skipExponentAhead_complete he hrest i
      refine ⟨j, ?_⟩
      rw [List.nil_append, skipAfterInteger, if_neg hpoint, hskip]
  | @point ds hds =>
      have hends : EndsRun isDigit (e ++ rest) := endsRun_isDigit_append .none he hrest
      obtain ⟨_, hrun⟩ := skipWhile_run hds.2 hends (i + '.'.utf8Size)
      obtain ⟨j, hskip⟩ := skipExponentAhead_complete he hrest _
      refine ⟨j, ?_⟩
      rw [List.cons_append, skipAfterInteger, if_pos (peek?_cons _ _ _)]
      simp only [skipFraction, advance_cons, any_isDigit_peek? hds, if_true, hrun]
      exact hskip

theorem skipNumber_complete (ht : IsNumber t) (hrest : Stops rest) (i : Nat) :
    ∃ j, skipNumber ⟨t ++ rest, i⟩ = .ok ⟨rest, j⟩ := by
  obtain ⟨w, f, e, hw, hf, he, rfl⟩ := ht
  rw [List.append_assoc, List.append_assoc]
  have hends : EndsRun isDigit (f ++ (e ++ rest)) := endsRun_isDigit_append hf he hrest
  cases hw with
  | zero =>
      obtain ⟨j, hskip⟩ := skipAfterInteger_complete hf he hrest (i + '0'.utf8Size)
      refine ⟨j, ?_⟩
      simp only [List.cons_append, List.nil_append, skipNumber, peek?_cons, if_true, advance_cons,
        any_peek?_of_endsRun hends, Bool.false_eq_true, if_false, hskip]
  | @digits d ds hd hzero hds =>
      obtain ⟨_, hrun⟩ := skipWhile_run (All.cons hd hds) hends i
      obtain ⟨j, hskip⟩ := skipAfterInteger_complete hf he hrest _
      refine ⟨j, ?_⟩
      simp only [List.cons_append, skipNumber, peek?_cons, if_neg hzero, if_pos hd]
      rw [← List.cons_append, hrun]
      exact hskip

theorem skipExponent_sound (h : skipExponent k = .ok k')
    (hat : k.peek? = some 'e' ∨ k.peek? = some 'E') : ∃ e, k.rest = e ++ k'.rest ∧ IsExponent e := by
  unfold skipExponent at h
  obtain ⟨s, hs, hsign⟩ := exponentSign_sound k.advance
  dsimp only at h
  split at h
  · next hany =>
      cases h
      have hds := isDigits_takeWhile hany
      have hrun := rest_eq_run_append isDigit (exponentSign k.advance).2
      obtain ⟨c, hc, hk⟩ : ∃ c, (c = 'e' ∨ c = 'E') ∧ k.rest = c :: k.advance.rest := by
        rcases hat with hpeek | hpeek
        · exact ⟨'e', .inl rfl, rest_of_peek? hpeek⟩
        · exact ⟨'E', .inr rfl, rest_of_peek? hpeek⟩
      refine ⟨c :: s ++ (exponentSign k.advance).2.rest.takeWhile isDigit, ?_, .mark hc hs hds⟩
      rw [hk, hsign, List.cons_append, List.cons_append, List.append_assoc, ← hrun]
  · cases h

theorem skipExponentAhead_sound (h : (if atExponent k then skipExponent k else .ok k) = .ok k') :
    ∃ e, k.rest = e ++ k'.rest ∧ IsExponent e := by
  split at h
  · next hat => exact skipExponent_sound h (atExponent_iff.mp hat)
  · cases h
    exact ⟨[], rfl, .none⟩

theorem skipAfterInteger_sound (h : skipAfterInteger k = .ok k') :
    ∃ f e, k.rest = f ++ (e ++ k'.rest) ∧ IsFraction f ∧ IsExponent e := by
  unfold skipAfterInteger at h
  split at h
  · next hpeek =>
      unfold skipFraction at h
      dsimp only at h
      split at h
      · next hany =>
          obtain ⟨e, hrest, he⟩ := skipExponentAhead_sound h
          refine ⟨'.' :: k.advance.rest.takeWhile isDigit, e, ?_, .point (isDigits_takeWhile hany), he⟩
          rw [rest_of_peek? hpeek, List.cons_append, ← hrest, ← rest_eq_run_append]
      · cases h
  · obtain ⟨e, hrest, he⟩ := skipExponentAhead_sound h
    exact ⟨[], e, hrest, .none, he⟩

theorem skipNumber_sound (h : skipNumber k = .ok k') : ∃ t, k.rest = t ++ k'.rest ∧ IsNumber t := by
  unfold skipNumber at h
  split at h
  · next c hpeek =>
      have hk := rest_of_peek? hpeek
      split at h
      · next hzero =>
          split at h
          · cases h
          · obtain ⟨f, e, hrest, hf, he⟩ := skipAfterInteger_sound h
            refine ⟨['0'] ++ f ++ e, ?_, _, f, e, .zero, hf, he, rfl⟩
            rw [hk, hzero, hrest]
            simp only [List.cons_append, List.nil_append, List.append_assoc]
      · next hzero =>
          split at h
          · next hc =>
              obtain ⟨f, e, hrest, hf, he⟩ := skipAfterInteger_sound h
              have htake : k.rest.takeWhile isDigit = c :: k.advance.rest.takeWhile isDigit := by
                rw [hk, List.takeWhile_cons_of_pos hc]
              refine ⟨c :: k.advance.rest.takeWhile isDigit ++ f ++ e, ?_, _, f, e,
                .digits hc hzero (all_takeWhile _), hf, he, rfl⟩
              rw [← htake, List.append_assoc, List.append_assoc, ← hrest, ← rest_eq_run_append]
          · cases h
  · cases h

/-! ## Reading a number -/

/-- The number that digits come to. -/
def decimal (ds : List Char) : Nat := ds.foldl (fun n d => n * 10 + digitValue d) 0

theorem le_foldl_decimal (n : Nat) (ds : List Char) :
    n ≤ ds.foldl (fun n d => n * 10 + digitValue d) n := by
  induction ds generalizing n with
  | nil => exact Nat.le_refl n
  | cons d ds ih =>
      have hstep : n ≤ n * 10 + digitValue d := by omega
      exact hstep.trans (ih _)

/-- Digits are taken in without excess exactly when what they come to is in bounds. -/
theorem absorb_eq_iff {limit n m : Nat} (hn : n < limit) :
    absorb limit n ds = (m, []) ↔
      ds.foldl (fun n d => n * 10 + digitValue d) n = m ∧ m < limit := by
  induction ds generalizing n with
  | nil =>
      simp only [absorb, List.foldl_nil, Prod.mk.injEq, and_true]
      exact ⟨fun h => ⟨h, h ▸ hn⟩, And.left⟩
  | cons d ds ih =>
      unfold absorb
      split
      · next hlt => exact ih hlt
      · next hge =>
          have hle := le_foldl_decimal (n * 10 + digitValue d) ds
          simp only [Prod.mk.injEq, reduceCtorEq, and_false, List.foldl_cons, false_iff]
          rintro ⟨hm, hlt⟩
          omega

theorem absorb_decimal (h : decimal ds < significandLimit) :
    absorb significandLimit 0 ds = (decimal ds, []) :=
  (absorb_eq_iff (by decide)).mpr ⟨rfl, h⟩

theorem readAfterInteger_stops (hrest : Stops rest) (negative : Bool) (significand excess i : Nat) :
    readAfterInteger negative significand excess ⟨rest, i⟩ =
      ofInteger negative significand excess ⟨rest, i⟩ := by
  rw [readAfterInteger, if_neg (peek?_ne_point_of_stops hrest i), atExponent_of_stops hrest,
    if_neg Bool.false_ne_true]

/-- **Whole digits within 64 bits are read as the integer they come to**, before its sign is looked at. -/
theorem readNumber_whole (hw : IsWhole w) (hlt : decimal w < significandLimit) (hrest : Stops rest)
    (negative : Bool) (i : Nat) :
    ∃ j, readNumber negative ⟨w ++ rest, i⟩ = ofInteger negative (decimal w) 0 ⟨rest, j⟩ := by
  have hends : EndsRun isDigit rest := hrest.endsRun_isDigit
  cases hw with
  | zero =>
      refine ⟨i + '0'.utf8Size, ?_⟩
      simp only [List.cons_append, List.nil_append, readNumber, peek?_cons, if_true, advance_cons,
        any_peek?_of_endsRun hends, Bool.false_eq_true, if_false, readAfterInteger_stops hrest]
      rfl
  | @digits d ds hd hzero hds =>
      have hall : All isDigit (d :: ds) := All.cons hd hds
      obtain ⟨j, hrun⟩ := skipWhile_run hall hends i
      refine ⟨j, ?_⟩
      simp only [List.cons_append, readNumber, peek?_cons, if_neg hzero, if_pos hd, digits]
      rw [← List.cons_append, hrun, takeWhile_run hall hends, absorb_decimal hlt]
      exact readAfterInteger_stops hrest negative _ 0 j

theorem readNumber_unsigned (hw : IsWhole w) (hlt : decimal w < significandLimit) (hrest : Stops rest)
    (i : Nat) : ∃ j, readNumber false ⟨w ++ rest, i⟩ = .ok (.unsigned (decimal w), ⟨rest, j⟩) :=
  readNumber_whole hw hlt hrest false i

theorem readNumber_negative (hw : IsWhole w) (hpos : 0 < decimal w) (hle : decimal w ≤ signLimit)
    (hrest : Stops rest) (i : Nat) :
    ∃ j, readNumber true ⟨w ++ rest, i⟩ = .ok (.negative (-(decimal w : Int)), ⟨rest, j⟩) := by
  have hlt : decimal w < significandLimit := Nat.lt_of_le_of_lt hle (by decide)
  obtain ⟨j, hread⟩ := readNumber_whole hw hlt hrest true i
  have hsign : ¬ (decimal w = 0 || signLimit < decimal w) = true := by
    simp only [Bool.or_eq_true, decide_eq_true_eq]
    omega
  refine ⟨j, ?_⟩
  rw [hread, ofInteger, if_neg (fun h => h rfl), if_neg (by decide), if_neg hsign]

/-! ### What is read as an integer -/

/-- A number that is read as a floating point number. -/
def Number.IsFloat (n : Number) : Prop := ∃ sign x, n = .float sign x

variable {n : Number} {negative : Bool} {significand excess : Nat} {exponent : Int}

theorem ofParts_isFloat (h : ofParts negative significand exponent k = .ok (n, k')) : n.IsFloat := by
  unfold ofParts at h
  split at h
  · cases h
    exact ⟨_, _, rfl⟩
  · cases h

theorem readExponent_isFloat (h : readExponent negative significand exponent k = .ok (n, k')) :
    n.IsFloat := by
  unfold readExponent at h
  dsimp only at h
  split at h
  · cases h
  · split at h
    · split at h
      · exact ofParts_isFloat h
      · split at h
        · cases h
        · cases h
          exact ⟨_, _, rfl⟩
    · cases h

theorem readFraction_isFloat (h : readFraction negative significand exponent k = .ok (n, k')) :
    n.IsFloat := by
  unfold readFraction at h
  dsimp only at h
  split at h
  · split at h <;> cases h
  · split at h
    · exact readExponent_isFloat h
    · exact ofParts_isFloat h

theorem readAfterInteger_sound (h : readAfterInteger negative significand excess k = .ok (n, k')) :
    n.IsFloat ∨ k' = k ∧ excess = 0 ∧
      (negative = false ∧ n = .unsigned significand ∨
        negative = true ∧ 0 < significand ∧ significand ≤ signLimit ∧ n = .negative (-significand)) := by
  unfold readAfterInteger at h
  split at h
  · exact .inl (readFraction_isFloat h)
  · split at h
    · exact .inl (readExponent_isFloat h)
    · unfold ofInteger at h
      split at h
      · exact .inl (ofParts_isFloat h)
      · next hexcess =>
          split at h
          · next hsign =>
              cases h
              exact .inr ⟨rfl, not_not.mp hexcess, .inl ⟨by simpa using hsign, rfl⟩⟩
          · next hsign =>
              split at h
              · exact .inl (ofParts_isFloat h)
              · next hbound =>
                  cases h
                  simp only [Bool.or_eq_true, decide_eq_true_eq, not_or] at hbound
                  exact .inr ⟨rfl, not_not.mp hexcess,
                    .inr ⟨by simpa using hsign, by omega, by omega, rfl⟩⟩

/-- **A number is read as a floating point number, or as the integer that whole digits come to.** -/
theorem readNumber_sound (h : readNumber negative k = .ok (n, k')) :
    n.IsFloat ∨ ∃ w, k.rest = w ++ k'.rest ∧ IsWhole w ∧
      (negative = false ∧ n = .unsigned (decimal w) ∨
        negative = true ∧ 0 < decimal w ∧ decimal w ≤ signLimit ∧ n = .negative (-(decimal w : Int))) := by
  unfold readNumber at h
  split at h
  · cases h
  · next c hpeek =>
      have hk := rest_of_peek? hpeek
      split at h
      · next hzero =>
          dsimp only at h
          split at h
          · cases h
          · rcases readAfterInteger_sound h with hfloat | ⟨rfl, _, hn⟩
            · exact .inl hfloat
            · exact .inr ⟨['0'], by rw [hk, hzero, List.cons_append, List.nil_append], .zero, hn⟩
      · next hzero =>
          split at h
          · next hc =>
              rcases readAfterInteger_sound h with hfloat | ⟨rfl, hexcess, hn⟩
              · exact .inl hfloat
              · have htake : k.rest.takeWhile isDigit = c :: k.advance.rest.takeWhile isDigit := by
                  rw [hk, List.takeWhile_cons_of_pos hc]
                -- without an excess digit, what has been taken in is the whole run
                have habsorb : absorb significandLimit 0 (k.rest.takeWhile isDigit) =
                    ((absorb significandLimit 0 (k.rest.takeWhile isDigit)).1, []) :=
                  Prod.ext rfl (List.eq_nil_of_length_eq_zero hexcess)
                have hdec : decimal (k.rest.takeWhile isDigit) = _ :=
                  ((absorb_eq_iff (by decide)).mp habsorb).1
                refine .inr ⟨k.rest.takeWhile isDigit, rest_eq_run_append _ _, ?_, ?_⟩
                · rw [htake]
                  exact .digits hc hzero (all_takeWhile _)
                · rw [← hdec] at hn
                  exact hn
          · cases h

/-- **The integers of 64 bits, as they are written.** A zero has no sign. -/
inductive IsInteger : List Char → Int → Prop where
  | unsigned {w : List Char} (hw : IsWhole w) (hlt : decimal w < signLimit) : IsInteger w (decimal w)
  | negative {w : List Char} (hw : IsWhole w) (hpos : 0 < decimal w) (hle : decimal w ≤ signLimit) :
      IsInteger ('-' :: w) (-(decimal w : Int))

/-! ## Integers by their digits -/

theorem decimal_toDigits (n : Nat) : decimal (Nat.toDigits 10 n) = n := by
  have hdecimal (ds : List Char) : decimal ds = Nat.ofDigitChars 10 ds 0 := by
    simp only [decimal, Nat.ofDigitChars, digitValue, Nat.mul_comm]
  rw [hdecimal, Nat.ofDigitChars_ten_toDigits]

theorem isDigit_digitChar {d : Nat} (hd : d < 10) :
    isDigit (Nat.digitChar d) = true ∧ (0 < d → Nat.digitChar d ≠ '0') := by
  revert d
  decide

theorem isWhole_toDigits (n : Nat) : IsWhole (Nat.toDigits 10 n) := by
  -- by induction on the number without its last digit, which leaves the first one
  have hpos (n : Nat) (hn : 0 < n) : ∃ d ds, Nat.toDigits 10 n = d :: ds ∧ isDigit d = true ∧ d ≠ '0' ∧
      All isDigit ds := by
    induction n using Nat.strongRecOn with
    | ind n ih =>
        by_cases hlt : n < 10
        · obtain ⟨hdigit, hzero⟩ := isDigit_digitChar hlt
          exact ⟨_, [], Nat.toDigits_of_lt_base hlt, hdigit, hzero hn, All.nil⟩
        · obtain ⟨d, ds, hds, hd, hzero, hall⟩ := ih (n / 10) (by omega) (by omega)
          refine ⟨d, ds ++ [Nat.digitChar (n % 10)], ?_, hd, hzero, ?_⟩
          · rw [Nat.toDigits_of_base_le (by decide) (by omega), hds, List.cons_append]
          · exact All.append hall (All.cons (isDigit_digitChar (Nat.mod_lt n (by decide))).1 All.nil)
  rcases Nat.eq_zero_or_pos n with rfl | hn
  · exact .zero
  · obtain ⟨d, ds, hds, hd, hzero, hall⟩ := hpos n hn
    rw [hds]
    exact .digits hd hzero hall

/-- **Every integer of 64 bits is written by its digits.** -/
theorem isInteger_toString {v : Int} (hlow : -(signLimit : Int) ≤ v) (hhigh : v < signLimit) :
    IsInteger (toString v).toList v := by
  cases v with
  | ofNat n =>
      have h := IsInteger.unsigned (isWhole_toDigits n) (by rw [decimal_toDigits]; exact Int.ofNat_lt.mp hhigh)
      rw [decimal_toDigits] at h
      have htext : (toString (Int.ofNat n)).toList = Nat.toDigits 10 n := Nat.toList_repr
      rw [htext]
      exact h
  | negSucc m =>
      have h := IsInteger.negative (isWhole_toDigits (m + 1)) (by rw [decimal_toDigits]; omega)
        (by rw [decimal_toDigits]; omega)
      rw [decimal_toDigits] at h
      have htext : (toString (Int.negSucc m)).toList = '-' :: Nat.toDigits 10 (m + 1) := by
        rw [Int.toString_eq_repr, Int.repr, String.toList_append, Nat.toList_repr]
        rfl
      rw [htext]
      exact h

end Json
end ScriptSpacing
