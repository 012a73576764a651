import ScriptSpacing.Json.Skip
import ScriptSpacing.Proofs.Json.Numeral

/-!
# `Proofs.Json.Value` — the grammar of JSON, and what is passed over

A value is a scalar or a bracket, and what stands in a bracket behind its first value is a closer, or a comma with
another value and again such a text. The grammar follows the second half of that sentence (`Piece.rest`), since that
is how the stack of open brackets reads a text: each open bracket still waits for one such rest (`Closes`).

`skipValue` passes over the values of this grammar and over nothing else, however deep they are. Going forwards,
a value takes a run of `skipFrom` to the steps that follow values (`Written.passed`); going backwards, a run that ends
leaves the texts that its stack was waiting for (`skipFrom_sound`).
-/

namespace ScriptSpacing
namespace Json
open Text (All isDigit)

/-! ## The grammar -/

/-- The character that opens a bracket. -/
def Frame.opener : Frame → Char
  | .list   => '['
  | .object => '\x7b'

/-- A value without brackets. -/
inductive IsScalar : List Char → Prop where
  | null : IsScalar ['n', 'u', 'l', 'l']
  | true : IsScalar ['t', 'r', 'u', 'e']
  | false : IsScalar ['f', 'a', 'l', 's', 'e']
  | number {t : List Char} (ht : IsNumber t) : IsScalar t
  | negative {t : List Char} (ht : IsNumber t) : IsScalar ('-' :: t)
  | string {w : List Char} (hw : Passable w) : IsScalar ('"' :: w ++ ['"'])

/-- What stands before a value in a bracket: in an object, its name and a colon. -/
inductive IsKey : Frame → List Char → Prop where
  | list : IsKey .list []
  | object {b b' w : List Char} (hb : IsBlanks b) (hw : Passable w) (hb' : IsBlanks b') :
      IsKey .object (b ++ '"' :: w ++ '"' :: b' ++ [':'])

/-- A whole value, or what stands in a bracket behind its first value. -/
inductive Piece where
  | value
  | rest (f : Frame)

/-- **The grammar of JSON.** -/
inductive Written : Piece → List Char → Prop where
  | scalar {t : List Char} (ht : IsScalar t) : Written .value t
  | empty {b : List Char} (f : Frame) (hb : IsBlanks b) : Written .value (f.opener :: b ++ [f.closer])
  | bracket {f : Frame} {key b v t : List Char} (hkey : IsKey f key) (hb : IsBlanks b)
      (hv : Written .value v) (ht : Written (.rest f) t) :
      Written .value (f.opener :: key ++ b ++ v ++ t)
  | close {b : List Char} (f : Frame) (hb : IsBlanks b) : Written (.rest f) (b ++ [f.closer])
  | next {f : Frame} {b key b' v t : List Char} (hb : IsBlanks b) (hkey : IsKey f key)
      (hb' : IsBlanks b') (hv : Written .value v) (ht : Written (.rest f) t) :
      Written (.rest f) (b ++ ',' :: key ++ b' ++ v ++ t)

/-- The texts of values. -/
def IsValue (v : List Char) : Prop := Written .value v

variable {b cs key rest t v w : List Char} {c : Char} {f : Frame} {fs gs : List Frame} {i n : Nat}
  {k k' : Cursor}

theorem IsNumber.head (h : IsNumber t) : ∃ d r, t = d :: r ∧ isDigit d = true := by
  obtain ⟨w, f, e, hw, _, _, rfl⟩ := h
  obtain ⟨d, r, rfl, hd⟩ := hw.isDigits.head
  exact ⟨d, r ++ f ++ e, rfl, hd⟩

/-- **What a value begins with** is neither whitespace nor the end of a list. -/
theorem IsValue.head (h : IsValue v) :
    ∃ c r, v = c :: r ∧ Cursor.isBlank c = false ∧ c ≠ Frame.list.closer := by
  cases h with
  | scalar ht =>
      cases ht with
      | number ht =>
          obtain ⟨d, r, rfl, hd⟩ := ht.head
          refine ⟨d, r, rfl, isBlank_of_isDigit hd, ?_⟩
          rintro rfl
          cases hd
      | _ => exact ⟨_, _, rfl, rfl, by decide⟩
  | empty f _ => cases f <;> exact ⟨_, _, rfl, rfl, by decide⟩
  | @bracket f => cases f <;> exact ⟨_, _, rfl, rfl, by decide⟩

theorem continuesNumber_of_isBlank (h : Cursor.isBlank c = true) : continuesNumber c = false := by
  simp only [Cursor.isBlank, Bool.or_eq_true, decide_eq_true_eq] at h
  rcases h with ((rfl | rfl) | rfl) | rfl <;> rfl

theorem stops_of_blanks (hb : IsBlanks b) (hrest : Stops rest) : Stops (b ++ rest) :=
  Stops.append (fun c hc => continuesNumber_of_isBlank (hb c (List.mem_of_mem_head? hc))) hrest

/-- No rest of a bracket goes on with a number. -/
theorem Written.stops (h : Written (.rest f) t) (rest : List Char) : Stops (t ++ rest) := by
  cases h with
  | close f hb =>
      rw [List.append_assoc]
      exact stops_of_blanks hb (endsRun_cons (by cases f <;> rfl))
  | next hb =>
      simp only [List.append_assoc]
      exact stops_of_blanks hb (endsRun_cons rfl)

/-! ## Values are passed over -/

theorem readWord_complete (ws : List Char) (rest : List Char) (i : Nat) :
    ∃ j, readWord ws ⟨ws ++ rest, i⟩ = .ok ⟨rest, j⟩ := by
  induction ws generalizing i with
  | nil => exact ⟨i, rfl⟩
  | cons c ws ih =>
      obtain ⟨j, hread⟩ := ih (i + c.utf8Size)
      refine ⟨j, ?_⟩
      simp only [List.cons_append, readWord, if_true, advance_cons, hread]

theorem readWord_sound {ws : List Char} (h : readWord ws k = .ok k') : k.rest = ws ++ k'.rest := by
  induction ws generalizing k with
  | nil =>
      cases h
      rfl
  | cons c ws ih =>
      unfold readWord at h
      split at h
      · cases h
      · next d r hrest =>
          split at h
          · next hd =>
              have hpeek : k.peek? = some d := by rw [Cursor.peek?, hrest, List.head?_cons]
              rw [rest_of_peek? hpeek, ih h, hd, List.cons_append]
          · cases h

theorem skipScalar_complete (ht : IsScalar t) (hrest : Stops rest) (i : Nat) :
    ∃ j, skipScalar ⟨t ++ rest, i⟩ = .ok (.scalar, ⟨rest, j⟩) := by
  cases ht with
  | null =>
      obtain ⟨j, hword⟩ := readWord_complete ['u', 'l', 'l'] rest (i + 'n'.utf8Size)
      exact ⟨j, bind_eq_ok.mpr ⟨_, hword, rfl⟩⟩
  | true =>
      obtain ⟨j, hword⟩ := readWord_complete ['r', 'u', 'e'] rest (i + 't'.utf8Size)
      exact ⟨j, bind_eq_ok.mpr ⟨_, hword, rfl⟩⟩
  | false =>
      obtain ⟨j, hword⟩ := readWord_complete ['a', 'l', 's', 'e'] rest (i + 'f'.utf8Size)
      exact ⟨j, bind_eq_ok.mpr ⟨_, hword, rfl⟩⟩
  | negative ht =>
      obtain ⟨j, hskip⟩ := skipNumber_complete ht hrest (i + '-'.utf8Size)
      exact ⟨j, bind_eq_ok.mpr ⟨_, hskip, rfl⟩⟩
  | @string w hw =>
      obtain ⟨j, hskip⟩ := skipString_complete hw rest (i + '"'.utf8Size)
      rw [List.append_assoc, List.singleton_append]
      exact ⟨j, bind_eq_ok.mpr ⟨_, hskip, rfl⟩⟩
  | number ht =>
      obtain ⟨j, hskip⟩ := skipNumber_complete ht hrest i
      obtain ⟨d, r, rfl, hd⟩ := ht.head
      refine ⟨j, ?_⟩
      have hword : d ≠ 'n' ∧ d ≠ 't' ∧ d ≠ 'f' ∧ d ≠ '-' := by
        refine ⟨?_, ?_, ?_, ?_⟩ <;> rintro rfl <;> cases hd
      rw [List.cons_append] at hskip ⊢
      simp only [skipScalar, peek?_cons, hword.1, hword.2.1, hword.2.2.1, hword.2.2.2, hd, if_false,
        if_true]
      exact bind_eq_ok.mpr ⟨_, hskip, rfl⟩

theorem skipScalar_sound {o : Opening} (h : skipScalar k = .ok (o, k')) :
    (o = .scalar ∧ ∃ t, k.rest = t ++ k'.rest ∧ IsScalar t) ∨
      ∃ f, o = .bracket f ∧ k.rest = f.opener :: k'.rest := by
  unfold skipScalar at h
  split at h
  · cases h
  · next c hpeek =>
      have hk := rest_of_peek? hpeek
      split at h
      · next hc =>
          obtain ⟨k₁, hword, ⟨⟩⟩ := bind_eq_ok.mp h
          exact .inl ⟨rfl, ['n', 'u', 'l', 'l'], by rw [hk, hc, readWord_sound hword]; rfl, .null⟩
      split at h
      · next hc =>
          obtain ⟨k₁, hword, ⟨⟩⟩ := bind_eq_ok.mp h
          exact .inl ⟨rfl, ['t', 'r', 'u', 'e'], by rw [hk, hc, readWord_sound hword]; rfl, .true⟩
      split at h
      · next hc =>
          obtain ⟨k₁, hword, ⟨⟩⟩ := bind_eq_ok.mp h
          exact .inl ⟨rfl, ['f', 'a', 'l', 's', 'e'], by rw [hk, hc, readWord_sound hword]; rfl, .false⟩
      split at h
      · next hc =>
          obtain ⟨k₁, hskip, ⟨⟩⟩ := bind_eq_ok.mp h
          obtain ⟨t, hrest, ht⟩ := skipNumber_sound hskip
          exact .inl ⟨rfl, '-' :: t, by rw [hk, hc, hrest, List.cons_append], .negative ht⟩
      split at h
      · obtain ⟨k₁, hskip, ⟨⟩⟩ := bind_eq_ok.mp h
        obtain ⟨t, hrest, ht⟩ := skipNumber_sound hskip
        exact .inl ⟨rfl, t, hrest, .number ht⟩
      split at h
      · next hc =>
          obtain ⟨k₁, hskip, ⟨⟩⟩ := bind_eq_ok.mp h
          obtain ⟨w, hrest, hw⟩ := skipString_sound hskip
          refine .inl ⟨rfl, '"' :: w ++ ['"'], ?_, .string hw⟩
          rw [hk, hc, hrest, List.append_assoc, List.singleton_append, List.cons_append]
      split at h
      · next hc =>
          cases h
          exact .inr ⟨.list, rfl, by rw [hk, hc]; rfl⟩
      split at h
      · next hc =>
          cases h
          exact .inr ⟨.object, rfl, by rw [hk, hc]; rfl⟩
      cases h

theorem skipKeyIn_complete (hkey : IsKey f key) (rest : List Char) (i : Nat) :
    ∃ j, skipKeyIn f ⟨key ++ rest, i⟩ = .ok ⟨rest, j⟩ := by
  cases hkey with
  | list => exact ⟨i, rfl⟩
  | @object b b' w hb hw hb' =>
      simp only [List.append_assoc, List.cons_append, List.nil_append]
      obtain ⟨j₁, hblanks⟩ := skipBlanks_complete (c := '"') hb rfl (w ++ '"' :: (b' ++ ':' :: rest)) i
      obtain ⟨j₂, hskip⟩ := skipString_complete hw (b' ++ ':' :: rest) (j₁ + '"'.utf8Size)
      obtain ⟨j, hblanks'⟩ := skipBlanks_complete (c := ':') hb' rfl rest j₂
      refine ⟨j + ':'.utf8Size, ?_⟩
      simp only [skipKeyIn, skipKey, hblanks, peek?_cons, if_true, advance_cons]
      refine bind_eq_ok.mpr ⟨_, hskip, ?_⟩
      simp only [hblanks', peek?_cons, if_true, advance_cons]
      rfl

theorem skipKeyIn_sound (h : skipKeyIn f k = .ok k') : ∃ key, k.rest = key ++ k'.rest ∧ IsKey f key := by
  cases f with
  | list =>
      cases h
      exact ⟨[], rfl, .list⟩
  | object =>
      obtain ⟨b, hb, hk⟩ := skipBlanks_sound k
      unfold skipKeyIn skipKey at h
      dsimp only at h
      split at h
      · cases h
      · next c hpeek =>
          split at h
          · next hc =>
              obtain ⟨k₁, hskip, h⟩ := bind_eq_ok.mp h
              obtain ⟨w, hk₁, hw⟩ := skipString_sound hskip
              obtain ⟨b', hb', hk₂⟩ := skipBlanks_sound k₁
              split at h
              · cases h
              · next c' hpeek' =>
                  split at h
                  · next hc' =>
                      cases h
                      refine ⟨b ++ '"' :: w ++ '"' :: b' ++ [':'], ?_, .object hb hw hb'⟩
                      rw [hk, rest_of_peek? hpeek, hc, hk₁, hk₂, rest_of_peek? hpeek', hc']
                      simp only [List.append_assoc, List.cons_append, List.nil_append]
                  · cases h
          · cases h

/-- What a run does when brackets have been closed: it ends, or passes the next value. -/
def goOn (n : Nat) : List Frame × Cursor → Except (Placed Fault) Cursor
  | ([], k)      => .ok k
  | (f :: fs, k) => skipKeyIn f k >>= skipFrom n (f :: fs)

/-- The rest of a run that has just passed a value. -/
def afterValue (n : Nat) (fs : List Frame) (k : Cursor) : Except (Placed Fault) Cursor :=
  closeFrames fs k >>= goOn n

/-- One turn of a run: a scalar or an opening bracket, and what follows it. -/
theorem skipFrom_succ (n : Nat) (fs : List Frame) (k : Cursor) :
    skipFrom (n + 1) fs k = (skipScalar k.skipBlanks >>= fun r =>
      match r.1 with
      | .scalar    => afterValue n fs r.2
      | .bracket f => closeEmpty f fs r.2 >>= goOn n) := by
  rw [skipFrom]
  congr 1
  funext ⟨o, k₁⟩
  cases o with
  | scalar =>
      refine congrArg (closeFrames fs k₁ >>= ·) (funext fun ⟨gs, k₂⟩ => ?_)
      cases gs <;> rfl
  | bracket f =>
      refine congrArg (closeEmpty f fs k₁ >>= ·) (funext fun ⟨gs, k₂⟩ => ?_)
      cases gs <;> rfl

theorem closeFrames_close (f : Frame) (hb : IsBlanks b) (fs : List Frame) (rest : List Char) (i : Nat) :
    ∃ j, closeFrames (f :: fs) ⟨b ++ f.closer :: rest, i⟩ = closeFrames fs ⟨rest, j⟩ := by
  have hcloser : Cursor.isBlank f.closer = false ∧ f.closer ≠ ',' := by
    cases f <;> exact ⟨rfl, by decide⟩
  obtain ⟨j, hblanks⟩ := skipBlanks_complete hb hcloser.1 rest i
  refine ⟨j + f.closer.utf8Size, ?_⟩
  simp only [closeFrames, hblanks, peek?_cons, if_neg hcloser.2, if_true, advance_cons]

theorem closeFrames_comma (f : Frame) (hb : IsBlanks b) (fs : List Frame) (rest : List Char) (i : Nat) :
    ∃ j, closeFrames (f :: fs) ⟨b ++ ',' :: rest, i⟩ = .ok (f :: fs, ⟨rest, j⟩) := by
  obtain ⟨j, hblanks⟩ := skipBlanks_complete (c := ',') hb rfl rest i
  refine ⟨j + ','.utf8Size, ?_⟩
  simp only [closeFrames, hblanks, peek?_cons, if_true, advance_cons]

theorem closeEmpty_close (f : Frame) (hb : IsBlanks b) (fs : List Frame) (rest : List Char) (i : Nat) :
    ∃ j, closeEmpty f fs ⟨b ++ f.closer :: rest, i⟩ = closeFrames fs ⟨rest, j⟩ := by
  have hcloser : Cursor.isBlank f.closer = false := by cases f <;> rfl
  obtain ⟨j, hblanks⟩ := skipBlanks_complete hb hcloser rest i
  refine ⟨j + f.closer.utf8Size, ?_⟩
  simp only [closeEmpty, hblanks, peek?_cons, if_true, advance_cons]

/-- **A bracket that is not empty** is left open, and its first value is next. -/
theorem closeEmpty_open (hkey : IsKey f key) (hb : IsBlanks b) (hv : IsValue v) (fs : List Frame)
    (rest : List Char) (n i : Nat) :
    ∃ b' j, IsBlanks b' ∧ (closeEmpty f fs ⟨key ++ (b ++ (v ++ rest)), i⟩ >>= goOn n) =
      skipFrom n (f :: fs) ⟨b' ++ (v ++ rest), j⟩ := by
  cases hkey with
  | list =>
      obtain ⟨c, r, rfl, hblank, hcloser⟩ := hv.head
      obtain ⟨j, hblanks⟩ := skipBlanks_complete hb hblank (r ++ rest) i
      refine ⟨[], j, All.nil, ?_⟩
      simp only [List.nil_append, List.cons_append, closeEmpty, hblanks, peek?_cons, if_neg hcloser]
      rfl
  | @object b₀ b' w hb₀ hw hb' =>
      -- the blanks before the name have been passed when the name is
      obtain ⟨j₁, hblanks⟩ := skipBlanks_complete (c := '"') hb₀ rfl
        (w ++ '"' :: (b' ++ ':' :: (b ++ (v ++ rest)))) i
      obtain ⟨j₂, hskip⟩ := skipKeyIn_complete (.object (b := []) All.nil hw hb') (b ++ (v ++ rest)) j₁
      simp only [List.append_assoc, List.cons_append, List.nil_append] at hskip ⊢
      refine ⟨b, j₂, hb, ?_⟩
      have hcloser : ¬ '"' = Frame.object.closer := by decide
      simp only [closeEmpty, hblanks, peek?_cons, if_neg hcloser]
      exact congrArg (· >>= skipFrom n (.object :: fs)) hskip

/-- What a piece of the grammar does to a run: a value, with whitespace before it, takes it to where a value has
    been passed, and the rest of a bracket closes that bracket. The turns that are left, `n`, cover the text. -/
def Passed : Piece → List Char → Prop
  | .value, v => ∀ (fs : List Frame) (b rest : List Char) (n i : Nat), IsBlanks b → Stops rest →
      (v ++ rest).length ≤ n →
      ∃ m j, skipFrom n fs ⟨b ++ (v ++ rest), i⟩ = afterValue m fs ⟨rest, j⟩ ∧ rest.length ≤ m
  | .rest f, t => ∀ (fs : List Frame) (rest : List Char) (n i : Nat), (t ++ rest).length ≤ n →
      ∃ m j, afterValue n (f :: fs) ⟨t ++ rest, i⟩ = afterValue m fs ⟨rest, j⟩ ∧ rest.length ≤ m

theorem skipFrom_bracket (f : Frame) (hb : IsBlanks b) (fs : List Frame) (rest : List Char) (n i : Nat) :
    ∃ j, skipFrom (n + 1) fs ⟨b ++ f.opener :: rest, i⟩ = (closeEmpty f fs ⟨rest, j⟩ >>= goOn n) := by
  have hopener : Cursor.isBlank f.opener = false := by cases f <;> rfl
  obtain ⟨j, hblanks⟩ := skipBlanks_complete hb hopener rest i
  have hskip : skipScalar ⟨f.opener :: rest, j⟩ =
      .ok (.bracket f, ⟨rest, j + f.opener.utf8Size⟩) := by cases f <;> rfl
  refine ⟨j + f.opener.utf8Size, ?_⟩
  rw [skipFrom_succ, hblanks, hskip]
  rfl

/-- **The grammar is passed over**, by induction on a derivation. -/
theorem Written.passed {p : Piece} (h : Written p t) : Passed p t := by
  induction h with
  | @scalar t ht =>
      intro fs b rest n i hb hrest hn
      obtain ⟨c, r, hc, hblank, -⟩ := IsValue.head (.scalar ht)
      obtain ⟨j₁, hblanks⟩ := skipBlanks_complete hb hblank (r ++ rest) i
      obtain ⟨j, hskip⟩ := skipScalar_complete ht hrest j₁
      subst hc
      obtain ⟨n, rfl⟩ : ∃ m, n = m + 1 := ⟨n - 1, by simp at hn; omega⟩
      refine ⟨n, j, ?_, by simp at hn; omega⟩
      rw [List.cons_append] at hskip ⊢
      rw [skipFrom_succ, hblanks, hskip]
      rfl
  | @empty b' f hb' =>
      intro fs b rest n i hb hrest hn
      obtain ⟨n, rfl⟩ : ∃ m, n = m + 1 := ⟨n - 1, by simp at hn; omega⟩
      obtain ⟨j₁, hopen⟩ := skipFrom_bracket f hb fs (b' ++ f.closer :: rest) n i
      obtain ⟨j, hclose⟩ := closeEmpty_close f hb' fs rest j₁
      refine ⟨n, j, ?_, by simp at hn; omega⟩
      simp only [List.cons_append, List.append_assoc, List.nil_append]
      rw [hopen, hclose]
      rfl
  | @bracket f key b' v t hkey hb' hv ht ihv iht =>
      intro fs b rest n i hb hrest hn
      simp only [List.cons_append, List.append_assoc] at hn ⊢
      obtain ⟨n, rfl⟩ : ∃ m, n = m + 1 := ⟨n - 1, by simp at hn; omega⟩
      obtain ⟨j₁, hopen⟩ := skipFrom_bracket f hb fs (key ++ (b' ++ (v ++ (t ++ rest)))) n i
      obtain ⟨b'', j₂, hb'', hfirst⟩ := closeEmpty_open hkey hb' hv fs (t ++ rest) n j₁
      obtain ⟨m₁, j₃, hvalue, hm₁⟩ := ihv (f :: fs) b'' (t ++ rest) n j₂ hb''
        (ht.stops rest) (by simp at hn ⊢; omega)
      obtain ⟨m, j, hclose, hm⟩ := iht fs rest m₁ j₃ hm₁
      exact ⟨m, j, by rw [hopen, hfirst, hvalue, hclose], hm⟩
  | close f hb =>
      intro fs rest n i hn
      obtain ⟨j, hclose⟩ := closeFrames_close f hb fs rest i
      refine ⟨n, j, ?_, by simp at hn; omega⟩
      rw [List.append_assoc, List.singleton_append, afterValue, hclose]
      rfl
  | @next f b key b' v t hb hkey hb' hv ht ihv iht =>
      intro fs rest n i hn
      simp only [List.cons_append, List.append_assoc] at hn ⊢
      obtain ⟨j₁, hcomma⟩ := closeFrames_comma f hb fs (key ++ (b' ++ (v ++ (t ++ rest)))) i
      obtain ⟨j₂, hskip⟩ := skipKeyIn_complete hkey (b' ++ (v ++ (t ++ rest))) j₁
      obtain ⟨m₁, j₃, hvalue, hm₁⟩ := ihv (f :: fs) b' (t ++ rest) n j₂ hb'
        (ht.stops rest) (by simp at hn ⊢; omega)
      obtain ⟨m, j, hclose, hm⟩ := iht fs rest m₁ j₃ hm₁
      refine ⟨m, j, ?_, hm⟩
      rw [← hclose, ← hvalue, afterValue, hcomma]
      exact congrArg (· >>= skipFrom n (f :: fs)) hskip

/-- **A value is passed over**, whatever it holds. -/
theorem skipValue_complete (hv : IsValue v) (hb : IsBlanks b) (hrest : Stops rest) (i : Nat) :
    ∃ j, skipValue ⟨b ++ (v ++ rest), i⟩ = .ok ⟨rest, j⟩ := by
  obtain ⟨m, j, hskip, -⟩ := hv.passed [] b rest (b ++ (v ++ rest)).length i hb hrest
    (by simp only [List.length_append]; omega)
  exact ⟨j, hskip⟩

/-! ## What is passed over is a value -/

/-- Texts that close the open brackets `fs`, innermost first. -/
def Closes : List Frame → List Char → Prop
  | [], t      => t = []
  | f :: fs, t => ∃ t₁ t₂, t = t₁ ++ t₂ ∧ Written (.rest f) t₁ ∧ Closes fs t₂

/-- Texts of a value in the innermost of the open brackets and of what closes them all. -/
def Completes (fs : List Frame) (t : List Char) : Prop :=
  ∃ b v t', t = b ++ (v ++ t') ∧ IsBlanks b ∧ IsValue v ∧ Closes fs t'

/-- What a text must go on with when the brackets `fs` are still open and another value must follow. -/
def GoesOn : List Frame → List Char → Prop
  | [], t      => t = []
  | f :: fs, t => ∃ key t', t = key ++ t' ∧ IsKey f key ∧ Completes (f :: fs) t'

theorem Closes.close (hb : IsBlanks b) (h : Closes fs t) : Closes (f :: fs) (b ++ f.closer :: t) :=
  ⟨b ++ [f.closer], t, by rw [List.append_assoc, List.singleton_append], .close f hb, h⟩

theorem Closes.comma (hb : IsBlanks b) (h : GoesOn (f :: fs) t) : Closes (f :: fs) (b ++ ',' :: t) := by
  obtain ⟨key, _, rfl, hkey, b', v, _, rfl, hb', hv, t₁, t₂, rfl, ht₁, ht₂⟩ := h
  refine ⟨b ++ ',' :: key ++ b' ++ v ++ t₁, t₂, ?_, .next hb hkey hb' hv ht₁, ht₂⟩
  simp only [List.append_assoc, List.cons_append]

/-- What closes brackets leaves a text that must go on with those that are open. -/
theorem closeFrames_sound (h : closeFrames fs k = .ok (gs, k')) :
    ∃ t, k.rest = t ++ k'.rest ∧ ∀ t', GoesOn gs t' → Closes fs (t ++ t') := by
  induction fs generalizing k with
  | nil =>
      cases h
      exact ⟨[], rfl, fun t' h => h⟩
  | cons f fs ih =>
      obtain ⟨b, hb, hk⟩ := skipBlanks_sound k
      unfold closeFrames at h
      dsimp only at h
      split at h
      · cases h
      · next c hpeek =>
          rw [rest_of_peek? hpeek] at hk
          split at h
          · next hc =>
              cases h
              refine ⟨b ++ [','], by rw [hk, hc, List.append_assoc, List.singleton_append], ?_⟩
              intro t' ht'
              rw [List.append_assoc, List.singleton_append]
              exact .comma hb ht'
          · split at h
            · next hc =>
                obtain ⟨t, ht, hgoes⟩ := ih h
                refine ⟨b ++ f.closer :: t, by rw [hk, hc, ht, List.append_assoc, List.cons_append], ?_⟩
                intro t' ht'
                rw [List.append_assoc, List.cons_append]
                exact .close hb (hgoes t' ht')
            · cases h

/-- Whitespace before a key belongs to it, or to what follows where there is none. -/
theorem IsKey.after_blanks {b' : List Char} (hb : IsBlanks b) (hkey : IsKey f key) (hb' : IsBlanks b') :
    ∃ key' b'', b ++ (key ++ b') = key' ++ b'' ∧ IsKey f key' ∧ IsBlanks b'' := by
  cases hkey with
  | list => exact ⟨[], b ++ b', rfl, .list, All.append hb hb'⟩
  | @object b₀ b₁ w hb₀ hw hb₁ =>
      refine ⟨b ++ b₀ ++ '"' :: w ++ '"' :: b₁ ++ [':'], b', ?_, .object (All.append hb hb₀) hw hb₁, hb'⟩
      simp only [List.append_assoc, List.cons_append]

/-- The same of a bracket that has just been opened: it is empty, or its first value is next. -/
theorem closeEmpty_sound (h : closeEmpty f fs k = .ok (gs, k')) :
    ∃ t, k.rest = t ++ k'.rest ∧
      ∀ t', GoesOn gs t' → ∃ v t'', f.opener :: (t ++ t') = v ++ t'' ∧ IsValue v ∧ Closes fs t'' := by
  obtain ⟨b, hb, hk⟩ := skipBlanks_sound k
  unfold closeEmpty at h
  dsimp only at h
  split at h
  · cases h
  · next c hpeek =>
      split at h
      · next hc =>
          obtain ⟨t, ht, hgoes⟩ := closeFrames_sound h
          refine ⟨b ++ f.closer :: t, ?_, ?_⟩
          · rw [hk, rest_of_peek? hpeek, hc, ht, List.append_assoc, List.cons_append]
          · intro t' ht'
            refine ⟨f.opener :: b ++ [f.closer], t ++ t', ?_, .empty f hb, hgoes t' ht'⟩
            simp only [List.append_assoc, List.cons_append, List.nil_append]
      · cases h
        refine ⟨b, hk, ?_⟩
        rintro _ ⟨key, _, rfl, hkey, b', v, _, rfl, hb', hv, t₁, t₂, rfl, ht₁, ht₂⟩
        obtain ⟨key', b'', hkey', hwritten, hb''⟩ := hkey.after_blanks hb hb'
        refine ⟨f.opener :: key' ++ b'' ++ v ++ t₁, t₂, ?_, .bracket hwritten hb'' hv ht₁, ht₂⟩
        have happend := congrArg (· ++ (v ++ (t₁ ++ t₂))) hkey'
        simp only [List.append_assoc, List.cons_append] at happend ⊢
        rw [happend]

/-- **What a run passes over is a value and the ends of the brackets it began in.** -/
theorem skipFrom_sound (h : skipFrom n fs k = .ok k') :
    ∃ t, k.rest = t ++ k'.rest ∧ Completes fs t := by
  induction n generalizing fs k with
  | zero => cases h
  | succ n ih =>
      -- when brackets have been closed the run ends, or goes on behind the next key
      have goOn_sound {gs : List Frame} {k : Cursor} (h : goOn n (gs, k) = .ok k') :
          ∃ t, k.rest = t ++ k'.rest ∧ GoesOn gs t := by
        cases gs with
        | nil =>
            cases h
            exact ⟨[], rfl, rfl⟩
        | cons g gs =>
            obtain ⟨k₁, hskip, h⟩ := bind_eq_ok.mp h
            obtain ⟨key, hk, hkey⟩ := skipKeyIn_sound hskip
            obtain ⟨t, hk₁, ht⟩ := ih h
            exact ⟨key ++ t, by rw [hk, hk₁, List.append_assoc], key, t, rfl, hkey, ht⟩
      rw [skipFrom_succ] at h
      obtain ⟨b, hb, hk⟩ := skipBlanks_sound k
      obtain ⟨⟨o, k₁⟩, hscalar, h⟩ := bind_eq_ok.mp h
      rcases skipScalar_sound hscalar with ⟨rfl, v, hk₁, hv⟩ | ⟨f, rfl, hk₁⟩
      · obtain ⟨⟨gs, k₂⟩, hclose, h⟩ := bind_eq_ok.mp h
        obtain ⟨t, hk₂, hcloses⟩ := closeFrames_sound hclose
        obtain ⟨t', ht', hgoes⟩ := goOn_sound h
        refine ⟨b ++ (v ++ (t ++ t')), ?_, b, v, t ++ t', rfl, hb, .scalar hv, hcloses t' hgoes⟩
        rw [hk, hk₁, hk₂, ht']
        simp only [List.append_assoc]
      · obtain ⟨⟨gs, k₂⟩, hclose, h⟩ := bind_eq_ok.mp h
        obtain ⟨t, hk₂, hcloses⟩ := closeEmpty_sound hclose
        obtain ⟨t', ht', hgoes⟩ := goOn_sound h
        obtain ⟨v, t'', hv, hvalue, ht''⟩ := hcloses t' hgoes
        refine ⟨b ++ (v ++ t''), ?_, b, v, t'', rfl, hb, hvalue, ht''⟩
        rw [hk, hk₁, hk₂, ht', ← hv]
        simp only [List.append_assoc, List.cons_append]

theorem skipValue_sound (h : skipValue k = .ok k') :
    ∃ b v, k.rest = b ++ (v ++ k'.rest) ∧ IsBlanks b ∧ IsValue v := by
  obtain ⟨_, hk, b, v, _, rfl, hb, hv, rfl⟩ := skipFrom_sound h
  refine ⟨b, v, ?_, hb, hv⟩
  rw [hk, List.append_nil, List.append_assoc]

end Json
end ScriptSpacing
