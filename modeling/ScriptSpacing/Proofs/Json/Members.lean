import ScriptSpacing.Json.Members
import ScriptSpacing.Proofs.Json.Numeral

/-!
# `Proofs.Json.Members` — the steps between members, as written and as read

A member of an object and an element of a list are set off alike: whitespace, a comma unless it is the first, and
whitespace again.
-/

namespace ScriptSpacing
namespace Json
open Text (All)

/-- The comma before a member that is not the first. -/
def separator (first : Bool) : List Char := if first then [] else [',']

variable {b b' rest t w : List Char} {c : Char} {first : Bool} {s : String} {k k' : Cursor}

/-! ## Objects -/

theorem nextKey_end (hb : IsBlanks b) (first : Bool) (rest : List Char) (i : Nat) :
    ∃ j, nextKey first ⟨b ++ '\x7d' :: rest, i⟩ = .ok (none, ⟨'\x7d' :: rest, j⟩) := by
  obtain ⟨j, hblanks⟩ := skipBlanks_complete (c := '\x7d') hb rfl rest i
  refine ⟨j, ?_⟩
  simp only [nextKey, hblanks, peek?_cons, if_true]

theorem readKey_complete (hw : Spells w s.toList) (rest : List Char) (i : Nat) :
    ∃ j, readKey ⟨'"' :: (w ++ '"' :: rest), i⟩ = .ok (some s, ⟨rest, j⟩) := by
  obtain ⟨j, hread⟩ := readString_complete hw rest (i + '"'.utf8Size)
  refine ⟨j, ?_⟩
  simp only [readKey, peek?_cons, if_true, advance_cons, hread]

/-- **A name is read behind what sets it off.** -/
theorem nextKey_complete (hb : IsBlanks b) (hb' : IsBlanks b') (hw : Spells w s.toList) (first : Bool)
    (rest : List Char) (i : Nat) :
    ∃ j, nextKey first ⟨b ++ (separator first ++ (b' ++ '"' :: (w ++ '"' :: rest))), i⟩ =
      .ok (some s, ⟨rest, j⟩) := by
  have hbrace : ¬ '"' = '\x7d' ∧ ¬ ',' = '\x7d' := by decide
  cases first with
  | true =>
      obtain ⟨j₁, hblanks⟩ := skipBlanks_complete (c := '"') (All.append hb hb') rfl (w ++ '"' :: rest) i
      obtain ⟨j, hread⟩ := readKey_complete hw rest j₁
      refine ⟨j, ?_⟩
      rw [List.append_assoc] at hblanks
      simp only [separator, if_true, List.nil_append, nextKey, hblanks, peek?_cons, hbrace.1, if_false, hread]
  | false =>
      obtain ⟨j₁, hblanks⟩ :=
        skipBlanks_complete (c := ',') hb rfl (b' ++ '"' :: (w ++ '"' :: rest)) i
      obtain ⟨j₂, hblanks'⟩ :=
        skipBlanks_complete (c := '"') hb' rfl (w ++ '"' :: rest) (j₁ + ','.utf8Size)
      obtain ⟨j, hread⟩ := readKey_complete hw rest j₂
      refine ⟨j, ?_⟩
      simp only [separator, Bool.false_eq_true, if_false, List.cons_append, List.nil_append, nextKey,
        hblanks, peek?_cons, hbrace.2, if_true, advance_cons, hblanks', hread]

theorem readKey_sound {o : Option String} (h : readKey k = .ok (o, k')) :
    ∃ w s, k.rest = '"' :: (w ++ '"' :: k'.rest) ∧ Spells w s.toList ∧ o = some s := by
  unfold readKey at h
  split at h
  · cases h
  · next c hpeek =>
      split at h
      · next hc =>
          split at h
          · next s k₁ hread =>
              cases h
              obtain ⟨w, hrest, hw⟩ := readString_sound hread
              exact ⟨w, s, by rw [rest_of_peek? hpeek, hc, hrest], hw, rfl⟩
          · cases h
      · split at h <;> cases h

/-- What the next name is read from, or that there is none. -/
theorem nextKey_sound {o : Option String} (h : nextKey first k = .ok (o, k')) :
    (∃ b r, k.rest = b ++ '\x7d' :: r ∧ k'.rest = '\x7d' :: r ∧ IsBlanks b ∧ o = none) ∨
      ∃ b b' w s, k.rest = b ++ (separator first ++ (b' ++ '"' :: (w ++ '"' :: k'.rest))) ∧
        IsBlanks b ∧ IsBlanks b' ∧ Spells w s.toList ∧ o = some s := by
  obtain ⟨b, hb, hk⟩ := skipBlanks_sound k
  unfold nextKey at h
  dsimp only at h
  split at h
  · cases h
  · next c hpeek =>
      have hrest := rest_of_peek? hpeek
      split at h
      · next hc =>
          cases h
          exact .inl ⟨b, _, by rw [hk, hrest, hc], by rw [hrest, hc], hb, rfl⟩
      · split at h
        · next hfirst =>
            obtain ⟨w, s, hw, hspells, ho⟩ := readKey_sound h
            refine .inr ⟨b, [], w, s, ?_, hb, All.nil, hspells, ho⟩
            rw [hk, hw, separator, if_pos hfirst, List.nil_append, List.nil_append]
        · next hfirst =>
            split at h
            · next hc =>
                obtain ⟨b', hb', hk'⟩ := skipBlanks_sound k.skipBlanks.advance
                obtain ⟨w, s, hw, hspells, ho⟩ := readKey_sound h
                refine .inr ⟨b, b', w, s, ?_, hb, hb', hspells, ho⟩
                rw [hk, hrest, hc, hk', hw, separator, if_neg hfirst, List.singleton_append]
            · cases h

theorem readColon_complete (hb : IsBlanks b) (rest : List Char) (i : Nat) :
    ∃ j, readColon ⟨b ++ ':' :: rest, i⟩ = .ok ⟨rest, j⟩ := by
  obtain ⟨j, hblanks⟩ := skipBlanks_complete (c := ':') hb rfl rest i
  refine ⟨j + ':'.utf8Size, ?_⟩
  simp only [readColon, hblanks, peek?_cons, if_true, advance_cons]

theorem readColon_sound (h : readColon k = .ok k') : ∃ b, k.rest = b ++ ':' :: k'.rest ∧ IsBlanks b := by
  obtain ⟨b, hb, hk⟩ := skipBlanks_sound k
  unfold readColon at h
  dsimp only at h
  split at h
  · cases h
  · next c hpeek =>
      split at h
      · next hc =>
          cases h
          exact ⟨b, by rw [hk, rest_of_peek? hpeek, hc], hb⟩
      · cases h

/-- The closing brace is passed. -/
theorem passBrace_complete (rest : List Char) (i : Nat) :
    ∃ j, passBrace ⟨'\x7d' :: rest, i⟩ = ⟨rest, j⟩ := by
  obtain ⟨j, hblanks⟩ := skipBlanks_complete (b := []) (c := '\x7d') All.nil rfl rest i
  rw [List.nil_append] at hblanks
  refine ⟨j + '\x7d'.utf8Size, ?_⟩
  simp only [passBrace, hblanks, peek?_cons, if_true, advance_cons]

theorem rest_passBrace (h : k.rest = '\x7d' :: rest) : (passBrace k).rest = rest := by
  obtain ⟨_, i⟩ := k
  subst h
  obtain ⟨j, hpass⟩ := passBrace_complete rest i
  rw [hpass]

/-! ## Lists -/

theorem nextElement_end (hb : IsBlanks b) (first : Bool) (rest : List Char) (i : Nat) :
    ∃ j, nextElement first ⟨b ++ ']' :: rest, i⟩ = .ok (false, ⟨']' :: rest, j⟩) := by
  obtain ⟨j, hblanks⟩ := skipBlanks_complete (c := ']') hb rfl rest i
  refine ⟨j, ?_⟩
  simp only [nextElement, hblanks, peek?_cons, if_true]

/-- **An element is come to behind what sets it off.** -/
theorem nextElement_complete (hb : IsBlanks b) (hb' : IsBlanks b') (hblank : Cursor.isBlank c = false)
    (hc : c ≠ ']') (first : Bool) (rest : List Char) (i : Nat) :
    ∃ j, nextElement first ⟨b ++ (separator first ++ (b' ++ c :: rest)), i⟩ =
      .ok (true, ⟨c :: rest, j⟩) := by
  cases first with
  | true =>
      obtain ⟨j, hblanks⟩ := skipBlanks_complete (All.append hb hb') hblank rest i
      refine ⟨j, ?_⟩
      rw [List.append_assoc] at hblanks
      simp only [separator, if_true, List.nil_append, nextElement, hblanks, peek?_cons, if_neg hc]
  | false =>
      have hcomma : ¬ ',' = ']' := by decide
      obtain ⟨j₁, hblanks⟩ := skipBlanks_complete (c := ',') hb rfl (b' ++ c :: rest) i
      obtain ⟨j, hblanks'⟩ := skipBlanks_complete hb' hblank rest (j₁ + ','.utf8Size)
      refine ⟨j, ?_⟩
      simp only [separator, Bool.false_eq_true, if_false, List.cons_append, List.nil_append,
        nextElement, hblanks, peek?_cons, hcomma, if_true, advance_cons, hblanks', if_neg hc]

theorem nextElement_sound {more : Bool} (h : nextElement first k = .ok (more, k')) :
    (∃ b, k.rest = b ++ k'.rest ∧ IsBlanks b ∧ more = false) ∨
      ∃ b b', k.rest = b ++ (separator first ++ (b' ++ k'.rest)) ∧ IsBlanks b ∧ IsBlanks b' ∧
        more = true := by
  obtain ⟨b, hb, hk⟩ := skipBlanks_sound k
  unfold nextElement at h
  dsimp only at h
  split at h
  · cases h
  · next c hpeek =>
      split at h
      · cases h
        exact .inl ⟨b, hk, hb, rfl⟩
      · split at h
        · next hfirst =>
            cases h
            refine .inr ⟨b, [], ?_, hb, All.nil, rfl⟩
            rw [separator, if_pos hfirst, List.nil_append, List.nil_append]
            exact hk
        · next hfirst =>
            split at h
            · next hc =>
                obtain ⟨b', hb', hk'⟩ := skipBlanks_sound k.skipBlanks.advance
                split at h
                · cases h
                · split at h
                  · cases h
                  · cases h
                    refine .inr ⟨b, b', ?_, hb, hb', rfl⟩
                    rw [hk, rest_of_peek? hpeek, hc, hk', separator, if_neg hfirst,
                      List.singleton_append]
            · cases h

theorem closeList_complete (hb : IsBlanks b) (rest : List Char) (i : Nat) :
    ∃ j, closeList ⟨b ++ ']' :: rest, i⟩ = .ok ⟨rest, j⟩ := by
  obtain ⟨j, hblanks⟩ := skipBlanks_complete (c := ']') hb rfl rest i
  refine ⟨j + ']'.utf8Size, ?_⟩
  simp only [closeList, hblanks, peek?_cons, if_true, advance_cons]

theorem closeList_sound (h : closeList k = .ok k') : ∃ b, k.rest = b ++ ']' :: k'.rest ∧ IsBlanks b := by
  obtain ⟨b, hb, hk⟩ := skipBlanks_sound k
  unfold closeList at h
  dsimp only at h
  split at h
  · cases h
  · next c hpeek =>
      split at h
      · next hc =>
          cases h
          exact ⟨b, by rw [hk, rest_of_peek? hpeek, hc], hb⟩
      · split at h <;> cases h

/-! ## The end -/

/-- **Whitespace and nothing else may be left.** -/
theorem finish_eq_ok_iff : finish k = .ok () ↔ IsBlanks k.rest := by
  have hend : k.skipBlanks.rest.isEmpty = true ↔ IsBlanks k.rest := by
    rw [List.isEmpty_iff, Cursor.skipBlanks, Cursor.rest_skipWhile, List.dropWhile_eq_nil_iff]
    rfl
  rw [← hend, finish]
  split
  · next h => exact ⟨fun _ => h, fun _ => rfl⟩
  · next h => exact ⟨nofun, fun hempty => absurd hempty h⟩

end Json
end ScriptSpacing
