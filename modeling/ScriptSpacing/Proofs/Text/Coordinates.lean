import Mathlib.Data.List.Induction
import ScriptSpacing.Text.Position

/-!
# `Proofs.Text.Coordinates` — lines and columns as coordinates

A position is read off by stepping over the bytes in front of it, one at a time. The same two numbers come from
two searches: the line is one more than the line feeds in front of the offset, and the column is counted from
where the line begins, at the start of the text or behind the last of these line feeds (`after_eq`). Each step
moves a position ahead, to a later line or further along its line, so positions are in the order of their
offsets (`before_past`). Line and column together are therefore coordinates: no two offsets of a text share
them, and the offset is found again by counting the column from where the line begins.
-/

namespace ScriptSpacing

namespace Position

/-- The order of reading: by line, and within a line by column. -/
def Before (p q : Position) : Prop := p.line < q.line ∨ (p.line = q.line ∧ p.column < q.column)

variable {p q r : Position}

theorem Before.trans (h : p.Before q) (h' : q.Before r) : p.Before r := by
  unfold Before at *
  omega

/-- **A step moves ahead.** -/
theorem before_step (p : Position) (b : UInt8) : p.Before (p.step b) := by
  unfold step
  split
  · exact .inl (Nat.lt_succ_self _)
  · exact .inr ⟨rfl, Nat.lt_succ_self _⟩

theorem before_past (p : Position) {bytes : List UInt8} (h : bytes ≠ []) : p.Before (p.past bytes) := by
  induction bytes generalizing p with
  | nil => exact absurd rfl h
  | cons b bytes ih =>
      cases bytes with
      | nil => exact before_step p b
      | cons next bytes => exact (before_step p b).trans (ih (p.step b) (List.cons_ne_nil _ _))

theorem after_concat (bytes : List UInt8) (b : UInt8) : after (bytes ++ [b]) = (after bytes).step b := by
  rw [after, past, List.foldl_append]
  rfl

end Position

namespace Text
open Position

variable {bs : List UInt8} {b : UInt8} {offset k l : Nat}

/-! ## Where a line begins -/

/-- **The line of an offset begins at `l`**: at the start of the text or one past a line feed, with no line
    feed from there up to the offset. -/
structure BeginsLine (bs : List UInt8) (offset l : Nat) : Prop where
  le     : l ≤ offset
  first  : l = 0 ∨ bs[l - 1]? = some lineFeed
  inside : ∀ i, l ≤ i → i < offset → bs[i]? ≠ some lineFeed

/-- A line begins at one place. -/
theorem BeginsLine.unique (h : BeginsLine bs offset l) (h' : BeginsLine bs offset k) : l = k := by
  -- the line that begins later has a line feed in front of it, which the other would have inside
  have hnot : ∀ {m n : Nat}, BeginsLine bs offset m → BeginsLine bs offset n → ¬m < n := by
    intro m n hm hn hlt
    rcases hn.first with hzero | hfeed
    · omega
    · have := hn.le
      exact hm.inside (n - 1) (by omega) (by omega) hfeed
  exact Nat.le_antisymm (Nat.le_of_not_lt (hnot h' h)) (Nat.le_of_not_lt (hnot h h'))

/-- Where the last line of some bytes begins: the bytes behind the last line feed are its own. -/
def lineStart (bs : List UInt8) : Nat :=
  bs.length - (bs.reverse.takeWhile (· ≠ lineFeed)).length

theorem lineStart_le (bs : List UInt8) : lineStart bs ≤ bs.length := Nat.sub_le _ _

theorem lineStart_concat_lineFeed (bs : List UInt8) :
    lineStart (bs ++ [lineFeed]) = bs.length + 1 := by
  simp [lineStart]

theorem lineStart_concat (h : b ≠ lineFeed) (bs : List UInt8) :
    lineStart (bs ++ [b]) = lineStart bs := by
  rw [lineStart, lineStart, List.reverse_append, List.reverse_singleton, List.singleton_append,
    List.takeWhile_cons_of_pos (by simpa using h), List.length_append, List.length_singleton,
    List.length_cons]
  omega

/-- **The last line begins where it is said to.** -/
theorem beginsLine_lineStart (bs : List UInt8) :
    BeginsLine bs bs.length (lineStart bs) := by
  induction bs using List.reverseRecOn with
  | nil => exact ⟨Nat.le_refl _, .inl rfl, fun i _ hi => absurd hi (Nat.not_lt_zero i)⟩
  | append_singleton bs b ih =>
      rw [List.length_append, List.length_singleton]
      by_cases hb : b = lineFeed
      · subst hb
        rw [lineStart_concat_lineFeed]
        refine ⟨Nat.le_refl _, .inr ?_, fun i hl hi => absurd hi (Nat.not_lt.mpr hl)⟩
        rw [Nat.add_sub_cancel, List.getElem?_concat_length]
      · rw [lineStart_concat hb]
        refine ⟨Nat.le_succ_of_le ih.le, ih.first.imp_right fun hfeed => ?_, fun i hl hi => ?_⟩
        · obtain ⟨hlt, -⟩ := List.getElem?_eq_some_iff.mp hfeed
          rw [List.getElem?_append_left hlt, hfeed]
        · rcases Nat.lt_or_eq_of_le (Nat.le_of_lt_succ hi) with hlt | rfl
          · rw [List.getElem?_append_left hlt]
            exact ih.inside i hl hlt
          · rw [List.getElem?_concat_length]
            exact fun h => hb (Option.some.inj h)

/-- Where a line begins depends on the bytes in front of the offset alone. -/
theorem beginsLine_take_iff (h : offset ≤ bs.length) :
    BeginsLine (bs.take offset) offset l ↔ BeginsLine bs offset l := by
  have hget : ∀ i, i < offset → (bs.take offset)[i]? = bs[i]? := fun i hi => by
    rw [List.getElem?_take_of_lt hi]
  constructor
  · intro hl
    refine ⟨hl.le, hl.first.imp_right fun hfeed => ?_, fun i hi hio => ?_⟩
    · obtain ⟨hlt, -⟩ := List.getElem?_eq_some_iff.mp hfeed
      rw [← hget _ (by rw [List.length_take] at hlt; omega), hfeed]
    · rw [← hget i hio]
      exact hl.inside i hi hio
  · intro hl
    refine ⟨hl.le, ?_, fun i hi hio => ?_⟩
    · rcases Nat.eq_zero_or_pos l with hzero | hpos
      · exact .inl hzero
      · have := hl.le
        rw [hget _ (by omega)]
        exact hl.first
    · rw [hget i hio]
      exact hl.inside i hi hio

/-! ## Two searches -/

/-- **Stepping comes to what a count and a search come to**: one more than the line feeds, and the distance
    from where the last line begins. -/
theorem after_eq (bs : List UInt8) :
    after bs = ⟨bs.count lineFeed + 1, bs.length - lineStart bs + 1⟩ := by
  induction bs using List.reverseRecOn with
  | nil => rfl
  | append_singleton bs b ih =>
      rw [after_concat, ih, step, List.count_append, List.length_append, List.length_singleton]
      by_cases hb : b = lineFeed
      · subst hb
        rw [if_pos rfl, lineStart_concat_lineFeed, List.count_singleton_self, Nat.sub_self]
      · rw [if_neg hb, lineStart_concat hb, List.count_singleton, if_neg (by simpa using hb)]
        have := lineStart_le bs
        rw [Position.mk.injEq]
        exact ⟨rfl, by dsimp only; omega⟩

/-- **Positions are in the order of their offsets.** -/
theorem positionAt_before {s : String} {a b : Nat} (hab : a < b) (hb : b ≤ s.utf8ByteSize) :
    (positionAt s a).Before (positionAt s b) := by
  rw [← length_bytes] at hb
  obtain ⟨rest, hrest⟩ : (bytes s).take a <+: (bytes s).take b :=
    List.take_prefix_take_left (Nat.le_of_lt hab)
  have hne : rest ≠ [] := by
    rintro rfl
    have hlen := congrArg List.length hrest
    rw [List.append_nil, List.length_take, List.length_take] at hlen
    omega
  have hpast : positionAt s b = (positionAt s a).past rest := by
    rw [positionAt, positionAt, ← hrest, after, after, past, List.foldl_append]
    rfl
  rw [hpast]
  exact before_past _ hne

/-- **Lines and columns are coordinates in the order of the text.** Of two offsets up to the end, the first has
    the earlier position, by line and then by column. The line of an offset is one more than the line feeds in
    front of it; it begins at one place, not behind the offset, and the column, at least 1, counts from there,
    so the two give the offset back. Every offset past the end has the position of the end. -/
theorem positionAt_coordinates (s : String) :
    (∀ a b, a < b → b ≤ s.utf8ByteSize → (positionAt s a).Before (positionAt s b)) ∧
    (∀ a, a ≤ s.utf8ByteSize →
      (positionAt s a).line = 1 + ((bytes s).take a).count lineFeed ∧
      1 ≤ (positionAt s a).column ∧
      ∃ l, (∀ k, BeginsLine (bytes s) a k ↔ k = l) ∧ l ≤ a ∧
        (positionAt s a).column = a - l + 1 ∧ l + (positionAt s a).column - 1 = a) ∧
    ∀ a, s.utf8ByteSize ≤ a → positionAt s a = positionAt s s.utf8ByteSize := by
  refine ⟨fun a b => positionAt_before, fun a ha => ?_, fun a ha => ?_⟩
  · have hlen : ((bytes s).take a).length = a := by
      rw [List.length_take, length_bytes, Nat.min_eq_left ha]
    have hbegins : BeginsLine (bytes s) a (lineStart ((bytes s).take a)) := by
      have h := beginsLine_lineStart ((bytes s).take a)
      rw [hlen] at h
      exact (beginsLine_take_iff (length_bytes s ▸ ha)).mp h
    have hle := hbegins.le
    rw [positionAt, after_eq, hlen]
    refine ⟨Nat.add_comm _ _, Nat.le_add_left _ _, _, fun k => ⟨fun h => h.unique hbegins, ?_⟩, hle, rfl, ?_⟩
    · rintro rfl
      exact hbegins
    · dsimp only
      omega
  · rw [positionAt_of_size_le ha, positionAt_of_size_le (Nat.le_refl _)]

/-- An offset inside a character of two bytes, one behind a line feed, and one past the end. -/
theorem positionAt_coordinates_multibyte :
    ((positionAt "é\nb" 1).Before (positionAt "é\nb" 3)) ∧ (positionAt "é\nb" 3).line = 2 ∧
      positionAt "é\nb" 9 = positionAt "é\nb" 4 := by
  refine ⟨(positionAt_coordinates "é\nb").1 1 3 (by decide) (by decide), ?_,
    (positionAt_coordinates "é\nb").2.2 9 (by decide)⟩
  rw [((positionAt_coordinates "é\nb").2.1 3 (by decide)).1]
  decide

end Text
end ScriptSpacing
