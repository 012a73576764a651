import ScriptSpacing.Document
import ScriptSpacing.Proofs.Token.Classes

/-!
# `Proofs.Document.Offsets` — where the tokens of a text begin

Two functions look up the place of a token: `offset?` adds sizes until it is at the token, and `positionsFrom`
steps a line and a column over the bytes. Both come to the same place, since the tokens put together are the
text: a token begins behind the text of those in front of it (`start`). Its bytes are its own
(`Covers.unique`), and the text goes on there with the token's text (`source_split`).
-/

namespace ScriptSpacing

/-- Reading on from where some bytes lead. -/
theorem Position.past_append (p : Position) (xs ys : List UInt8) :
    p.past (xs ++ ys) = (p.past xs).past ys := List.foldl_append

namespace Token
open Text

variable {ts : List Token} {t : Token} {i j k : Nat}

/-- The byte at which the `i`-th of the tokens of a text begins. -/
def start (ts : List Token) (i : Nat) : Nat := (source (ts.take i)).utf8ByteSize

/-- **The byte `k` of a text belongs to its token `i`.** -/
def Covers (ts : List Token) (i k : Nat) : Prop := start ts i ≤ k ∧ k < start ts (i + 1)

/-- The text in front of a token, the token's, and the text behind it. -/
theorem source_split (h : ts[i]? = some t) :
    source ts = source (ts.take i) ++ (t.text ++ source (ts.drop (i + 1))) := by
  obtain ⟨hi, hget⟩ := List.getElem?_eq_some_iff.mp h
  rw [← source_cons, ← source_append, ← hget, ← List.drop_eq_getElem_cons, List.take_append_drop]

theorem start_succ (h : ts[i]? = some t) : start ts (i + 1) = start ts i + t.size := by
  rw [start, start, List.take_add_one, h, Option.toList_some, source_append, source_cons,
    String.utf8ByteSize_append, String.utf8ByteSize_append]
  rfl

theorem start_mono (h : i ≤ j) : start ts i ≤ start ts j := by
  obtain ⟨rest, hrest⟩ : ts.take i <+: ts.take j := List.take_prefix_take_left h
  rw [start, start, ← hrest, source_append, String.utf8ByteSize_append]
  exact Nat.le_add_right _ _

/-- **A byte belongs to one token.** -/
theorem Covers.unique (h : Covers ts i k) (h' : Covers ts j k) : i = j := by
  by_contra hne
  rcases Nat.lt_or_gt_of_ne hne with hlt | hgt
  · exact absurd (Nat.lt_of_lt_of_le h.2 (start_mono hlt)) (Nat.not_lt_of_le h'.1)
  · exact absurd (Nat.lt_of_lt_of_le h'.2 (start_mono hgt)) (Nat.not_lt_of_le h.1)

/-- The first byte of a token with a text belongs to it. -/
theorem covers_start_iff (h : ts[i]? = some t) (ht : 0 < t.size) :
    Covers ts j (start ts i) ↔ j = i := by
  have hself : Covers ts i (start ts i) := by
    refine ⟨Nat.le_refl _, ?_⟩
    rw [start_succ h]
    exact Nat.lt_add_of_pos_right ht
  constructor
  · intro hj
    exact hj.unique hself
  · rintro rfl
    exact hself

/-- **The offset of a token is the size of what is in front of it.** -/
theorem offset?_eq_some_iff : offset? ts i = some k ↔ i < ts.length ∧ k = start ts i := by
  induction ts generalizing i k with
  | nil => simp [offset?]
  | cons t ts ih =>
      cases i with
      | zero =>
          rw [offset?, Option.some_inj, eq_comm]
          exact ⟨fun hk => ⟨Nat.succ_pos _, hk⟩, fun hk => hk.2⟩
      | succ i =>
          have hstart : start (t :: ts) (i + 1) = t.size + start ts i := by
            rw [start, List.take_succ_cons, source_cons, String.utf8ByteSize_append]
            rfl
          rw [offset?, Option.map_eq_some_iff, hstart, List.length_cons, Nat.add_lt_add_iff_right]
          constructor
          · rintro ⟨m, hm, rfl⟩
            obtain ⟨hi, rfl⟩ := ih.mp hm
            exact ⟨hi, rfl⟩
          · rintro ⟨hi, rfl⟩
            exact ⟨start ts i, ih.mpr ⟨hi, rfl⟩, rfl⟩

theorem getElem?_positionsFrom {p : Position} (hi : i < ts.length) :
    (positionsFrom p ts)[i]? = some (p.past (bytes (source (ts.take i)))) := by
  induction ts generalizing p i with
  | nil => exact absurd hi (Nat.not_lt_zero i)
  | cons t ts ih =>
      cases i with
      | zero => rfl
      | succ i =>
          rw [positionsFrom, List.getElem?_cons_succ, ih (Nat.lt_of_succ_lt_succ hi),
            List.take_succ_cons, source_cons, bytes_append, Position.past_append]

/-- **The table of positions has the position at which a token begins.** -/
theorem getElem?_positions (hi : i < ts.length) :
    (positionsFrom .start ts)[i]? = some (positionAt (source ts) (start ts i)) := by
  have hbytes : (bytes (source ts)).take (start ts i) = bytes (source (ts.take i)) := by
    rw [← List.take_append_drop i ts, source_append, bytes_append, List.take_append_drop, start,
      ← length_bytes, List.take_left]
  rw [getElem?_positionsFrom hi, positionAt, hbytes]
  rfl

/-- The bytes of a text from a token on begin with those of the token. -/
theorem drop_bytes_start (h : ts[i]? = some t) : (bytes (source ts)).drop (start ts i) =
    bytes t.text ++ bytes (source (ts.drop (i + 1))) := by
  rw [source_split h, bytes_append, bytes_append, start, ← length_bytes, List.drop_left]

end Token
end ScriptSpacing
