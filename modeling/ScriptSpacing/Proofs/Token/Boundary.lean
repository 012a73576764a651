import Mathlib.Data.String.Basic
import ScriptSpacing.Text.Class
import ScriptSpacing.Token.ByteCursor

/-!
# `Proofs.Token.Boundary` — a cursor on the boundaries of characters

`At c front cs` says that the cursor `c` stands between the characters `front` and `cs` of its text. Every
method of a cursor is then told by characters: the bytes left are those of `cs`, the character at the cursor
is the first of `cs`, and moving by the bytes of some characters passes these.

A predicate on bytes can stand in for one on characters when it gives each byte of a character the answer for
the character (`Agree`). Bytes outside ASCII belong to characters outside ASCII only, so two finite tables
decide that.
-/

namespace ScriptSpacing
namespace Text

/-! ## Bytes of characters -/

/-- The UTF-8 bytes of some characters. -/
def encode (cs : List Char) : List UInt8 := cs.flatMap String.utf8EncodeChar

@[simp] theorem encode_nil : encode [] = [] := rfl

@[simp] theorem encode_cons (x : Char) (cs : List Char) :
    encode (x :: cs) = String.utf8EncodeChar x ++ encode cs := rfl

@[simp] theorem encode_append (xs ys : List Char) : encode (xs ++ ys) = encode xs ++ encode ys := by
  simp [encode]

theorem bytes_ofList (cs : List Char) : bytes (String.ofList cs) = encode cs := by
  unfold bytes
  rw [String.toByteArray_ofList]
  show (encode cs).toByteArray.data.toList = encode cs
  rw [List.data_toByteArray]

theorem bytes_eq_encode (s : String) : bytes s = encode s.toList := by
  rw [← bytes_ofList, String.ofList_toList]

@[simp] theorem length_encode (cs : List Char) : (encode cs).length = String.utf8Len cs := by
  induction cs with
  | nil => rfl
  | cons x cs ih =>
      rw [encode_cons, List.length_append, ih, String.length_utf8EncodeChar, String.utf8Len_cons,
        Nat.add_comm]

theorem isAscii_iff {x : Char} : isAscii x = true ↔ x.toNat < 128 := by
  unfold isAscii
  rw [decide_eq_true_iff, UInt32.lt_iff_toNat_lt]
  rfl

/-- A character of ASCII is one byte. -/
theorem utf8EncodeChar_of_isAscii {x : Char} (h : isAscii x = true) :
    String.utf8EncodeChar x = [x.toUInt8] := by
  have hlt : x.val.toNat ≤ 127 := Nat.le_of_lt_succ (isAscii_iff.mp h)
  unfold String.utf8EncodeChar
  rw [if_pos hlt]
  rfl

theorem utf8Size_of_isAscii {x : Char} (h : isAscii x = true) : x.utf8Size = 1 := by
  rw [← String.length_utf8EncodeChar, utf8EncodeChar_of_isAscii h]
  rfl

/-- Every byte of a character outside ASCII is outside ASCII. -/
theorem le_of_mem_utf8EncodeChar {x : Char} (h : isAscii x = false) {b : UInt8}
    (hb : b ∈ String.utf8EncodeChar x) : 128 ≤ b.toNat := by
  have hge : ¬x.val.toNat ≤ 127 := by
    intro hle
    rw [isAscii_iff.mpr (Nat.lt_succ_of_le hle)] at h
    cases h
  unfold String.utf8EncodeChar at hb
  simp only [if_neg hge] at hb
  split at hb
  · simp only [List.mem_cons, List.not_mem_nil, or_false] at hb
    rcases hb with rfl | rfl <;> simp only [UInt8.toNat_ofNat'] <;> omega
  split at hb
  · simp only [List.mem_cons, List.not_mem_nil, or_false] at hb
    rcases hb with rfl | rfl | rfl <;> simp only [UInt8.toNat_ofNat'] <;> omega
  · simp only [List.mem_cons, List.not_mem_nil, or_false] at hb
    rcases hb with rfl | rfl | rfl | rfl <;> simp only [UInt8.toNat_ofNat'] <;> omega

/-- A character has a first byte. -/
theorem exists_utf8EncodeChar_eq_cons (x : Char) :
    ∃ b bs, String.utf8EncodeChar x = b :: bs := by
  cases h : String.utf8EncodeChar x with
  | nil =>
      have hlen := String.length_utf8EncodeChar x
      rw [h] at hlen
      exact absurd hlen.symm (Nat.ne_of_gt x.utf8Size_pos)
  | cons b bs => exact ⟨b, bs, rfl⟩

/-! ## Classes of bytes and of characters -/

/-- **Bytes answer for characters**: `p` says of every byte of a character what `q` says of it. -/
def Agree (p : UInt8 → Bool) (q : Char → Bool) : Prop :=
  ∀ x, ∀ b ∈ String.utf8EncodeChar x, p b = q x

/-- Agreement is decided by two tables: of ASCII, and of the bytes outside, where the answer is `v`. -/
theorem Agree.of_tables {p : UInt8 → Bool} {q : Char → Bool} (v : Bool)
    (hascii : ∀ n, n < 128 → p (UInt8.ofNat n) = q (Char.ofNat n))
    (hhigh : ∀ n, n < 256 → 128 ≤ n → p (UInt8.ofNat n) = v)
    (hforeign : ∀ x, isAscii x = false → q x = v) : Agree p q := by
  intro x b hb
  cases hx : isAscii x with
  | true =>
      rw [utf8EncodeChar_of_isAscii hx, List.mem_singleton] at hb
      have htable := hascii x.toNat (isAscii_iff.mp hx)
      rw [Char.ofNat_toNat] at htable
      rw [hb, ← htable]
      rfl
  | false =>
      have htable := hhigh b.toNat b.toNat_lt (le_of_mem_utf8EncodeChar hx hb)
      rw [UInt8.ofNat_toNat] at htable
      rw [htable, hforeign x hx]

/-- Bytes answer for one character of ASCII. -/
theorem Agree.single {a : Char} (ha : isAscii a = true) :
    Agree (fun b => b = a.toUInt8) (fun x => x = a) := by
  have hlow := isAscii_iff.mp ha
  intro x b hb
  cases hx : isAscii x with
  | true =>
      rw [utf8EncodeChar_of_isAscii hx, List.mem_singleton] at hb
      have hxlow := isAscii_iff.mp hx
      rw [hb, decide_eq_decide]
      constructor
      · intro hbyte
        have hnat := congrArg UInt8.toNat hbyte
        have hmod : ∀ y : Char, y.toNat < 128 → y.toUInt8.toNat = y.toNat := by
          intro y hy
          show y.toNat % 256 = y.toNat
          omega
        rw [hmod x hxlow, hmod a hlow] at hnat
        rw [← Char.ofNat_toNat x, hnat, Char.ofNat_toNat]
      · exact congrArg Char.toUInt8
  | false =>
      have hge := le_of_mem_utf8EncodeChar hx hb
      have hne : b ≠ a.toUInt8 := by
        rintro rfl
        have hmod : a.toUInt8.toNat = a.toNat % 256 := rfl
        omega
      have hxa : x ≠ a := by
        rintro rfl
        rw [ha] at hx
        cases hx
      show decide (b = a.toUInt8) = decide (x = a)
      rw [decide_eq_false hne, decide_eq_false hxa]

variable {p : UInt8 → Bool} {q : Char → Bool}

/-- The bytes up to the first outside a class are those of the characters up to the first outside it. -/
theorem takeWhile_encode (hagree : Agree p q) (cs : List Char) :
    (encode cs).takeWhile p = encode (cs.takeWhile q) := by
  induction cs with
  | nil => rfl
  | cons x cs ih =>
      rw [encode_cons]
      cases hq : q x with
      | true =>
          have hall : ∀ b ∈ String.utf8EncodeChar x, p b = true := by
            intro b hb
            rw [hagree x b hb, hq]
          rw [List.takeWhile_append_of_pos hall, List.takeWhile_cons_of_pos hq, ih, encode_cons]
      | false =>
          obtain ⟨b, bs, hb⟩ := exists_utf8EncodeChar_eq_cons x
          have hp : p b = false := by
            rw [hagree x b (hb ▸ List.mem_cons_self), hq]
          rw [hb, List.cons_append, List.takeWhile_cons_of_neg (by simp [hp]),
            List.takeWhile_cons_of_neg (by simp [hq]), encode_nil]

/-- **Characters of ASCII begin a text when their bytes begin its bytes.** -/
theorem isPrefixOf_encode : ∀ {as : List Char}, as.all isAscii = true → ∀ cs : List Char,
    (encode as).isPrefixOf (encode cs) = as.isPrefixOf cs
  | [], _, cs => by simp
  | a :: as, has, [] => by
    rw [List.all_cons, Bool.and_eq_true] at has
    rw [encode_cons, utf8EncodeChar_of_isAscii has.1]
    rfl
  | a :: as, has, x :: cs => by
    rw [List.all_cons, Bool.and_eq_true] at has
    obtain ⟨ha, has⟩ := has
    have ih := isPrefixOf_encode has cs
    obtain ⟨b, bs, hb⟩ := exists_utf8EncodeChar_eq_cons x
    have hbyte : decide (b = a.toUInt8) = decide (x = a) :=
      Agree.single ha x b (hb ▸ List.mem_cons_self)
    rw [encode_cons, encode_cons, utf8EncodeChar_of_isAscii ha, hb]
    simp only [List.cons_append, List.nil_append, List.isPrefixOf]
    by_cases hx : x = a
    · subst hx
      have hsingle := utf8EncodeChar_of_isAscii ha
      rw [hb] at hsingle
      obtain ⟨rfl, rfl⟩ := List.cons.inj hsingle
      rw [List.nil_append, ih]
      simp
    · rw [decide_eq_false hx, decide_eq_false_iff_not] at hbyte
      have hne : (a.toUInt8 == b) = false := by
        rw [beq_eq_false_iff_ne]
        exact fun h => hbyte h.symm
      have hne' : (a == x) = false := by
        rw [beq_eq_false_iff_ne]
        exact fun h => hx h.symm
      rw [hne, hne', Bool.false_and, Bool.false_and]

/-- Bytes that cannot begin an occurrence are passed over. -/
theorem indexOf?_append {b : UInt8} {needle : List UInt8} : ∀ {bs : List UInt8},
    (∀ y ∈ bs, y ≠ b) → ∀ bs' : List UInt8,
      indexOf? (b :: needle) (bs ++ bs') = (indexOf? (b :: needle) bs').map (· + bs.length)
  | [], _, bs' => by simp
  | y :: bs, hne, bs' => by
    have hnot : ¬(b :: needle).isPrefixOf (y :: (bs ++ bs')) = true := by
      rw [List.isPrefixOf, Bool.and_eq_true, beq_iff_eq]
      rintro ⟨rfl, -⟩
      exact hne b List.mem_cons_self rfl
    rw [List.cons_append, indexOf?, if_neg hnot,
      indexOf?_append (fun z hz => hne z (List.mem_cons_of_mem _ hz)), Option.map_map]
    congr 1

end Text

namespace ByteCursor
open Text

variable {s : String} {c c' : ByteCursor s} {front cs xs ys : List Char} {x : Char}
  {p : UInt8 → Bool} {q : Char → Bool}

/-! ## Cursors between characters -/

/-- **The cursor stands between the characters `front` and `cs`.** -/
structure At (c : ByteCursor s) (front cs : List Char) : Prop where
  split : s.toList = front ++ cs
  pos   : c.pos = String.utf8Len front

theorem at_start (s : String) : At (start s) [] s.toList := ⟨rfl, rfl⟩

namespace At

theorem text_eq (h : At c front cs) : s = String.ofList (front ++ cs) := by
  rw [← h.split, String.ofList_toList]

theorem size_eq (h : At c front cs) : s.utf8ByteSize = String.utf8Len front + String.utf8Len cs := by
  rw [h.text_eq, String.utf8ByteSize_ofList, String.utf8Len_append]

/-- **A cursor between characters is on a boundary.** -/
theorem isValid (h : At c front cs) : (String.Pos.Raw.mk c.pos).IsValid s := by
  rw [String.Pos.Raw.isValid_iff_exists_append]
  refine ⟨String.ofList front, String.ofList cs, ?_, ?_⟩
  · rw [← String.ofList_append]
    exact h.text_eq
  · rw [String.rawEndPos_ofList, h.pos]

/-- What is left are the bytes of the characters behind the cursor. -/
theorem rest_eq (h : At c front cs) : c.rest = encode cs := by
  have hbytes : bytes s = encode front ++ encode cs := by
    rw [← encode_append, ← bytes_ofList, ← h.text_eq]
  unfold rest
  rw [hbytes, h.pos, ← length_encode, List.drop_left]

theorem atEnd_iff (h : At c front cs) : c.atEnd = true ↔ cs = [] := by
  unfold atEnd
  rw [decide_eq_true_iff, h.size_eq, h.pos, ← String.utf8Len_eq_zero]
  omega

/-- The character at the cursor is the first behind it. -/
theorem char?_eq (h : At c front cs) : c.char? = cs.head? := by
  unfold char?
  rw [h.pos, h.text_eq]
  exact String.get?_of_valid front cs

/-- Moving by the bytes of some characters passes them. -/
theorem advance (xs : List Char) (h : At c front (xs ++ ys)) :
    At (c.advance (String.utf8Len xs)) (front ++ xs) ys where
  split := by rw [h.split, List.append_assoc]
  pos   := by
    have hsize := h.size_eq
    rw [String.utf8Len_append] at hsize
    unfold ByteCursor.advance
    dsimp only
    rw [h.pos, String.utf8Len_append, Nat.min_eq_left (by omega)]

theorem advance_char (h : At c front (x :: cs)) : At (c.advance x.utf8Size) (front ++ [x]) cs := by
  have hadvance := h.advance [x]
  rwa [String.utf8Len_cons, String.utf8Len_nil, Nat.zero_add] at hadvance

theorem advance_one (h : At c front (x :: cs)) (hx : isAscii x = true) :
    At (c.advance 1) (front ++ [x]) cs :=
  utf8Size_of_isAscii hx ▸ h.advance_char

/-- **The text between two places is sliced out.** -/
theorem slice?_eq (h : At c front (xs ++ ys)) (h' : At c' (front ++ xs) ys) :
    slice? s c.pos c'.pos = some (String.ofList xs) := by
  have hle : c.pos ≤ c'.pos := by
    rw [h.pos, h'.pos, String.utf8Len_append]
    exact Nat.le_add_right _ _
  unfold slice?
  rw [decide_eq_true hle, String.Pos.Raw.isValid_eq_true_iff.mpr h.isValid,
    String.Pos.Raw.isValid_eq_true_iff.mpr h'.isValid]
  show some (String.Pos.Raw.extract s ⟨c.pos⟩ ⟨c'.pos⟩) = some (String.ofList xs)
  rw [h.pos, h'.pos, String.utf8Len_append, h'.text_eq]
  exact congrArg some (String.extract_of_valid front xs ys)

end At

/-- The text of a part is sliced out of the whole. -/
theorem slice?_append (a b c : String) :
    slice? (a ++ b ++ c) a.utf8ByteSize (a ++ b).utf8ByteSize = some b := by
  have hsplit : (a ++ b ++ c).toList = a.toList ++ (b.toList ++ c.toList) := by
    rw [String.toList_append, String.toList_append, List.append_assoc]
  have hfront : At (start (a ++ b ++ c)) [] (a.toList ++ (b.toList ++ c.toList)) :=
    hsplit ▸ at_start (a ++ b ++ c)
  have hslice := At.slice?_eq (hfront.advance a.toList) ((hfront.advance a.toList).advance b.toList)
  rw [(hfront.advance _).pos, ((hfront.advance _).advance _).pos, List.nil_append,
    ← String.toList_append, ← String.utf8ByteSize_ofList, ← String.utf8ByteSize_ofList,
    String.ofList_toList, String.ofList_toList, String.ofList_toList] at hslice
  exact hslice

/-- The rest of a text is sliced out of it. -/
theorem slice?_append_right (a b : String) :
    slice? (a ++ b) a.utf8ByteSize (a ++ b).utf8ByteSize = some b := by
  have hslice := slice?_append a b ""
  rwa [String.append_empty] at hslice

/-- The front of a text is sliced out of it. -/
theorem slice?_append_left (a b : String) : slice? (a ++ b) 0 a.utf8ByteSize = some a := by
  have hslice := slice?_append "" a b
  rwa [String.empty_append] at hslice

/-! ## Looking at bytes -/

theorem peek_eq (c : ByteCursor s) (n : Nat) : c.peek n = (c.rest[n]?).getD 0 := by
  unfold peek rest
  rw [List.getElem?_drop]

theorem current_eq (c : ByteCursor s) : c.current = c.rest.headD 0 := by
  unfold current
  rw [peek_eq, ← List.head?_eq_getElem?, List.headD_eq_head?_getD]

theorem rest_advance (c : ByteCursor s) (n : Nat) : (c.advance n).rest = c.rest.drop n := by
  unfold rest advance
  dsimp only
  rw [List.drop_drop]
  by_cases hle : c.pos + n ≤ s.utf8ByteSize
  · rw [Nat.min_eq_left hle]
  · have hlen := length_bytes s
    rw [Nat.min_eq_right (by omega), List.drop_eq_nil_of_le (by omega),
      List.drop_eq_nil_of_le (by omega)]

theorem advance_advance (c : ByteCursor s) (m n : Nat) :
    (c.advance m).advance n = c.advance (m + n) := by
  unfold advance
  congr 1
  dsimp only
  omega

namespace At

theorem current_nil (h : At c front []) : c.current = 0 := by
  rw [current_eq, h.rest_eq]
  rfl

/-- The byte at the cursor belongs to the character there. -/
theorem current_mem (h : At c front (x :: cs)) : c.current ∈ String.utf8EncodeChar x := by
  obtain ⟨b, bs, hb⟩ := exists_utf8EncodeChar_eq_cons x
  rw [current_eq, h.rest_eq, encode_cons, hb]
  exact List.mem_cons_self

/-- **A class that agrees is asked of the byte as of the character**, false at the end. -/
theorem current_any (h : At c front cs) (hagree : Agree p q) (hend : p 0 = false) :
    p c.current = cs.head?.any q := by
  cases cs with
  | nil => rw [h.current_nil, hend]; rfl
  | cons x cs => exact hagree x c.current h.current_mem

/-- A class that agrees in ASCII is asked of the byte of a character of ASCII. -/
theorem current_ascii (h : At c front (x :: cs)) (hagree : Agree p (fun x => isAscii x && q x))
    (hx : isAscii x = true) : p c.current = q x := by
  have hclass : p c.current = (isAscii x && q x) := hagree x c.current h.current_mem
  rw [hclass, hx, Bool.true_and]

/-- The byte tells the character, if that is of ASCII. -/
theorem current_cons_iff (h : At c front (x :: cs)) {a : Char} (ha : isAscii a = true) :
    c.current = a.toUInt8 ↔ x = a :=
  decide_eq_decide.mp (Agree.single ha x c.current h.current_mem)

/-- It tells the end as well, if the character is not zero. -/
theorem current_eq_iff (h : At c front cs) {a : Char} (ha : isAscii a = true)
    (hzero : (0 : UInt8) ≠ a.toUInt8) : c.current = a.toUInt8 ↔ cs.head? = some a := by
  cases cs with
  | nil =>
      rw [h.current_nil]
      constructor
      · intro hbyte
        exact absurd hbyte hzero
      · intro hhead
        cases hhead
  | cons x cs =>
      rw [h.current_cons_iff ha, List.head?_cons, Option.some.injEq]

end At

/-- Looking ahead is looking from further on. -/
theorem peek_eq_current (c : ByteCursor s) (n : Nat) : c.peek n = (c.advance n).current := by
  rw [current_eq, peek_eq, rest_advance, List.headD_eq_head?_getD, List.head?_drop]

/-! ## Moving over bytes -/

theorem advance_zero (c : ByteCursor s) : c.advance 0 = c := by
  obtain ⟨pos, hpos⟩ := c
  unfold advance
  congr 1
  exact Nat.min_eq_left hpos

theorem rest_of_atEnd (h : c.atEnd = true) : c.rest = [] := by
  unfold atEnd at h
  exact List.drop_eq_nil_of_le (by rw [length_bytes]; exact of_decide_eq_true h)

theorem rest_of_not_atEnd (h : ¬c.atEnd = true) : c.rest = c.current :: (c.advance 1).rest := by
  have hlt := lt_of_not_atEnd h
  rw [rest_advance, current_eq]
  cases hrest : c.rest with
  | nil =>
      have hlen := congrArg List.length hrest
      unfold rest at hlen
      rw [List.length_drop, length_bytes, List.length_nil] at hlen
      omega
  | cons b bs => rfl

/-- Eating bytes of a class moves over the longest run of them. -/
theorem eatWhile_eq (p : UInt8 → Bool) (c : ByteCursor s) :
    c.eatWhile p = c.advance (c.rest.takeWhile p).length := by
  fun_induction eatWhile p c with
  | case1 c hend => rw [rest_of_atEnd hend, List.takeWhile_nil, List.length_nil, advance_zero]
  | case2 c hend hp ih =>
      rw [ih, advance_advance, rest_of_not_atEnd hend, List.takeWhile_cons_of_pos hp,
        List.length_cons, Nat.add_comm]
  | case3 c hend hp =>
      rw [rest_of_not_atEnd hend, List.takeWhile_cons_of_neg hp, List.length_nil, advance_zero]

/-- Skipping to a byte of a class moves over the longest run of others. -/
theorem skipTo_eq (p : UInt8 → Bool) (c : ByteCursor s) :
    c.skipTo p = c.advance (c.rest.takeWhile (fun b => !p b)).length := by
  have hlen : c.rest.length = c.remaining := by
    unfold rest remaining
    rw [List.length_drop, length_bytes]
  have htake : c.rest.takeWhile (fun b => !p b) = c.rest.take (c.rest.findIdx p) := by
    simpa only [Bool.not_not] using
      List.takeWhile_eq_take_findIdx_not (p := fun b => !p b)
  unfold skipTo
  rw [htake, List.length_take]
  cases hidx : c.rest.findIdx? p with
  | some n =>
      obtain ⟨hlt, hn⟩ := List.findIdx?_eq_some_iff_findIdx_eq.mp hidx
      show c.advance n = _
      rw [hn, Nat.min_eq_left (Nat.le_of_lt hlt)]
  | none =>
      have hn : c.rest.findIdx p = c.rest.length :=
        List.findIdx_eq_length.mpr (List.findIdx?_eq_none_iff.mp hidx)
      show c.advance c.remaining = _
      rw [hn, Nat.min_self, hlen]

namespace At

/-- **Eating bytes of a class eats the characters of the class.** -/
theorem eatWhile (hagree : Agree p q) (h : At c front cs) :
    At (c.eatWhile p) (front ++ cs.takeWhile q) (cs.dropWhile q) := by
  rw [eatWhile_eq, h.rest_eq, takeWhile_encode hagree, length_encode]
  apply At.advance
  rwa [List.takeWhile_append_dropWhile]

/-- **Skipping to a byte of a class skips the characters outside of it.** -/
theorem skipTo (hagree : Agree p q) (h : At c front cs) :
    At (c.skipTo p) (front ++ cs.takeWhile (fun x => !q x)) (cs.dropWhile (fun x => !q x)) := by
  have hnot : Agree (fun b => !p b) (fun x => !q x) := by
    intro x b hb
    show (!p b) = !q x
    rw [hagree x b hb]
  rw [skipTo_eq, h.rest_eq, takeWhile_encode hnot, length_encode]
  apply At.advance
  rwa [List.takeWhile_append_dropWhile]

end At
end ByteCursor
end ScriptSpacing
