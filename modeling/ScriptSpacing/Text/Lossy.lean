import ScriptSpacing.Text.Position

/-!
# `Text.Lossy` — bytes shown as a text

Bytes are shown as the text of which they are the UTF-8 form. Where they are not the form of any, each
longest piece that could begin a character, or the one byte that could not, is shown as the replacement
character U+FFFD. So every list of bytes can be shown, and a text is shown as itself (`shown_bytes`).
-/

namespace ScriptSpacing
namespace Text

/-- The ranges of the bytes that complete a character after its first byte, if that is not the only one. -/
def continuations (first : UInt8) : List (UInt8 × UInt8) :=
  let tail := (0x80, 0xBF)
  if first < 0xC2 then []
  else if first < 0xE0 then [tail]
  else if first = 0xE0 then [(0xA0, 0xBF), tail]
  else if first = 0xED then [(0x80, 0x9F), tail]
  else if first < 0xF0 then [tail, tail]
  else if first = 0xF0 then [(0x90, 0xBF), tail, tail]
  else if first < 0xF4 then [tail, tail, tail]
  else if first = 0xF4 then [(0x80, 0x8F), tail, tail]
  else []

/-- How many bytes from the front on are in their ranges. -/
def countWithin : List (UInt8 × UInt8) → List UInt8 → Nat
  | (low, high) :: ranges, b :: bs => if low ≤ b && b ≤ high then countWithin ranges bs + 1 else 0
  | _, _ => 0

/-- The character that begins some bytes, if there is one. -/
def firstChar? (bs : List UInt8) : Option Char := ByteArray.utf8DecodeChar? ⟨bs.toArray⟩ 0

/-- The characters that bytes are shown as. -/
def lossy : List UInt8 → List Char
  | [] => []
  | b :: bs =>
    match firstChar? (b :: bs) with
    | some c => c :: lossy (bs.drop (c.utf8Size - 1))
    | none   => '\uFFFD' :: lossy (bs.drop (countWithin (continuations b) bs))
termination_by bs => bs.length

/-- What bytes are shown as. -/
def shown (bs : List UInt8) : String := String.ofList (lossy bs)

theorem lossy_utf8EncodeChar_append (c : Char) (bs : List UInt8) :
    lossy (String.utf8EncodeChar c ++ bs) = c :: lossy bs := by
  have hfirst : firstChar? (String.utf8EncodeChar c ++ bs) = some c := by
    have hbytes : ByteArray.mk (String.utf8EncodeChar c ++ bs).toArray =
        (String.utf8EncodeChar c).toByteArray ++ bs.toByteArray := by
      rw [← List.toByteArray_append, ← List.data_toByteArray]
    rw [firstChar?, hbytes, ByteArray.utf8DecodeChar?_utf8EncodeChar_append]
  have hlength := String.length_utf8EncodeChar c
  cases hform : String.utf8EncodeChar c with
  | nil =>
      rw [hform] at hlength
      exact absurd hlength.symm (Nat.ne_of_gt c.utf8Size_pos)
  | cons b rest =>
      rw [hform, List.length_cons] at hlength
      rw [hform, List.cons_append] at hfirst
      rw [List.cons_append, lossy, hfirst]
      simp only [← hlength, Nat.add_sub_cancel, List.drop_left]

/-- **A text is shown as itself.** -/
theorem shown_bytes (s : String) : shown (bytes s) = s := by
  have hlossy (cs : List Char) : lossy (cs.flatMap String.utf8EncodeChar) = cs := by
    induction cs with
    | nil => rw [List.flatMap_nil, lossy]
    | cons c cs ih => rw [List.flatMap_cons, lossy_utf8EncodeChar_append, ih]
  have hbytes : bytes s = s.toList.flatMap String.utf8EncodeChar := by
    rw [bytes, ← String.ofList_toList (s := s), String.toByteArray_ofList, String.toList_ofList, List.utf8Encode,
      List.data_toByteArray]
  rw [shown, hbytes, hlossy, String.ofList_toList]

/-- **Bytes are the form of one text or of none.** -/
theorem fromUTF8?_eq_some_iff {bs : ByteArray} {s : String} : String.fromUTF8? bs = some s ↔ s.toUTF8 = bs := by
  rw [String.fromUTF8?]
  constructor
  · intro h
    split at h
    · cases h
      rfl
    · cases h
  · rintro rfl
    exact dif_pos s.isValidUTF8

/-- A byte that begins no character, and the beginning of one that is not there. -/
example : lossy [0x2E, 0xFF, 0xE2, 0x82, 0x6A] = ['.', '\uFFFD', '\uFFFD', 'j'] := by decide +kernel

end Text
end ScriptSpacing
