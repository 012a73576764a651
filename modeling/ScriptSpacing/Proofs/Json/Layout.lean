import ScriptSpacing.Proofs.Json.Members
import ScriptSpacing.Proofs.Json.Value

/-!
# `Proofs.Json.Layout` — parts of a text that carry their spelling

A reader is proved right about texts that are built from parts. Each part keeps the characters it is written with
next to what they stand for, and the proof that they do.
-/

namespace ScriptSpacing
namespace Json

/-- Whitespace, or nothing. -/
structure Blanks where
  written  : List Char
  isBlanks : IsBlanks written

/-- A string, in one of its spellings. -/
structure Literal where
  /-- what stands between the quotes -/
  written : List Char
  value   : String
  spells  : Spells written value.toList

/-- A value of any kind. -/
structure AnyValue where
  written : List Char
  isValue : IsValue written

/-- An integer of 64 bits, in one of its spellings. -/
structure Numeral where
  written   : List Char
  value     : Int
  isInteger : IsInteger written value

/-- A value by name. -/
structure Member (α : Type) where
  name   : Literal
  /-- before the colon -/
  middle : Blanks
  /-- behind the colon -/
  after  : Blanks
  value  : α

/-- What is set off by a comma from what comes before it, unless it is the first. -/
structure Item (α : Type) where
  /-- before the comma -/
  lead   : Blanks
  /-- behind the comma -/
  before : Blanks
  body   : α

namespace Blanks

/-- No whitespace. -/
def none : Blanks := ⟨[], Text.All.nil⟩

end Blanks

namespace Member
variable {α : Type}

/-- The text of a member whose value is written as `text` says. -/
def text (text : α → List Char) (m : Member α) : List Char :=
  '"' :: (m.name.written ++ '"' :: (m.middle.written ++ ':' :: (m.after.written ++ text m.value)))

end Member

namespace Item
variable {α : Type} {text : α → List Char}

/-- The text of items. -/
def joined (text : α → List Char) : Bool → List (Item α) → List Char
  | _, []          => []
  | first, x :: xs =>
    x.lead.written ++ (separator first ++ (x.before.written ++ (text x.body ++ joined text false xs)))

/-- The text of an item with what sets it off. -/
def setOff (text : α → List Char) (first : Bool) (x : Item α) : List Char :=
  x.lead.written ++ (separator first ++ (x.before.written ++ text x.body))

/-- The text of items up to the bracket that closes them. -/
def closed (text : α → List Char) (closer : Char) (first : Bool) (xs : List (Item α)) (last : Blanks) :
    List Char :=
  joined text first xs ++ (last.written ++ [closer])

variable {closer : Char} {first : Bool}

theorem closed_nil (last : Blanks) (rest : List Char) :
    closed text closer first [] last ++ rest = last.written ++ closer :: rest := by
  rw [closed, joined, List.nil_append, List.append_assoc, List.singleton_append]

theorem closed_cons (x : Item α) (xs : List (Item α)) (last : Blanks) :
    closed text closer first (x :: xs) last = x.setOff text first ++ closed text closer false xs last := by
  simp only [closed, joined, setOff, List.append_assoc]

/-- No number goes on into the items behind it, or into the closing bracket. -/
theorem stops_closed_append (hcloser : continuesNumber closer = false) (xs : List (Item α)) (last : Blanks)
    (rest : List Char) : Stops (closed text closer false xs last ++ rest) := by
  cases xs with
  | nil =>
      rw [closed_nil]
      exact stops_of_blanks last.isBlanks (endsRun_cons hcloser)
  | cons x xs =>
      rw [closed_cons]
      simp only [setOff, List.append_assoc]
      exact stops_of_blanks x.lead.isBlanks (endsRun_cons rfl)

theorem stops_closed (hcloser : continuesNumber closer = false) (xs : List (Item α)) (last : Blanks) :
    Stops (closed text closer false xs last) := by
  have h : Stops (closed text closer false xs last ++ []) := stops_closed_append hcloser xs last []
  rwa [List.append_nil] at h

end Item

/-! ## Up to the value of a member -/

/-- A member of an object up to its colon, with what sets it off. -/
def header (first : Bool) (lead before : Blanks) (name : Literal) (middle : Blanks) : List Char :=
  lead.written ++ (separator first ++ (before.written ++
    '"' :: (name.written ++ '"' :: (middle.written ++ [':']))))

theorem length_header_pos (first : Bool) (lead before : Blanks) (name : Literal) (middle : Blanks) :
    0 < (header first lead before name middle).length := by
  simp only [header, List.length_append, List.length_cons]
  omega

/-- A member with what sets it off, in front of its value and behind. -/
theorem Member.text_setOff {α : Type} (text : α → List Char) (first : Bool) (lead before : Blanks) (m : Member α) :
    lead.written ++ (separator first ++ (before.written ++ m.text text)) =
      (header first lead before m.name m.middle ++ m.after.written) ++ text m.value := by
  simp only [Member.text, header, List.append_assoc, List.cons_append, List.nil_append]

theorem readHeader_complete (first : Bool) (lead before : Blanks) (name : Literal) (middle : Blanks)
    (rest : List Char) (i : Nat) :
    ∃ k₁ j, nextKey first ⟨header first lead before name middle ++ rest, i⟩ =
      .ok (some name.value, k₁) ∧ readColon k₁ = .ok ⟨rest, j⟩ := by
  simp only [header, List.append_assoc, List.cons_append, List.nil_append]
  obtain ⟨j₁, hkey⟩ := nextKey_complete lead.isBlanks before.isBlanks name.spells first
    (middle.written ++ ':' :: rest) i
  obtain ⟨j, hcolon⟩ := readColon_complete middle.isBlanks rest j₁
  exact ⟨_, j, hkey, hcolon⟩

/-- What has been read when a name and its colon have. -/
theorem readHeader_sound {first : Bool} {s : String} {k k₁ k₂ : Cursor}
    (hkey : nextKey first k = .ok (some s, k₁)) (hcolon : readColon k₁ = .ok k₂) :
    ∃ lead before name middle, k.rest = header first lead before name middle ++ k₂.rest ∧
      name.value = s := by
  rcases nextKey_sound hkey with ⟨_, _, _, _, _, h⟩ | ⟨b, b', w, s, hk, hb, hb', hw, hs⟩
  · cases h
  · cases hs
    obtain ⟨m, hk₁, hm⟩ := readColon_sound hcolon
    refine ⟨⟨b, hb⟩, ⟨b', hb'⟩, ⟨w, _, hw⟩, ⟨m, hm⟩, ?_, rfl⟩
    simp only [hk, hk₁, header, List.append_assoc, List.cons_append, List.nil_append]

/-! ## Spelling a string -/

namespace Literal

/-- The letters of the short escapes in use. -/
def shortLetters : List Char := ['"', '\\', 'b', 'f', 'n', 'r', 't']

/-- The last digit of `n` in base 16. -/
def hexLetter (n : Nat) : Char := "0123456789abcdef".toList.getD (n % 16) '0'

/-- A character between quotes: by a short escape, by its code if it is a control character, or by itself. -/
def escaped (c : Char) : List Char :=
  match shortLetters.find? fun e => shortEscape? e = some c with
  | some e => ['\\', e]
  | none   => if isControl c then ['\\', 'u', '0', '0', hexLetter (c.toNat / 16), hexLetter c.toNat] else [c]

theorem hex_control : ∀ n < 0x20, Hex ['0', '0', hexLetter (n / 16), hexLetter n] n := by
  unfold Hex
  decide

theorem spells_escaped {w v : List Char} (c : Char) (h : Spells w v) : Spells (escaped c ++ w) (c :: v) := by
  unfold escaped
  split
  · next e he => exact .escape (.short (by simpa using List.find?_some he)) h
  · next hnone =>
      have hshort : ∀ e ∈ shortLetters, shortEscape? e ≠ some c := by simpa using hnone
      split
      · next hcontrol =>
          have hlt : c.toNat < 0x20 := by simpa [isControl] using hcontrol
          have hunit := CodePoint.unit (hex_control c.toNat hlt)
            (by simp only [isTrailing, Bool.and_eq_false_iff, decide_eq_false_iff_not]; omega)
            (by simp only [isLeading, Bool.and_eq_false_iff, decide_eq_false_iff_not]; omega)
          rw [Char.ofNat_toNat] at hunit
          exact .escape (.codePoint hunit) h
      · next hcontrol =>
          refine .plain ?_ ?_ (Bool.eq_false_iff.mpr hcontrol) h
          · rintro rfl
            exact hshort '"' (by decide) rfl
          · rintro rfl
            exact hshort '\\' (by decide) rfl

/-- A spelling of a string. -/
def ofString (s : String) : Literal where
  written := s.toList.flatMap escaped
  value   := s
  spells  := by
    induction s.toList with
    | nil => exact .nil
    | cons c cs ih => exact spells_escaped c ih

end Literal
end Json
end ScriptSpacing
