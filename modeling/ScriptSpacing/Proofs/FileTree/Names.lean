import Mathlib.Data.List.TakeWhile
import ScriptSpacing.FileTree.Scripts
import ScriptSpacing.Proofs.Token.Boundary

/-!
# `Proofs.FileTree.Names` — names and paths as bytes

What a search asks of a name, told by its bytes. A name is passed over when it begins with a dot or is
`node_modules` — but only if it is a text (`isHidden_eq_false_iff`); it is that of a script when it ends in `.js`
and that is not all of it (`isScript_iff`). A path is extended by names behind slashes, and the room that it
leaves for a name is what the limit on the bytes of paths says (`le_room_iff`).
-/

namespace ScriptSpacing

/-! ## Names -/

/-- A name that an entry can have. -/
def IsName (name : Name) : Prop := name.bytes ≠ [] ∧ slash ∉ name.bytes

/-- A name that is a text. -/
def IsText (name : Name) : Prop := ∃ s : String, name = s

/-- A name that is not that of something hidden. -/
def IsPlain (name : Name) : Prop := name.bytes.head? ≠ some Name.dot ∧ name ≠ "node_modules"

/-- A name that a search does not pass over. -/
def IsShown (name : Name) : Prop := IsPlain name ∨ ¬IsText name

/-- A name with the extension of scripts. -/
def HasExtension (name : Name) : Prop := ∃ stem, stem ≠ [] ∧ name.bytes = stem ++ Text.bytes ".js"

variable {name : Name} {path : List UInt8}

/-- The first byte of a text is a dot when its first character is. -/
theorem Name.head?_ofString (s : String) :
    (ofString s).bytes.head? = some dot ↔ s.toList.head? = some '.' := by
  rw [ofString, Text.bytes_eq_encode]
  cases hchars : s.toList with
  | nil => simp
  | cons x cs =>
      obtain ⟨b, bs, hb⟩ := Text.exists_utf8EncodeChar_eq_cons x
      have hagree := Text.Agree.single (a := '.') rfl x b (by rw [hb]; exact List.mem_cons_self)
      rw [Text.encode_cons, hb, List.cons_append, List.head?_cons, List.head?_cons, Option.some.injEq,
        Option.some.injEq]
      exact decide_eq_decide.mp hagree

/-- **What a search does not pass over**: a name that is not hidden, or one that is not a text. -/
theorem isHidden_eq_false_iff : isHidden name = false ↔ IsShown name := by
  rw [isHidden, IsShown, IsPlain]
  cases htext : name.text? with
  | none =>
      have hnot : ¬IsText name := fun ⟨s, hs⟩ => by
        rw [Name.text?_eq_some_iff.mpr hs] at htext
        cases htext
      exact iff_of_true rfl (.inr hnot)
  | some s =>
      obtain rfl := Name.text?_eq_some_iff.mp htext
      have htext' : IsText (Name.ofString s) := ⟨s, rfl⟩
      have hmodules : (Name.ofString s = "node_modules") ↔ s = "node_modules" :=
        ⟨Name.ofString_injective, congrArg Name.ofString⟩
      rw [Ne, Ne, hmodules, Name.head?_ofString]
      simp [htext']

/-- **An extension stands behind the last dot**, and a stem before it. -/
theorem Name.extension?_eq_some_iff {ext : List UInt8} : name.extension? = some ext ↔
    dot ∉ ext ∧ ∃ stem, stem ≠ [] ∧ name.bytes = stem ++ dot :: ext := by
  rw [extension?]
  constructor
  · intro h
    have hwhole := List.takeWhile_append_dropWhile (p := (· ≠ dot)) (l := name.bytes.reverse)
    have hnone : ∀ b ∈ name.bytes.reverse.takeWhile (· ≠ dot), b ≠ dot := fun b hb => by
      simpa using List.mem_takeWhile_imp hb
    have hhead := List.head?_dropWhile_not (· ≠ dot) name.bytes.reverse
    generalize name.bytes.reverse.takeWhile (· ≠ dot) = behind at h hwhole hnone
    generalize name.bytes.reverse.dropWhile (· ≠ dot) = front at hwhole hhead
    have hbytes : name.bytes = front.reverse ++ behind.reverse := by
      rw [← List.reverse_append, hwhole, List.reverse_reverse]
    split at h
    · next hlt =>
        cases h
        refine ⟨fun hmem => hnone dot (List.mem_reverse.mp hmem) rfl, ?_⟩
        -- there is more than the extension, and it ends in a dot that is not the first byte
        rw [hbytes, List.length_append, List.length_reverse, List.length_reverse] at hlt
        cases front with
        | nil =>
            rw [List.length_nil] at hlt
            omega
        | cons b rest =>
            have hdot : b = dot := by simpa using hhead
            refine ⟨rest.reverse, ?_, ?_⟩
            · intro hnil
              rw [List.reverse_eq_nil_iff.mp hnil, List.length_singleton] at hlt
              omega
            · rw [hbytes, hdot, List.reverse_cons, List.append_assoc, List.singleton_append]
    · cases h
  · rintro ⟨hnone, stem, hstem, hbytes⟩
    have htake : name.bytes.reverse.takeWhile (· ≠ dot) = ext.reverse := by
      rw [hbytes, List.reverse_append, List.reverse_cons, List.append_assoc, List.singleton_append,
        List.takeWhile_append_of_pos, List.takeWhile_cons_of_neg (by simp), List.append_nil]
      intro b hb
      have hne : b ≠ dot := fun heq => hnone (heq ▸ List.mem_reverse.mp hb)
      simpa using hne
    have hpos := List.length_pos_of_ne_nil hstem
    rw [htake, List.reverse_reverse, hbytes, List.length_append, List.length_cons]
    exact if_pos (by omega)

/-- **A script ends in its extension**, and has a stem before it. -/
theorem isScript_iff : isScript name = true ↔ HasExtension name := by
  have hbytes : Text.bytes ".js" = Name.dot :: scriptExtension := by decide
  rw [isScript, decide_eq_true_iff, Name.extension?_eq_some_iff, HasExtension, hbytes]
  exact and_iff_right (by decide)

/-! ## Paths -/

/-- **The path of a place below `path` is one that the system takes.** -/
def Fits (path : List UInt8) (place : List Name) : Prop :=
  (place.foldl Path.join path).length ≤ Volume.pathLimit

namespace Path

theorem length_join (path : List UInt8) (name : Name) :
    (join path name).length = (path ++ separator path).length + name.bytes.length := by
  rw [join, List.length_append]

/-- A path that ends in a name goes on behind a slash. -/
theorem separator_join (h : IsName name) : separator (join path name) = [slash] := by
  have hlast : (join path name).getLast? = name.bytes.getLast? := by
    rw [join, List.getLast?_append_of_ne_nil _ h.1]
  have hslash : (join path name).getLast? ≠ some slash := by
    rw [hlast]
    exact fun hsome => h.2 (List.mem_of_getLast? hsome)
  have hne : join path name ≠ [] := fun hnil => h.1 (List.append_eq_nil_iff.mp hnil).2
  rw [separator, if_neg (by simp [hslash, hne])]

/-- **The room below a folder**: what its own path leaves, without its name and a slash. -/
theorem room_join (h : IsName name) (path : List UInt8) :
    room (join path name) = room path - (name.bytes.length + 1) := by
  rw [room, room, separator_join h, List.length_append, length_join, List.length_singleton, Nat.sub_sub,
    Nat.add_assoc]

end Path

/-- A name fits in the room of a path when the path of it does. -/
theorem le_room_iff (h : IsName name) : name.bytes.length ≤ Path.room path ↔ Fits path [name] := by
  have hpos : 0 < name.bytes.length := List.length_pos_of_ne_nil h.1
  rw [Fits, List.foldl_cons, List.foldl_nil, Path.length_join, Path.room]
  omega

end ScriptSpacing
