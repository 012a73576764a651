import ScriptSpacing.Json.Text
import ScriptSpacing.Proofs.Token.Longest

/-!
# `Proofs.Json.Literal` — whitespace and string literals, as written and as read

A reader takes characters off the front of a text, so two statements say what it does. Whatever it accepts is a
text of the grammar, with what is left behind it (the lemmas named `_sound`); and a text of the grammar is accepted
in front of anything, which is then left (those named `_complete`). The second kind does not say how far the
count of bytes has got, which only the place of a fault depends on.

The grammar of a literal says what its characters stand for (`Spells`). A literal that nobody reads is passed over
with less care: any four hexadecimal digits make an escape there (`Passable`).
-/

namespace ScriptSpacing
namespace Json
open Text (All)

/-! ## The front of a text -/

section Front

variable {p : Char → Bool} {b cs rest : List Char} {c : Char} {k : Cursor}

theorem ok_bind {ε α β : Type} (a : α) (f : α → Except ε β) : (Except.ok a >>= f) = f a := rfl

/-- The inversion of a step that may fail. -/
theorem bind_eq_ok {ε α β : Type} {x : Except ε α} {f : α → Except ε β} {r : β} :
    (x >>= f) = .ok r ↔ ∃ a, x = .ok a ∧ f a = .ok r := by
  cases x with
  | ok a => simp [bind, Except.bind]
  | error e => simp [bind, Except.bind]

@[simp] theorem peek?_cons (c : Char) (cs : List Char) (i : Nat) :
    Cursor.peek? ⟨c :: cs, i⟩ = some c := rfl

@[simp] theorem advance_cons (c : Char) (cs : List Char) (i : Nat) :
    Cursor.advance ⟨c :: cs, i⟩ = ⟨cs, i + c.utf8Size⟩ := rfl

theorem rest_of_peek? (h : k.peek? = some c) : k.rest = c :: k.advance.rest := by
  obtain ⟨rest, i⟩ := k
  cases rest with
  | nil => cases h
  | cons d rest =>
      cases h
      rfl

/-- No character of the class `p` comes next. -/
def EndsRun (p : Char → Bool) (rest : List Char) : Prop := ∀ c ∈ rest.head?, p c = false

theorem endsRun_nil : EndsRun p [] := by
  intro c hc
  cases hc

theorem endsRun_cons (hc : p c = false) : EndsRun p (c :: rest) := by
  intro d hd
  cases hd
  exact hc

theorem takeWhile_run (hb : All p b) (hrest : EndsRun p rest) : (b ++ rest).takeWhile p = b := by
  rw [List.takeWhile_append_of_pos hb]
  cases rest with
  | nil => rw [List.takeWhile_nil, List.append_nil]
  | cons c rest =>
      rw [List.takeWhile_cons_of_neg (by simp [hrest c rfl]), List.append_nil]

theorem skipWhile_run (hb : All p b) (hrest : EndsRun p rest) (i : Nat) :
    ∃ j, Cursor.skipWhile p ⟨b ++ rest, i⟩ = ⟨rest, j⟩ := by
  refine ⟨i + Cursor.byteCount ((b ++ rest).takeWhile p), ?_⟩
  have hdrop : (b ++ rest).dropWhile p = rest := by
    have happ := List.takeWhile_append_dropWhile (p := p) (l := b ++ rest)
    rw [takeWhile_run hb hrest] at happ
    exact List.append_cancel_left happ
  rw [Cursor.skipWhile, Cursor.skipWhile_go_eq, hdrop]

/-- A run of a class is taken whole. -/
theorem rest_eq_run_append (p : Char → Bool) (k : Cursor) :
    k.rest = k.rest.takeWhile p ++ (k.skipWhile p).rest := by
  rw [Cursor.rest_skipWhile, List.takeWhile_append_dropWhile]

theorem All.append (hb : All p b) (hcs : All p cs) : All p (b ++ cs) := by
  intro c hc
  exact (List.mem_append.mp hc).elim (hb c) (hcs c)

theorem all_takeWhile (cs : List Char) : All p (cs.takeWhile p) :=
  fun _ hc => List.mem_takeWhile_imp hc

/-! ## Whitespace -/

/-- Whitespace and nothing else. -/
def IsBlanks : List Char → Prop := All Cursor.isBlank

/-- Whitespace is passed over, up to a character that is none. -/
theorem skipBlanks_complete (hb : IsBlanks b) (hc : Cursor.isBlank c = false) (rest : List Char) (i : Nat) :
    ∃ j, Cursor.skipBlanks ⟨b ++ c :: rest, i⟩ = ⟨c :: rest, j⟩ :=
  skipWhile_run hb (endsRun_cons hc) i

theorem skipBlanks_sound (k : Cursor) : ∃ b, IsBlanks b ∧ k.rest = b ++ k.skipBlanks.rest :=
  ⟨k.rest.takeWhile Cursor.isBlank, all_takeWhile k.rest, rest_eq_run_append _ k⟩

end Front

/-! ## Escapes -/

/-- Four hexadecimal digits that come to `n`. -/
def Hex (ds : List Char) (n : Nat) : Prop := ds.length = 4 ∧ hexValue? ds = some n

/-- A character by one unit, or by two that form a surrogate pair. -/
inductive CodePoint : List Char → Char → Prop where
  | unit {ds : List Char} {n : Nat} (hds : Hex ds n) (htrail : isTrailing n = false)
      (hlead : isLeading n = false) : CodePoint ds (Char.ofNat n)
  | pair {ds es : List Char} {n m : Nat} (hds : Hex ds n) (htrail : isTrailing n = false)
      (hlead : isLeading n = true) (hes : Hex es m) (htrail' : isTrailing m = true) :
      CodePoint (ds ++ '\\' :: 'u' :: es) (Char.ofNat ((n - 0xd800) * 0x400 + (m - 0xdc00) + 0x10000))

/-- What stands behind a backslash, and the character it stands for. -/
inductive Escape : List Char → Char → Prop where
  | short {c d : Char} (h : shortEscape? c = some d) : Escape [c] d
  | codePoint {e : List Char} {c : Char} (h : CodePoint e c) : Escape ('u' :: e) c

/-- What may stand behind a backslash that nobody reads. -/
inductive PassableEscape : List Char → Prop where
  | short {c : Char} (h : (shortEscape? c).isSome) : PassableEscape [c]
  | unit {ds : List Char} {n : Nat} (hds : Hex ds n) : PassableEscape ('u' :: ds)

variable {cs ds rest w : List Char} {c : Char} {n : Nat} {k k' : Cursor}

theorem length_le_byteCount (cs : List Char) : cs.length ≤ Cursor.byteCount cs := by
  induction cs with
  | nil => exact Nat.le_refl 0
  | cons c cs ih =>
      have hc : 1 ≤ c.utf8Size := Char.utf8Size_pos c
      simp only [List.length_cons, Cursor.byteCount]
      omega

theorem readHex_complete (hds : Hex ds n) (rest : List Char) (i : Nat) :
    ∃ j, readHex ⟨ds ++ rest, i⟩ = .ok (n, ⟨rest, j⟩) := by
  obtain ⟨hlen, hval⟩ := hds
  have htake : (ds ++ rest).take 4 = ds := by rw [← hlen, List.take_left]
  have hdrop : (ds ++ rest).drop 4 = rest := by rw [← hlen, List.drop_left]
  -- four characters have at least four bytes
  have hroom : ¬ Cursor.bytesWithin 4 ⟨ds ++ rest, i⟩ < 4 := by
    rw [Cursor.bytesWithin, htake, Nat.not_lt, ← hlen]
    exact length_le_byteCount ds
  refine ⟨i + 4, ?_⟩
  simp only [readHex, if_neg hroom, htake, hdrop, hval]

/-- Hexadecimal digits are characters of ASCII, one byte each. -/
theorem utf8Size_of_hexDigit? (h : hexDigit? c = some n) : c.utf8Size = 1 := by
  -- each of the three ranges of digits is below the end of ASCII
  have hascii : c.val ≤ 0x7f := by
    unfold hexDigit? Text.isDigit at h
    simp only [Bool.and_eq_true, decide_eq_true_eq, Char.le_def] at h
    split at h
    · next hc => exact UInt32.le_trans hc.2 (by decide)
    · split at h
      · next hc => exact UInt32.le_trans hc.2 (by decide)
      · split at h
        · next hc => exact UInt32.le_trans hc.2 (by decide)
        · cases h
  exact Char.utf8Size_eq_one_iff.mpr hascii

theorem hexDigit?_of_foldl {acc : Option Nat}
    (h : cs.foldl (fun acc c => do return (← acc) * 16 + (← hexDigit? c)) acc = some n) :
    acc.isSome ∧ ∀ c ∈ cs, ∃ v, hexDigit? c = some v := by
  induction cs generalizing acc with
  | nil =>
      rw [List.foldl_nil] at h
      exact ⟨by rw [h, Option.isSome_some], fun c hc => absurd hc List.not_mem_nil⟩
  | cons c cs ih =>
      obtain ⟨hacc, hcs⟩ := ih h
      cases acc with
      | none => cases hacc
      | some a =>
          cases hc : hexDigit? c with
          | none =>
              simp only [hc] at hacc
              cases hacc
          | some v => exact ⟨rfl, List.forall_mem_cons.mpr ⟨⟨v, hc⟩, hcs⟩⟩

theorem byteCount_of_hexValue? (h : hexValue? ds = some n) : Cursor.byteCount ds = ds.length := by
  have hds : ∀ c ∈ ds, ∃ v, hexDigit? c = some v := (hexDigit?_of_foldl h).2
  clear h
  induction ds with
  | nil => rfl
  | cons d ds ih =>
      obtain ⟨⟨v, hd⟩, hds⟩ := List.forall_mem_cons.mp hds
      rw [Cursor.byteCount, utf8Size_of_hexDigit? hd, ih hds, List.length_cons, Nat.add_comm]

theorem readHex_sound (h : readHex k = .ok (n, k')) : ∃ ds, k.rest = ds ++ k'.rest ∧ Hex ds n := by
  unfold readHex at h
  split at h
  · cases h
  · next hroom =>
      split at h
      · next v hval =>
          cases h
          refine ⟨k.rest.take 4, (List.take_append_drop 4 k.rest).symm, ?_, hval⟩
          have hle : (k.rest.take 4).length ≤ 4 := List.length_take_le 4 k.rest
          rw [Cursor.bytesWithin, byteCount_of_hexValue? hval] at hroom
          omega
      · cases h

theorem readPairMark_sound (h : readPairMark c k = .ok k') : k.rest = c :: k'.rest := by
  unfold readPairMark at h
  split at h
  · cases h
  · next d hpeek =>
      split at h
      · next hd =>
          cases h
          rw [rest_of_peek? hpeek, hd]
      · cases h

theorem readPairMark_complete (c : Char) (rest : List Char) (i : Nat) :
    ∃ j, readPairMark c ⟨c :: rest, i⟩ = .ok ⟨rest, j⟩ := by
  refine ⟨i + c.utf8Size, ?_⟩
  simp only [readPairMark, peek?_cons, if_true, advance_cons]

theorem readCodePoint_complete (h : CodePoint w c) (rest : List Char) (i : Nat) :
    ∃ j, readCodePoint ⟨w ++ rest, i⟩ = .ok (c, ⟨rest, j⟩) := by
  cases h with
  | unit hds htrail hlead =>
      obtain ⟨j, hread⟩ := readHex_complete hds _ i
      refine ⟨j, bind_eq_ok.mpr ⟨_, hread, ?_⟩⟩
      simp only [htrail, hlead]
      rfl
  | @pair ds es n m hds htrail hlead hes htrail' =>
      rw [List.append_assoc, List.cons_append, List.cons_append]
      obtain ⟨_, hread⟩ := readHex_complete hds _ i
      obtain ⟨_, hslash⟩ := readPairMark_complete '\\' ('u' :: (es ++ rest)) _
      obtain ⟨_, hu⟩ := readPairMark_complete 'u' (es ++ rest) _
      obtain ⟨j, hread'⟩ := readHex_complete hes rest _
      refine ⟨j, bind_eq_ok.mpr ⟨_, hread, ?_⟩⟩
      simp only [htrail, hlead]
      refine bind_eq_ok.mpr ⟨_, hslash, bind_eq_ok.mpr ⟨_, hu, bind_eq_ok.mpr ⟨_, hread', ?_⟩⟩⟩
      simp only [htrail']
      rfl

theorem readCodePoint_sound (h : readCodePoint k = .ok (c, k')) :
    ∃ w, k.rest = w ++ k'.rest ∧ CodePoint w c := by
  obtain ⟨⟨n, k₁⟩, hread, h⟩ := bind_eq_ok.mp h
  obtain ⟨ds, hk, hds⟩ := readHex_sound hread
  dsimp only at h
  by_cases htrail : isTrailing n = true
  · rw [if_pos htrail] at h
    cases h
  rw [if_neg htrail] at h
  by_cases hlead : isLeading n = true
  · rw [if_pos hlead] at h
    obtain ⟨k₂, hslash, h⟩ := bind_eq_ok.mp h
    obtain ⟨k₃, hu, h⟩ := bind_eq_ok.mp h
    obtain ⟨⟨m, k₄⟩, hread', h⟩ := bind_eq_ok.mp h
    obtain ⟨es, hk₃, hes⟩ := readHex_sound hread'
    dsimp only at h
    by_cases htrail' : isTrailing m = true
    · rw [if_pos htrail'] at h
      obtain ⟨rfl, rfl⟩ := Prod.mk.inj (Except.ok.inj h)
      refine ⟨ds ++ '\\' :: 'u' :: es, ?_,
        .pair hds (Bool.eq_false_iff.mpr htrail) hlead hes htrail'⟩
      rw [hk, readPairMark_sound hslash, readPairMark_sound hu, hk₃]
      simp only [List.append_assoc, List.cons_append]
    · rw [if_neg htrail'] at h
      cases h
  · rw [if_neg hlead] at h
    cases h
    exact ⟨ds, hk, .unit hds (Bool.eq_false_iff.mpr htrail) (Bool.eq_false_iff.mpr hlead)⟩

theorem readEscape_complete (h : Escape w c) (rest : List Char) (i : Nat) :
    ∃ j, readEscape ⟨w ++ rest, i⟩ = .ok (c, ⟨rest, j⟩) := by
  cases h with
  | @short e c h =>
      refine ⟨i + e.utf8Size, ?_⟩
      simp only [readEscape, peek?_cons, List.cons_append, h, advance_cons,
        List.nil_append]
  | @codePoint e c h =>
      obtain ⟨j, hread⟩ := readCodePoint_complete h rest (i + 'u'.utf8Size)
      have hu : shortEscape? 'u' = none := rfl
      refine ⟨j, ?_⟩
      simp only [readEscape, peek?_cons, List.cons_append, hu, if_true,
        advance_cons, hread]

theorem readEscape_sound (h : readEscape k = .ok (c, k')) :
    ∃ w, k.rest = w ++ k'.rest ∧ Escape w c := by
  unfold readEscape at h
  split at h
  · cases h
  · next e hpeek =>
      rw [rest_of_peek? hpeek]
      split at h
      · next d hd =>
          cases h
          exact ⟨[e], rfl, .short hd⟩
      · split at h
        · next he =>
            obtain ⟨w, hw, hc⟩ := readCodePoint_sound h
            subst he
            exact ⟨'u' :: w, by rw [hw, List.cons_append], .codePoint hc⟩
        · cases h

theorem skipEscape_complete (h : PassableEscape w) (rest : List Char) (i : Nat) :
    ∃ j, skipEscape ⟨w ++ rest, i⟩ = .ok ⟨rest, j⟩ := by
  cases h with
  | @short e h =>
      refine ⟨i + e.utf8Size, ?_⟩
      simp only [skipEscape, peek?_cons, List.cons_append, h, if_true,
        advance_cons, List.nil_append]
  | @unit ds n hds =>
      obtain ⟨j, hread⟩ := readHex_complete hds rest (i + 'u'.utf8Size)
      have hu : shortEscape? 'u' = none := rfl
      refine ⟨j, ?_⟩
      simp only [skipEscape, peek?_cons, List.cons_append, hu,
        Option.isSome_none, Bool.false_eq_true, if_false, if_true, advance_cons, hread]
      rfl

theorem skipEscape_sound (h : skipEscape k = .ok k') :
    ∃ w, k.rest = w ++ k'.rest ∧ PassableEscape w := by
  unfold skipEscape at h
  split at h
  · cases h
  · next e hpeek =>
      rw [rest_of_peek? hpeek]
      split at h
      · next hshort =>
          cases h
          exact ⟨[e], rfl, .short hshort⟩
      · split at h
        · next he =>
            cases hread : readHex k.advance with
            | error f =>
                rw [hread] at h
                cases h
            | ok r =>
                obtain ⟨n, k₁⟩ := r
                rw [hread] at h
                cases h
                obtain ⟨ds, hk, hds⟩ := readHex_sound hread
                subst he
                exact ⟨'u' :: ds, by rw [hk, List.cons_append], .unit hds⟩
        · cases h

/-! ## Strings -/

/-- **What stands between the quotes of a literal, and the characters it stands for.** -/
inductive Spells : List Char → List Char → Prop where
  | nil : Spells [] []
  | plain {c : Char} {w v : List Char} (hquote : c ≠ '"') (hslash : c ≠ '\\')
      (hc : isControl c = false) (h : Spells w v) : Spells (c :: w) (c :: v)
  | escape {c : Char} {e w v : List Char} (he : Escape e c) (h : Spells w v) :
      Spells ('\\' :: e ++ w) (c :: v)

/-- What stands between the quotes of a literal that nobody reads. -/
inductive Passable : List Char → Prop where
  | nil : Passable []
  | plain {c : Char} {w : List Char} (hquote : c ≠ '"') (hslash : c ≠ '\\')
      (hc : isControl c = false) (h : Passable w) : Passable (c :: w)
  | escape {e w : List Char} (he : PassableEscape e) (h : Passable w) : Passable ('\\' :: e ++ w)

variable {taken v : List Char} {s : String}

theorem readStringFrom_complete (h : Spells w v) (hn : w.length < n) (taken rest : List Char) (i : Nat) :
    ∃ j, readStringFrom taken n ⟨w ++ '"' :: rest, i⟩ =
      .ok (String.ofList (taken.reverse ++ v), ⟨rest, j⟩) := by
  induction h generalizing taken i n with
  | nil =>
      obtain ⟨n, rfl⟩ : ∃ m, n = m + 1 := ⟨n - 1, by omega⟩
      refine ⟨i + '"'.utf8Size, ?_⟩
      simp only [readStringFrom, peek?_cons, List.nil_append, if_true,
        advance_cons, List.append_nil]
  | @plain c w v hquote hslash hc h ih =>
      obtain ⟨n, rfl⟩ : ∃ m, n = m + 1 := ⟨n - 1, by omega⟩
      obtain ⟨j, hread⟩ := ih (Nat.lt_of_succ_lt_succ hn) (c :: taken) (i + c.utf8Size)
      refine ⟨j, ?_⟩
      rw [List.reverse_cons, List.append_assoc, List.singleton_append] at hread
      simp only [readStringFrom, peek?_cons, List.cons_append, hquote, hslash, hc,
        if_false, Bool.false_eq_true, advance_cons, hread]
  | @escape c e w v he h ih =>
      obtain ⟨n, rfl⟩ : ∃ m, n = m + 1 := ⟨n - 1, by omega⟩
      obtain ⟨_, hesc⟩ := readEscape_complete he (w ++ '"' :: rest) (i + '\\'.utf8Size)
      have hlen : w.length < n := by
        simp only [List.cons_append, List.length_cons, List.length_append] at hn
        omega
      obtain ⟨j, hread⟩ := ih hlen (c :: taken) _
      refine ⟨j, ?_⟩
      have hslash : ¬ '\\' = '"' := by decide
      rw [List.reverse_cons, List.append_assoc, List.singleton_append] at hread
      simp only [readStringFrom, peek?_cons, List.cons_append, List.append_assoc,
        hslash, if_false, if_true, advance_cons, hesc]
      exact hread

/-- **A literal is read as the string it spells.** -/
theorem readString_complete (h : Spells w s.toList) (rest : List Char) (i : Nat) :
    ∃ j, readString ⟨w ++ '"' :: rest, i⟩ = .ok (s, ⟨rest, j⟩) := by
  have hlen : w.length < (w ++ '"' :: rest).length := by
    rw [List.length_append, List.length_cons]
    omega
  obtain ⟨j, hread⟩ := readStringFrom_complete h hlen [] rest i
  rw [List.reverse_nil, List.nil_append, String.ofList_toList] at hread
  exact ⟨j, hread⟩

theorem readStringFrom_sound (h : readStringFrom taken n k = .ok (s, k')) :
    ∃ w v, k.rest = w ++ '"' :: k'.rest ∧ Spells w v ∧ s = String.ofList (taken.reverse ++ v) := by
  induction n generalizing taken k with
  | zero => cases h
  | succ n ih =>
      unfold readStringFrom at h
      split at h
      · cases h
      · next c hpeek =>
          have hrest := rest_of_peek? hpeek
          split at h
          · next hquote =>
              cases h
              exact ⟨[], [], by rw [hrest, hquote, List.nil_append], .nil, by rw [List.append_nil]⟩
          · next hquote =>
              split at h
              · next hslash =>
                  split at h
                  · next d k₁ hesc =>
                      obtain ⟨e, hk, he⟩ := readEscape_sound hesc
                      obtain ⟨w, v, hk₁, hw, rfl⟩ := ih h
                      refine ⟨'\\' :: e ++ w, d :: v, ?_, .escape he hw, ?_⟩
                      · rw [hrest, hslash, hk, hk₁, List.cons_append, List.cons_append,
                          List.append_assoc]
                      · rw [List.reverse_cons, List.append_assoc, List.singleton_append]
                  · cases h
              · next hslash =>
                  split at h
                  · cases h
                  · next hc =>
                      obtain ⟨w, v, hk, hw, rfl⟩ := ih h
                      refine ⟨c :: w, c :: v, by rw [hrest, hk, List.cons_append],
                        .plain hquote hslash (Bool.eq_false_iff.mpr hc) hw, ?_⟩
                      rw [List.reverse_cons, List.append_assoc, List.singleton_append]

theorem readString_sound (h : readString k = .ok (s, k')) :
    ∃ w, k.rest = w ++ '"' :: k'.rest ∧ Spells w s.toList := by
  obtain ⟨w, v, hk, hw, rfl⟩ := readStringFrom_sound h
  rw [List.reverse_nil, List.nil_append, String.toList_ofList]
  exact ⟨w, hk, hw⟩

theorem skipStringFrom_complete (h : Passable w) (hn : w.length < n) (rest : List Char) (i : Nat) :
    ∃ j, skipStringFrom n ⟨w ++ '"' :: rest, i⟩ = .ok ⟨rest, j⟩ := by
  induction h generalizing i n with
  | nil =>
      obtain ⟨n, rfl⟩ : ∃ m, n = m + 1 := ⟨n - 1, by omega⟩
      refine ⟨i + '"'.utf8Size, ?_⟩
      simp only [skipStringFrom, peek?_cons, List.nil_append, if_true,
        advance_cons]
  | @plain c w hquote hslash hc h ih =>
      obtain ⟨n, rfl⟩ : ∃ m, n = m + 1 := ⟨n - 1, by omega⟩
      obtain ⟨j, hskip⟩ := ih (Nat.lt_of_succ_lt_succ hn) (i + c.utf8Size)
      refine ⟨j, ?_⟩
      simp only [skipStringFrom, peek?_cons, List.cons_append, hquote, hslash, hc,
        if_false, Bool.false_eq_true, advance_cons, hskip]
  | @escape e w he h ih =>
      obtain ⟨n, rfl⟩ : ∃ m, n = m + 1 := ⟨n - 1, by omega⟩
      obtain ⟨_, hesc⟩ := skipEscape_complete he (w ++ '"' :: rest) (i + '\\'.utf8Size)
      have hlen : w.length < n := by
        simp only [List.cons_append, List.length_cons, List.length_append] at hn
        omega
      obtain ⟨j, hskip⟩ := ih hlen _
      have hslash : ¬ '\\' = '"' := by decide
      refine ⟨j, ?_⟩
      simp only [skipStringFrom, peek?_cons, List.cons_append, List.append_assoc,
        hslash, if_false, if_true, advance_cons, hesc]
      exact hskip

theorem skipString_complete (h : Passable w) (rest : List Char) (i : Nat) :
    ∃ j, skipString ⟨w ++ '"' :: rest, i⟩ = .ok ⟨rest, j⟩ := by
  refine skipStringFrom_complete h ?_ rest i
  rw [List.length_append, List.length_cons]
  omega

theorem skipStringFrom_sound (h : skipStringFrom n k = .ok k') :
    ∃ w, k.rest = w ++ '"' :: k'.rest ∧ Passable w := by
  induction n generalizing k with
  | zero => cases h
  | succ n ih =>
      unfold skipStringFrom at h
      split at h
      · cases h
      · next c hpeek =>
          have hrest := rest_of_peek? hpeek
          split at h
          · next hquote =>
              cases h
              exact ⟨[], by rw [hrest, hquote, List.nil_append], .nil⟩
          · next hquote =>
              split at h
              · next hslash =>
                  split at h
                  · next k₁ hesc =>
                      obtain ⟨e, hk, he⟩ := skipEscape_sound hesc
                      obtain ⟨w, hk₁, hw⟩ := ih h
                      refine ⟨'\\' :: e ++ w, ?_, .escape he hw⟩
                      rw [hrest, hslash, hk, hk₁, List.cons_append, List.cons_append,
                        List.append_assoc]
                  · cases h
              · next hslash =>
                  split at h
                  · cases h
                  · next hc =>
                      obtain ⟨w, hk, hw⟩ := ih h
                      exact ⟨c :: w, by rw [hrest, hk, List.cons_append],
                        .plain hquote hslash (Bool.eq_false_iff.mpr hc) hw⟩

theorem skipString_sound (h : skipString k = .ok k') :
    ∃ w, k.rest = w ++ '"' :: k'.rest ∧ Passable w := skipStringFrom_sound h

end Json
end ScriptSpacing
