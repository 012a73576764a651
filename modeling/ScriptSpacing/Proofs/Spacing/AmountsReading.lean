import ScriptSpacing.Proofs.Spacing.PresetLayout
import ScriptSpacing.Spacing.PresetReader

/-!
# `Proofs.Spacing.AmountsReading` — what the reader of amounts by name does

A reader is told by the form of what it reads (`Reads`): it accepts layouts only, it accepts those all of whose
integers can be converted, and it refuses the others because of the first that cannot, without a look at what follows
that integer. The reader of amounts by name goes through a layout as it was built, one turn a member, so each of the
three is one induction: on the members to go forwards, and on the turns that are left to go back.
-/

namespace ScriptSpacing
namespace PresetFile
open Json
open Text (isDigit)

variable {α L : Type} {convert : Conversion} {b rest : List Char} {c : Char} {i n : Nat} {k k' : Cursor}

/-! ## Steps -/

theorem orRefuse_ok (a : α) : orRefuse (.ok a) = .ok a := rfl

theorem ok_of_orRefuse {r : Except (Placed Fault) α} {a : α} (h : orRefuse r = .ok a) : r = .ok a := by
  cases r with
  | ok a =>
      cases h
      rfl
  | error e => cases h

theorem toValue_complete (hb : IsBlanks b) (hc : Cursor.isBlank c = false) (rest : List Char) (i : Nat) :
    ∃ j, toValue ⟨b ++ c :: rest, i⟩ = .ok (c, ⟨c :: rest, j⟩) := by
  obtain ⟨j, hblanks⟩ := skipBlanks_complete hb hc rest i
  refine ⟨j, ?_⟩
  simp only [toValue, hblanks, peek?_cons]

theorem toValue_sound (h : toValue k = .ok (c, k')) :
    ∃ b, IsBlanks b ∧ k.rest = b ++ k'.rest ∧ k'.peek? = some c := by
  obtain ⟨b, hb, hk⟩ := skipBlanks_sound k
  unfold toValue at h
  dsimp only at h
  split at h
  · cases h
  · next c hpeek =>
      cases h
      exact ⟨b, hb, hk, hpeek⟩

theorem refuseType_ne_ok {must : Expected} {r : α} : refuseType must k ≠ .ok r := by
  intro h
  obtain ⟨⟨found, k₁⟩, _, h⟩ := bind_eq_ok.mp h
  cases h

/-! ## Amounts -/

/-- The answer to an integer that stands for an amount. -/
def answer (k : Cursor) : Except InvalidAmount Amount → Except Refusal (Amount × Cursor)
  | .ok a    => .ok (a, k)
  | .error e => refuseMember (.amount e) k

/-- A numeral is read as its value, by its first character. -/
theorem readNumber_numeral (x : Numeral) :
    ∃ c r, x.written = c :: r ∧ (c = '-' || isDigit c) = true ∧ Cursor.isBlank c = false ∧
      ∀ rest i, Stops rest → ∃ m j,
        readNumber (c = '-') (if c = '-' then Cursor.advance ⟨c :: (r ++ rest), i⟩ else ⟨c :: (r ++ rest), i⟩) =
          .ok (m, ⟨rest, j⟩) ∧ toInteger m ⟨rest, j⟩ = .ok x.value := by
  obtain ⟨written, value, hx⟩ := x
  cases hx with
  | unsigned hw hlt =>
      obtain ⟨d, r, hd, hdigit⟩ := hw.isDigits.head
      have hsign : ¬ d = '-' := by
        rintro rfl
        cases hdigit
      refine ⟨d, r, hd, by rw [hdigit, Bool.or_true], isBlank_of_isDigit hdigit, fun rest i hrest => ?_⟩
      obtain ⟨j, hread⟩ := readNumber_unsigned hw (hlt.trans (by decide)) hrest i
      refine ⟨.unsigned (decimal written), j, ?_, if_pos hlt⟩
      rw [if_neg hsign, decide_eq_false hsign, ← List.cons_append, ← hd]
      exact hread
  | @negative w hw hpos hle =>
      refine ⟨'-', w, rfl, rfl, rfl, fun rest i hrest => ?_⟩
      obtain ⟨j, hread⟩ := readNumber_negative hw hpos hle hrest (i + '-'.utf8Size)
      exact ⟨_, j, hread, rfl⟩

theorem readAmount_numeral (convert : Conversion) (x : Numeral) (hb : IsBlanks b) (hrest : Stops rest) (i : Nat) :
    ∃ j, readAmount convert ⟨b ++ (x.written ++ rest), i⟩ = answer ⟨rest, j⟩ (convert x.value) := by
  obtain ⟨c, r, hx, hfirst, hblank, hread⟩ := readNumber_numeral x
  obtain ⟨j₁, hvalue⟩ := toValue_complete hb hblank (r ++ rest) i
  obtain ⟨m, j, hnumber, hinteger⟩ := hread rest j₁ hrest
  refine ⟨j, ?_⟩
  rw [hx, List.cons_append, readAmount, hvalue, ok_bind]
  simp only [hfirst, if_true, hnumber, orRefuse_ok, ok_bind, hinteger]
  cases convert x.value <;> rfl

/-- A number that stands for an integer is a numeral of it. -/
theorem toInteger_sound {negative : Bool} {m : Json.Number} {v : Int}
    (hread : readNumber negative k = .ok (m, k')) (h : toInteger m k' = .ok v) :
    ∃ w, k.rest = w ++ k'.rest ∧ IsInteger (if negative then '-' :: w else w) v := by
  rcases readNumber_sound hread with ⟨_, _, rfl⟩ | ⟨w, hk, hw, hn⟩
  · cases h
  · refine ⟨w, hk, ?_⟩
    rcases hn with ⟨rfl, rfl⟩ | ⟨rfl, hpos, hle, rfl⟩
    · simp only [toInteger] at h
      split at h
      · next hlt =>
          cases h
          exact .unsigned hw hlt
      · cases h
    · cases h
      exact .negative hw hpos hle

/-- **What is read as an amount is the numeral of an integer that is converted to it.** -/
theorem readAmount_sound {a : Amount} (h : readAmount convert k = .ok (a, k')) :
    ∃ b, ∃ x : Numeral, IsBlanks b ∧ k.rest = b ++ (x.written ++ k'.rest) ∧ convert x.value = .ok a := by
  obtain ⟨⟨c, k₁⟩, hvalue, h⟩ := bind_eq_ok.mp h
  obtain ⟨b, hb, hk, hpeek⟩ := toValue_sound hvalue
  dsimp only at h
  split at h
  · obtain ⟨⟨m, k₂⟩, hnumber, h⟩ := bind_eq_ok.mp h
    obtain ⟨v, hinteger, h⟩ := bind_eq_ok.mp h
    obtain ⟨t, ht, hv⟩ : ∃ t, k₁.rest = t ++ k₂.rest ∧ IsInteger t v := by
      have hread := ok_of_orRefuse hnumber
      by_cases hc : c = '-'
      · rw [if_pos hc, decide_eq_true hc] at hread
        obtain ⟨w, hw, hv⟩ := toInteger_sound hread hinteger
        exact ⟨'-' :: w, by rw [rest_of_peek? hpeek, hc, hw, List.cons_append], hv⟩
      · rw [if_neg hc, decide_eq_false hc] at hread
        exact toInteger_sound hread hinteger
    cases hconvert : convert v with
    | ok a =>
        rw [hconvert] at h
        cases h
        exact ⟨b, ⟨t, v, hv⟩, hb, by rw [hk, ht], hconvert⟩
    | error e =>
        rw [hconvert] at h
        cases h
  · exact absurd h refuseType_ne_ok

/-! ## Readers -/

theorem endsWith_numeral (x : Numeral) : EndsWith x.value x.written := ⟨[], x, rfl, rfl⟩

theorem EndsWith.append {v : Int} {front : List Char} (h : EndsWith v front) (u : List Char) :
    EndsWith v (u ++ front) := by
  obtain ⟨t, x, rfl, rfl⟩ := h
  exact ⟨u ++ t, x, (List.append_assoc u t x.written).symm, rfl⟩

theorem EndsWith.ne_nil {v : Int} {front : List Char} (h : EndsWith v front) : front ≠ [] := by
  obtain ⟨t, x, rfl, rfl⟩ := h
  obtain ⟨c, r, hx, -⟩ := readNumber_numeral x
  rw [hx]
  exact List.append_ne_nil_of_right_ne_nil t (List.cons_ne_nil c r)

/-- **A text that can be cut behind a numeral of `v`**, where `P` holds of what is in front of the cut. -/
def CutBehind (v : Int) (P : List Char → Prop) (text : List Char) : Prop :=
  ∃ front back, text = front ++ back ∧ EndsWith v front ∧ Stops back ∧ P front

section CutBehind

variable {v : Int} {P Q : List Char → Prop} {t u : List Char}

theorem CutBehind.imp (h : CutBehind v P t) (hPQ : ∀ front, P front → Q front) : CutBehind v Q t := by
  obtain ⟨front, back, ht, hfront, hback, hP⟩ := h
  exact ⟨front, back, ht, hfront, hback, hPQ front hP⟩

/-- The same cut with more in front. -/
theorem CutBehind.behind (h : CutBehind v P t) (u : List Char)
    (hPQ : ∀ front, front <+: t → front ≠ [] → P front → Q (u ++ front)) : CutBehind v Q (u ++ t) := by
  obtain ⟨front, back, rfl, hfront, hback, hP⟩ := h
  exact ⟨u ++ front, back, (List.append_assoc u front back).symm, hfront.append u, hback,
    hPQ front (List.prefix_append front back) hfront.ne_nil hP⟩

/-- The same cut with more behind. -/
theorem CutBehind.before (h : CutBehind v P t) (hu : Stops u) : CutBehind v P (t ++ u) := by
  obtain ⟨front, back, rfl, hfront, hback, hP⟩ := h
  exact ⟨front, back ++ u, List.append_assoc front back u, hfront, hback.append hu, hP⟩

end CutBehind

/-- A text on which a reader stops because of `e`, whatever follows. -/
def Refuses (read : Cursor → Except Refusal (α × Cursor)) (e : InvalidAmount) (front : List Char) : Prop :=
  ∀ b rest i, IsBlanks b → Stops rest → ∃ j, read ⟨b ++ (front ++ rest), i⟩ = .error ⟨.amount e, j⟩

/-- **A reader does what a form says.** -/
structure Reads (convert : Conversion) (read : Cursor → Except Refusal (α × Cursor)) (F : Form L α) : Prop where
  /-- values begin with a bracket -/
  head : ∀ l, ∃ c r, F.text l = c :: r ∧ (c = '\x7b' ∨ c = '[')
  /-- what is accepted is laid out, and all its integers can be converted -/
  sound : ∀ {k k' a}, read k = .ok (a, k') →
    ∃ b l, IsBlanks b ∧ k.rest = b ++ (F.text l ++ k'.rest) ∧ firstBad? convert (F.integers l) = none ∧
      F.content l = a
  /-- a layout whose integers can be converted is accepted -/
  complete : ∀ l b rest i, firstBad? convert (F.integers l) = none → IsBlanks b →
    ∃ j, read ⟨b ++ (F.text l ++ rest), i⟩ = .ok (F.content l, ⟨rest, j⟩)
  /-- a layout is refused for its first integer that cannot be converted -/
  refuses : ∀ l v e, firstBad? convert (F.integers l) = some v → convert v = .error e →
    CutBehind v (Refuses read e) (F.text l)

/-! ### Amounts by name -/

section Amounts

variable {members : List (Item (Member Numeral))} {last : Blanks} {sofar r : Amounts} {first : Bool}
  {k₁ : Cursor}

/-- The text of a member with what sets it off. -/
abbrev memberText (first : Bool) (x : Item (Member Numeral)) : List Char :=
  x.setOff (Member.text Numeral.written) first

/-- The text that is left of an object of amounts. -/
abbrev amountsTail (first : Bool) (members : List (Item (Member Numeral))) (last : Blanks) : List Char :=
  Item.closed (Member.text Numeral.written) '\x7d' first members last

theorem amountsTail_cons (x : Item (Member Numeral)) :
    amountsTail first (x :: members) last = memberText first x ++ amountsTail false members last :=
  Item.closed_cons x members last

/-- The integers of members, by name. -/
abbrev entriesOf (members : List (Item (Member Numeral))) : List (String × Int) :=
  members.map fun x => (x.body.name.value, x.body.value.value)

/-! One turn of the reader: what it does with a member, and what it has read when it is done. -/

theorem readAmountsFrom_end (last : Blanks) (sofar : Amounts) (first : Bool) (rest : List Char) {n : Nat}
    (hn : 0 < n) (i : Nat) :
    ∃ j, readAmountsFrom convert sofar first n ⟨amountsTail first [] last ++ rest, i⟩ =
      .ok (sofar, ⟨rest, j⟩) := by
  obtain ⟨n, rfl⟩ := Nat.exists_eq_succ_of_ne_zero (Nat.ne_of_gt hn)
  obtain ⟨j₁, hkey⟩ := nextKey_end last.isBlanks first rest i
  obtain ⟨j, hpass⟩ := passBrace_complete rest j₁
  refine ⟨j, ?_⟩
  rw [Item.closed_nil, readAmountsFrom, hkey, ← hpass]
  rfl

theorem readAmountsFrom_member (convert : Conversion) (x : Item (Member Numeral)) (hrest : Stops rest)
    (sofar : Amounts) (first : Bool) {l : Nat} (hn : (memberText first x).length + l ≤ n) (i : Nat) :
    ∃ m j, l ≤ m ∧ readAmountsFrom convert sofar first n ⟨memberText first x ++ rest, i⟩ =
      (answer ⟨rest, j⟩ (convert x.body.value.value) >>= fun r =>
        readAmountsFrom convert (sofar.insert x.body.name.value r.1) false m r.2) := by
  have htext : memberText first x =
      (header first x.lead x.before x.body.name x.body.middle ++ x.body.after.written) ++ x.body.value.written :=
    Member.text_setOff Numeral.written first x.lead x.before x.body
  have hheader := length_header_pos first x.lead x.before x.body.name x.body.middle
  rw [htext] at hn ⊢
  simp only [List.length_append, List.append_assoc] at hn ⊢
  obtain ⟨n, rfl⟩ : ∃ m, n = m + 1 := ⟨n - 1, by omega⟩
  obtain ⟨k₁, j₁, hkey, hcolon⟩ := readHeader_complete first x.lead x.before x.body.name x.body.middle
    (x.body.after.written ++ (x.body.value.written ++ rest)) i
  obtain ⟨j, hamount⟩ := readAmount_numeral convert x.body.value x.body.after.isBlanks hrest j₁
  refine ⟨n, j, by omega, ?_⟩
  rw [readAmountsFrom, hkey, orRefuse_ok, ok_bind]
  dsimp only
  rw [hcolon, orRefuse_ok, ok_bind, hamount]

theorem readAmountsFrom_cases (h : readAmountsFrom convert sofar first (n + 1) k = .ok (r, k')) :
    (∃ last, k.rest = amountsTail first [] last ++ k'.rest ∧ sofar = r) ∨
      ∃ x a k₁, k.rest = memberText first x ++ k₁.rest ∧ convert x.body.value.value = .ok a ∧
        readAmountsFrom convert (sofar.insert x.body.name.value a) false n k₁ = .ok (r, k') := by
  rw [readAmountsFrom] at h
  obtain ⟨⟨o, k₁⟩, hkey, h⟩ := bind_eq_ok.mp h
  have hkey := ok_of_orRefuse hkey
  cases o with
  | none =>
      cases h
      rcases nextKey_sound hkey with ⟨b, t, hk, hk₁, hb, -⟩ | ⟨_, _, _, _, _, _, _, _, hname⟩
      · exact .inl ⟨⟨b, hb⟩, by rw [Item.closed_nil, hk, rest_passBrace hk₁], rfl⟩
      · cases hname
  | some name =>
      obtain ⟨k₂, hcolon, h⟩ := bind_eq_ok.mp h
      obtain ⟨⟨a, k₃⟩, hamount, h⟩ := bind_eq_ok.mp h
      obtain ⟨lead, before, name, middle, hk, rfl⟩ := readHeader_sound hkey (ok_of_orRefuse hcolon)
      obtain ⟨b, x, hb, hk₂, hx⟩ := readAmount_sound hamount
      refine .inr ⟨⟨lead, before, name, middle, ⟨b, hb⟩, x⟩, a, k₃, ?_, hx, h⟩
      rw [memberText, Item.setOff, Member.text_setOff, hk, hk₂]
      simp only [List.append_assoc]

/-! All turns. -/

theorem readAmountsFrom_complete (h : ∀ x ∈ members, ∃ a, convert x.body.value.value = .ok a) (last : Blanks)
    (sofar : Amounts) (first : Bool) (rest : List Char) (n i : Nat) (hn : (amountsTail first members last).length ≤ n) :
    ∃ j, readAmountsFrom convert sofar first n ⟨amountsTail first members last ++ rest, i⟩ =
      .ok ((entriesOf members).foldl (fun m e => m.insert e.1 (amountBy convert e.2)) sofar, ⟨rest, j⟩) := by
  induction members generalizing sofar first n i with
  | nil =>
      refine readAmountsFrom_end last sofar first rest (Nat.lt_of_lt_of_le ?_ hn) i
      simp only [Item.closed, List.length_append, List.length_singleton]
      omega
  | cons x members ih =>
      obtain ⟨⟨a, hx⟩, hmembers⟩ := List.forall_mem_cons.mp h
      rw [amountsTail_cons] at hn ⊢
      rw [List.length_append] at hn
      have hstops : Stops (amountsTail false members last ++ rest) := Item.stops_closed_append rfl members last rest
      obtain ⟨m, j₁, hm, hmember⟩ := readAmountsFrom_member convert x hstops sofar first hn i
      obtain ⟨j, hread⟩ := ih hmembers (sofar.insert x.body.name.value a) false m j₁ hm
      refine ⟨j, ?_⟩
      rw [List.append_assoc, hmember, hx, entriesOf, List.map_cons, List.foldl_cons, amountBy_of_ok hx]
      exact hread

/-- **The first integer that cannot be converted stops the reader**, whatever follows it. -/
theorem readAmountsFrom_refuses {v : Int} {e : InvalidAmount}
    (h : firstBad? convert (members.map (·.body.value.value)) = some v) (he : convert v = .error e) (last : Blanks)
    (first : Bool) :
    CutBehind v (fun front => ∀ (sofar : Amounts) (rest : List Char) (n i : Nat), Stops rest → front.length ≤ n →
        ∃ j, readAmountsFrom convert sofar first n ⟨front ++ rest, i⟩ = .error ⟨.amount e, j⟩)
      (amountsTail first members last) := by
  induction members generalizing first with
  | nil => cases h
  | cons x members ih =>
      rw [List.map_cons] at h
      rw [amountsTail_cons]
      cases hx : convert x.body.value.value with
      | ok a =>
          rw [firstBad?_cons_of_ok hx] at h
          refine (ih h false).behind (memberText first x) fun front hpre hne hread sofar rest n i hrest hn => ?_
          have hstops : Stops (amountsTail false members last) := Item.stops_closed rfl members last
          rw [List.length_append] at hn
          obtain ⟨m, j₁, hm, hmember⟩ :=
            readAmountsFrom_member convert x (hstops.of_prefix hpre hne rest) sofar first hn i
          obtain ⟨j, hstop⟩ := hread (sofar.insert x.body.name.value a) rest m j₁ hrest hm
          refine ⟨j, ?_⟩
          rw [List.append_assoc, hmember, hx]
          exact hstop
      | error e' =>
          rw [firstBad?_cons_of_error hx] at h
          cases h
          cases hx.symm.trans he
          have hends : EndsWith x.body.value.value (memberText first x) := by
            rw [memberText, Item.setOff, Member.text_setOff]
            exact (endsWith_numeral x.body.value).append _
          refine ⟨memberText first x, _, rfl, hends, Item.stops_closed rfl members last,
            fun sofar rest n i hrest hn => ?_⟩
          obtain ⟨m, j, -, hmember⟩ := readAmountsFrom_member convert x hrest sofar first (l := 0) hn i
          refine ⟨(passBrace ⟨rest, j⟩).index, ?_⟩
          rw [hmember, hx]
          rfl

/-- **What is read is laid out**, and its integers can be converted. -/
theorem readAmountsFrom_sound (h : readAmountsFrom convert sofar first n k = .ok (r, k')) :
    ∃ members last, k.rest = amountsTail first members last ++ k'.rest ∧
      firstBad? convert (members.map (·.body.value.value)) = none ∧
      (entriesOf members).foldl (fun m e => m.insert e.1 (amountBy convert e.2)) sofar = r := by
  induction n generalizing sofar first k with
  | zero => cases h
  | succ n ih =>
      rcases readAmountsFrom_cases h with ⟨last, hk, rfl⟩ | ⟨x, a, k₁, hk, hx, h⟩
      · exact ⟨[], last, hk, rfl, rfl⟩
      · obtain ⟨members, last, hk₁, hbad, hr⟩ := ih h
        refine ⟨x :: members, last, ?_, ?_, ?_⟩
        · rw [amountsTail_cons, List.append_assoc, hk, hk₁]
        · rw [List.map_cons, firstBad?_cons_of_ok hx, hbad]
        · rw [entriesOf, List.map_cons, List.foldl_cons, amountBy_of_ok hx, hr]

/-! The whole object. -/

/-- The reader of amounts by name comes to the members behind the brace. -/
theorem readAmounts_brace (convert : Conversion) (hb : IsBlanks b) (rest : List Char) (i : Nat) :
    ∃ j, readAmounts convert ⟨b ++ '\x7b' :: rest, i⟩ =
      readAmountsFrom convert .empty true rest.length ⟨rest, j⟩ := by
  obtain ⟨j, hvalue⟩ := toValue_complete (c := '\x7b') hb rfl rest i
  refine ⟨j + '\x7b'.utf8Size, ?_⟩
  rw [readAmounts, hvalue, ok_bind]
  rfl

theorem integers_form (convert : Conversion) (d : AmountsLayout) :
    (AmountsLayout.form convert).integers d = d.members.map (·.body.value.value) := by
  simp only [AmountsLayout.form, AmountsLayout.integers, AmountsLayout.entries, List.map_map]
  rfl

/-- **The reader of amounts by name does what their form says.** -/
theorem readAmounts_reads (convert : Conversion) :
    Reads convert (readAmounts convert) (AmountsLayout.form convert) where
  head l := ⟨'\x7b', amountsTail true l.members l.last, rfl, .inl rfl⟩
  sound h := by
    obtain ⟨⟨c, k₁⟩, hvalue, h⟩ := bind_eq_ok.mp h
    obtain ⟨b, hb, hk, hpeek⟩ := toValue_sound hvalue
    dsimp only at h
    split at h
    · next hc =>
        obtain ⟨members, last, hk₁, hbad, hr⟩ := readAmountsFrom_sound h
        refine ⟨b, ⟨members, last⟩, hb, ?_, ?_, hr⟩
        · rw [hk, rest_of_peek? hpeek, hc, hk₁]
          rfl
        · rw [integers_form, hbad]
    · exact absurd h refuseType_ne_ok
  complete l b rest i h hb := by
    rw [integers_form, firstBad?_eq_none_iff, List.forall_mem_map] at h
    obtain ⟨j₁, hbrace⟩ := readAmounts_brace convert hb (amountsTail true l.members l.last ++ rest) i
    obtain ⟨j, hread⟩ := readAmountsFrom_complete h l.last .empty true rest
      (amountsTail true l.members l.last ++ rest).length j₁ ((List.prefix_append _ _).length_le)
    exact ⟨j, hbrace.trans hread⟩
  refuses l v e h he := by
    rw [integers_form] at h
    refine (readAmountsFrom_refuses h he l.last true).behind ['\x7b'] fun front _ _ hread b rest i hb hrest => ?_
    obtain ⟨j₁, hbrace⟩ := readAmounts_brace convert hb (front ++ rest) i
    obtain ⟨j, hstop⟩ := hread .empty rest (front ++ rest).length j₁ hrest
      ((List.prefix_append _ _).length_le)
    exact ⟨j, hbrace.trans hstop⟩

end Amounts

end PresetFile
end ScriptSpacing
