import ScriptSpacing.Proofs.Spacing.AmountsReading

/-!
# `Proofs.Spacing.RecordReading` — what the reader of a record does

Once for all records: if the values of the members are read as their form says, the record is. Members of other names
are passed over, whatever they hold, and leave no trace in what is read, which is told by what it has for each name.
-/

namespace ScriptSpacing
namespace PresetFile
namespace Record
open Json

variable {α L : Type} {convert : Conversion} {F : Form L α} {r : Record α}
  {b rest : List Char} {i n : Nat} {k k' k₁ k₂ : Cursor}

/-! ## Objects -/

section Objects

variable {fields : List (Item (Field r.names L))} {last lead before : Blanks} {sofar : List (String × α)}
  {first : Bool} {name : String}

/-- The text of a member with what sets it off. -/
abbrev fieldText (F : Form L α) (first : Bool) (x : Item (Field r.names L)) : List Char :=
  x.setOff (Field.text F.text) first

/-- The text that is left of an object. -/
abbrev tail (F : Form L α) (first : Bool) (fields : List (Item (Field r.names L))) (last : Blanks) : List Char :=
  Item.closed (Field.text F.text) '\x7d' first fields last

theorem tail_cons (F : Form L α) (x : Item (Field r.names L)) :
    tail F first (x :: fields) last = fieldText F first x ++ tail F false fields last :=
  Item.closed_cons x fields last

theorem fieldText_known (F : Form L α) (m : Member L) (hname : m.name.value ∈ r.names) :
    fieldText F first ⟨lead, before, .known m hname⟩ =
      (header first lead before m.name m.middle ++ m.after.written) ++ F.text m.value :=
  Member.text_setOff F.text first lead before m

theorem fieldText_other (F : Form L α) (m : Member AnyValue) (hname : m.name.value ∉ r.names) :
    fieldText F first ⟨lead, before, .other m hname⟩ =
      (header first lead before m.name m.middle ++ m.after.written) ++ m.value.written :=
  Member.text_setOff AnyValue.written first lead before m

/-- The values of an object by name, as `g` has them. -/
abbrev entriesOf {β : Type} (g : L → β) (fields : List (Item (Field r.names L))) : List (String × β) :=
  fields.filterMap (·.body.binding? g)

/-- The names of an object that are read. -/
abbrev namesOf (fields : List (Item (Field r.names L))) : List String := fields.filterMap (·.body.name?)

theorem lookup_entriesOf_eq_none {β : Type} {g : L → β} (h : name ∉ namesOf fields) :
    (entriesOf g fields).lookup name = none := by
  induction fields with
  | nil => rfl
  | cons x fields ih =>
      obtain ⟨lead, before, body⟩ := x
      cases body with
      | known m hname =>
          have h : name ∉ m.name.value :: namesOf fields := h
          exact (Amounts.lookup_cons _ _ _ _).trans
            ((if_neg (List.ne_of_not_mem_cons h)).trans (ih (List.not_mem_of_not_mem_cons h)))
      | other m hname => exact ih h

/-- The names that are still new when a name has been read. -/
theorem lookup_cons_eq_none_iff {a : α} (s : String) :
    ((name, a) :: sofar).lookup s = none ↔ s ≠ name ∧ sofar.lookup s = none := by
  rw [Amounts.lookup_cons]
  by_cases hs : s = name
  · simp [hs]
  · simp [hs]

/-- A name that is read leaves the others new. -/
theorem lookup_cons_eq_none {names : List String} {a : α} (honce : (name :: names).Nodup)
    (hnew : ∀ s ∈ name :: names, sofar.lookup s = none) :
    ∀ s ∈ names, ((name, a) :: sofar).lookup s = none := by
  intro s hs
  have hne : s ≠ name := fun he => (List.nodup_cons.mp honce).1 (he ▸ hs)
  exact (lookup_cons_eq_none_iff s).mpr ⟨hne, hnew s (List.mem_cons_of_mem name hs)⟩

/-- A name whose value is read last is found as if it had been read first. -/
theorem lookup_or_cons {es : List (String × α)} {a : α} (hes : es.lookup name = none) (s : String) :
    (es.lookup s).or (((name, a) :: sofar).lookup s) = (((name, a) :: es).lookup s).or (sofar.lookup s) := by
  rw [Amounts.lookup_cons, Amounts.lookup_cons]
  by_cases hs : s = name
  · rw [if_pos hs, if_pos hs, hs, hes]
    rfl
  · rw [if_neg hs, if_neg hs]

/-! ### One turn -/

theorem readMembersFrom_end (r : Record α) (last : Blanks) (sofar : List (String × α)) (first : Bool)
    (rest : List Char) {n : Nat} (hn : 0 < n) (i : Nat) :
    ∃ j, r.readMembersFrom sofar first n ⟨tail (r := r) F first [] last ++ rest, i⟩ =
      .ok (sofar, ⟨rest, j⟩) := by
  obtain ⟨n, rfl⟩ := Nat.exists_eq_succ_of_ne_zero (Nat.ne_of_gt hn)
  obtain ⟨j₁, hkey⟩ := nextKey_end last.isBlanks first rest i
  obtain ⟨j, hpass⟩ := passBrace_complete rest j₁
  refine ⟨j, ?_⟩
  rw [Item.closed_nil, readMembersFrom, hkey, ← hpass]
  rfl

/-- A new member that is read: the reader of values is next, behind the colon, in front of `u`. -/
theorem readMembersFrom_known (lead before : Blanks) (m : Member L) (hname : m.name.value ∈ r.names)
    (hnew : sofar.lookup m.name.value = none) (first : Bool) {u : List Char} {l : Nat}
    (hn : (header first lead before m.name m.middle ++ m.after.written ++ u).length + l ≤ n)
    (rest : List Char) (i : Nat) :
    ∃ t j, l ≤ t ∧ r.readMembersFrom sofar first n
        ⟨header first lead before m.name m.middle ++ m.after.written ++ u ++ rest, i⟩ =
      (r.read ⟨m.after.written ++ (u ++ rest), j⟩ >>= fun a =>
        r.readMembersFrom ((m.name.value, a.1) :: sofar) false t a.2) := by
  have hheader := length_header_pos first lead before m.name m.middle
  simp only [List.length_append, List.append_assoc] at hn ⊢
  obtain ⟨n, rfl⟩ : ∃ t, n = t + 1 := ⟨n - 1, by omega⟩
  obtain ⟨k₁, j, hkey, hcolon⟩ := readHeader_complete first lead before m.name m.middle
    (m.after.written ++ (u ++ rest)) i
  refine ⟨n, j, by omega, ?_⟩
  rw [readMembersFrom, hkey, orRefuse_ok, ok_bind]
  dsimp only
  rw [if_pos (List.contains_iff_mem.mpr hname), hnew, hcolon]
  rfl

/-- A member of another name is passed over. -/
theorem readMembersFrom_other (m : Member AnyValue) (hname : m.name.value ∉ r.names) (hrest : Stops rest)
    (sofar : List (String × α)) (first : Bool) {l : Nat}
    (hn : (fieldText F first ⟨lead, before, .other m hname⟩).length + l ≤ n) (i : Nat) :
    ∃ t j, l ≤ t ∧
      r.readMembersFrom sofar first n ⟨fieldText F first ⟨lead, before, .other m hname⟩ ++ rest, i⟩ =
        r.readMembersFrom sofar false t ⟨rest, j⟩ := by
  have hheader := length_header_pos first lead before m.name m.middle
  rw [fieldText_other] at hn ⊢
  simp only [List.length_append, List.append_assoc] at hn ⊢
  obtain ⟨n, rfl⟩ : ∃ t, n = t + 1 := ⟨n - 1, by omega⟩
  obtain ⟨k₁, j₁, hkey, hcolon⟩ := readHeader_complete first lead before m.name m.middle
    (m.after.written ++ (m.value.written ++ rest)) i
  obtain ⟨j, hskip⟩ := skipValue_complete m.value.isValue m.after.isBlanks hrest j₁
  refine ⟨n, j, by omega, ?_⟩
  rw [readMembersFrom, hkey, orRefuse_ok, ok_bind]
  dsimp only
  rw [if_neg (fun h => hname (List.contains_iff_mem.mp h)), hcolon, ok_bind, hskip]
  rfl

/-- What has been read in one turn: the end of the object, a new member that is read, or one of another name. -/
theorem readMembersFrom_cases (hr : Reads convert r.read F) {fs : List (String × α)}
    (h : r.readMembersFrom sofar first (n + 1) k = .ok (fs, k')) :
    (∃ last, k.rest = tail (r := r) F first [] last ++ k'.rest ∧ sofar = fs) ∨
    (∃ lead before m hname k₁, k.rest = fieldText (r := r) F first ⟨lead, before, .known m hname⟩ ++ k₁.rest ∧
      sofar.lookup m.name.value = none ∧ firstBad? convert (F.integers m.value) = none ∧
      r.readMembersFrom ((m.name.value, F.content m.value) :: sofar) false n k₁ = .ok (fs, k')) ∨
    ∃ lead before m hname k₁, k.rest = fieldText (r := r) F first ⟨lead, before, .other m hname⟩ ++ k₁.rest ∧
      r.readMembersFrom sofar false n k₁ = .ok (fs, k') := by
  rw [readMembersFrom] at h
  obtain ⟨⟨o, k₁⟩, hkey, h⟩ := bind_eq_ok.mp h
  have hkey := ok_of_orRefuse hkey
  cases o with
  | none =>
      cases h
      rcases nextKey_sound hkey with ⟨b, t, hk, hk₁, hb, -⟩ | ⟨_, _, _, _, _, _, _, _, hname⟩
      · exact .inl ⟨⟨b, hb⟩, by rw [Item.closed_nil, hk, rest_passBrace hk₁], rfl⟩
      · cases hname
  | some name =>
      dsimp only at h
      split at h
      · next hname =>
          have hname : name ∈ r.names := List.contains_iff_mem.mp hname
          split at h
          · cases h
          · next hnew =>
              obtain ⟨k₂, hcolon, h⟩ := bind_eq_ok.mp h
              obtain ⟨⟨a, k₃⟩, hvalue, h⟩ := bind_eq_ok.mp h
              obtain ⟨lead, before, name, middle, hk, rfl⟩ := readHeader_sound hkey (ok_of_orRefuse hcolon)
              obtain ⟨b, l, hb, hk₂, hbad, rfl⟩ := hr.sound hvalue
              refine .inr (.inl ⟨lead, before, ⟨name, middle, ⟨b, hb⟩, l⟩, hname, k₃, ?_,
                Option.not_isSome_iff_eq_none.mp hnew, hbad, h⟩)
              rw [fieldText_known, hk, hk₂]
              simp only [List.append_assoc]
      · next hname =>
          have hname : name ∉ r.names := fun h => hname (List.contains_iff_mem.mpr h)
          obtain ⟨k₃, hpass, h⟩ := bind_eq_ok.mp h
          obtain ⟨k₂, hcolon, hskip⟩ := bind_eq_ok.mp (ok_of_orRefuse hpass)
          obtain ⟨lead, before, name, middle, hk, rfl⟩ := readHeader_sound hkey hcolon
          obtain ⟨b, v, hk₂, hb, hv⟩ := skipValue_sound hskip
          refine .inr (.inr ⟨lead, before, ⟨name, middle, ⟨b, hb⟩, ⟨v, hv⟩⟩, hname, k₃, ?_, h⟩)
          rw [fieldText_other, hk, hk₂]
          simp only [List.append_assoc]

/-! ### Whole objects -/

theorem readMembersFrom_complete (hr : Reads convert r.read F)
    (h : firstBad? convert ((entriesOf F.integers fields).flatMap Prod.snd) = none) (once : (namesOf fields).Nodup)
    (last : Blanks) (sofar : List (String × α)) (hnew : ∀ name ∈ namesOf fields, sofar.lookup name = none)
    (first : Bool) (rest : List Char) (n i : Nat) (hn : (tail F first fields last).length ≤ n) :
    ∃ fs j, r.readMembersFrom sofar first n ⟨tail F first fields last ++ rest, i⟩ = .ok (fs, ⟨rest, j⟩) ∧
      ∀ name, fs.lookup name = ((entriesOf F.content fields).lookup name).or (sofar.lookup name) := by
  induction fields generalizing sofar first n i with
  | nil =>
      have hpos : 0 < n := by
        refine Nat.lt_of_lt_of_le ?_ hn
        simp only [Item.closed, List.length_append, List.length_singleton]
        omega
      obtain ⟨j, hend⟩ := readMembersFrom_end (F := F) r last sofar first rest hpos i
      exact ⟨sofar, j, hend, fun name => rfl⟩
  | cons x fields ih =>
      obtain ⟨lead, before, body⟩ := x
      rw [tail_cons] at hn ⊢
      rw [List.length_append] at hn
      cases body with
      | known m hname =>
          have h :
              firstBad? convert (F.integers m.value ++ (entriesOf F.integers fields).flatMap Prod.snd) = none := h
          have once : (m.name.value :: namesOf fields).Nodup := once
          have hnew : ∀ s ∈ m.name.value :: namesOf fields, sofar.lookup s = none := hnew
          rw [firstBad?_append, Option.or_eq_none_iff] at h
          rw [fieldText_known] at hn ⊢
          obtain ⟨t, j₁, ht, hmember⟩ := readMembersFrom_known lead before m hname (hnew _ List.mem_cons_self)
            first hn (tail F false fields last ++ rest) i
          obtain ⟨j₂, hvalue⟩ := hr.complete m.value m.after.written (tail F false fields last ++ rest) j₁ h.1
            m.after.isBlanks
          obtain ⟨fs, j, hread, hfs⟩ := ih h.2 (List.nodup_cons.mp once).2 _
            (lookup_cons_eq_none (a := F.content m.value) once hnew) false t j₂ ht
          refine ⟨fs, j, ?_, fun s => (hfs s).trans
            (lookup_or_cons (lookup_entriesOf_eq_none (List.nodup_cons.mp once).1) s)⟩
          rw [List.append_assoc, hmember, hvalue]
          exact hread
      | other m hname =>
          have hstops : Stops (tail F false fields last ++ rest) := Item.stops_closed_append rfl fields last rest
          obtain ⟨t, j₁, ht, hmember⟩ := readMembersFrom_other m hname hstops sofar first hn i
          obtain ⟨fs, j, hread, hfs⟩ := ih h once sofar hnew false t j₁ ht
          exact ⟨fs, j, by rw [List.append_assoc, hmember, hread], hfs⟩

/-- A front on which the reader of members stops because of `e`, whatever follows. -/
def StopsAt (r : Record α) (names : List String) (first : Bool) (e : InvalidAmount) (front : List Char) : Prop :=
  ∀ (sofar : List (String × α)) (rest : List Char) (n i : Nat),
    (∀ name ∈ names, sofar.lookup name = none) → Stops rest → front.length ≤ n →
    ∃ j, r.readMembersFrom sofar first n ⟨front ++ rest, i⟩ = .error ⟨.amount e, j⟩

/-- **The first integer that cannot be converted stops the reader**, whatever follows it. -/
theorem readMembersFrom_refuses (hr : Reads convert r.read F) {v : Int} {e : InvalidAmount}
    (h : firstBad? convert ((entriesOf F.integers fields).flatMap Prod.snd) = some v)
    (he : convert v = .error e) (once : (namesOf fields).Nodup)
    (last : Blanks) (first : Bool) :
    CutBehind v (StopsAt r (namesOf fields) first e) (tail F first fields last) := by
  induction fields generalizing first with
  | nil => cases h
  | cons x fields ih =>
      obtain ⟨lead, before, body⟩ := x
      rw [tail_cons]
      cases body with
      | known m hname =>
          have h :
              firstBad? convert (F.integers m.value ++ (entriesOf F.integers fields).flatMap Prod.snd) = some v := h
          have once : (m.name.value :: namesOf fields).Nodup := once
          rw [fieldText_known]
          cases hbad : firstBad? convert (F.integers m.value) with
          | none =>
              -- the value is read, and the integer is in one of the members behind it
              rw [firstBad?_append, hbad, Option.none_or] at h
              refine (ih h (List.nodup_cons.mp once).2 false).behind _ fun front _ _ hread => ?_
              intro sofar rest n i hnew hrest hn
              have hnew : ∀ s ∈ m.name.value :: namesOf fields, sofar.lookup s = none := hnew
              rw [List.length_append] at hn
              obtain ⟨t, j₁, ht, hmember⟩ := readMembersFrom_known lead before m hname (hnew _ List.mem_cons_self)
                first hn (front ++ rest) i
              obtain ⟨j₂, hvalue⟩ := hr.complete m.value m.after.written (front ++ rest) j₁ hbad m.after.isBlanks
              obtain ⟨j, hstop⟩ := hread _ rest t j₂
                (lookup_cons_eq_none (a := F.content m.value) once hnew) hrest ht
              refine ⟨j, ?_⟩
              rw [List.append_assoc, hmember, hvalue]
              exact hstop
          | some w =>
              -- the value itself is refused
              rw [firstBad?_append, hbad, Option.some_or] at h
              cases h
              refine ((hr.refuses m.value v e hbad he).behind _ fun front _ _ hrefuses => ?_).before
                (Item.stops_closed rfl fields last)
              intro sofar rest n i hnew hrest hn
              have hnew : ∀ s ∈ m.name.value :: namesOf fields, sofar.lookup s = none := hnew
              obtain ⟨t, j₁, -, hmember⟩ := readMembersFrom_known lead before m hname (hnew _ List.mem_cons_self)
                first (l := 0) hn rest i
              obtain ⟨j, hvalue⟩ := hrefuses m.after.written rest j₁ m.after.isBlanks hrest
              refine ⟨j, ?_⟩
              rw [hmember, hvalue]
              rfl
      | other m hname =>
          refine (ih h once false).behind _ fun front hpre hne hread => ?_
          intro sofar rest n i hnew hrest hn
          have hstops : Stops (tail F false fields last) := Item.stops_closed rfl fields last
          rw [List.length_append] at hn
          obtain ⟨t, j₁, ht, hmember⟩ := readMembersFrom_other m hname (hstops.of_prefix hpre hne rest) sofar
            first hn i
          obtain ⟨j, hstop⟩ := hread sofar rest t j₁ hnew hrest ht
          exact ⟨j, by rw [List.append_assoc, hmember, hstop]⟩

/-- **What is read is laid out**: no member that is read is repeated, and the integers can be converted. -/
theorem readMembersFrom_sound (hr : Reads convert r.read F) {fs : List (String × α)}
    (h : r.readMembersFrom sofar first n k = .ok (fs, k')) :
    ∃ (fields : List (Item (Field r.names L))) (last : Blanks),
      k.rest = tail F first fields last ++ k'.rest ∧
      firstBad? convert ((entriesOf F.integers fields).flatMap Prod.snd) = none ∧ (namesOf fields).Nodup ∧
      (∀ name ∈ namesOf fields, sofar.lookup name = none) ∧
      ∀ name, fs.lookup name = ((entriesOf F.content fields).lookup name).or (sofar.lookup name) := by
  induction n generalizing sofar first k with
  | zero => cases h
  | succ n ih =>
      rcases readMembersFrom_cases hr h with ⟨last, hk, rfl⟩ |
        ⟨lead, before, m, hname, k₁, hk, hnew, hbad, h⟩ | ⟨lead, before, m, hname, k₁, hk, h⟩
      · exact ⟨[], last, hk, rfl, List.nodup_nil, fun name h => absurd h List.not_mem_nil, fun name => rfl⟩
      · obtain ⟨fields, last, hk₁, hbads, once, hnews, hfs⟩ := ih h
        -- a member of this name behind it would have been refused
        have hfresh : m.name.value ∉ namesOf fields := fun hmem =>
          (lookup_cons_eq_none_iff _ |>.mp (hnews _ hmem)).1 rfl
        refine ⟨⟨lead, before, .known m hname⟩ :: fields, last, ?_, ?_, List.nodup_cons.mpr ⟨hfresh, once⟩, ?_, ?_⟩
        · rw [tail_cons, List.append_assoc, hk, hk₁]
        · show firstBad? convert (F.integers m.value ++ (entriesOf F.integers fields).flatMap Prod.snd) = none
          rw [firstBad?_append, hbad, hbads]
          rfl
        · exact List.forall_mem_cons.mpr ⟨hnew, fun s hs => (lookup_cons_eq_none_iff s |>.mp (hnews s hs)).2⟩
        · exact fun s => (hfs s).trans (lookup_or_cons (lookup_entriesOf_eq_none hfresh) s)
      · obtain ⟨fields, last, hk₁, hbads, once, hnews, hfs⟩ := ih h
        refine ⟨⟨lead, before, .other m hname⟩ :: fields, last, ?_, hbads, once, hnews, hfs⟩
        rw [tail_cons, List.append_assoc, hk, hk₁]

end Objects

/-! ## Lists -/

section Lists

variable {elements : List (Item L)} {names : List String} {first : Bool}

/-- The text that is left of a list. -/
abbrev listTail (F : Form L α) (first : Bool) (elements : List (Item L)) (last : Blanks) : List Char :=
  Item.closed F.text ']' first elements last

/-- What sets an element off. -/
def setting (first : Bool) (x : Item L) : List Char :=
  x.lead.written ++ (separator first ++ x.before.written)

theorem listTail_cons (F : Form L α) (first : Bool) (x : Item L) (elements : List (Item L)) (last : Blanks) :
    listTail F first (x :: elements) last =
      setting first x ++ F.text x.body ++ listTail F false elements last := by
  simp only [listTail, Item.closed_cons, Item.setOff, setting, List.append_assoc]

/-- The values of a list by name, as `g` has them. -/
abbrev valuesOf {β : Type} (g : L → β) (names : List String) (elements : List (Item L)) : List (String × β) :=
  names.zip (elements.map (g ·.body))

/-! ### One turn -/

theorem readElements_end (hb : IsBlanks b) (r : Record α) (first : Bool) (names : List String)
    (rest : List Char) (i : Nat) :
    ∃ j, r.readElements first names ⟨b ++ ']' :: rest, i⟩ = .ok ([], ⟨rest, j⟩) := by
  cases names with
  | nil =>
      obtain ⟨j, hclose⟩ := closeList_complete hb rest i
      refine ⟨j, ?_⟩
      rw [readElements, hclose]
      rfl
  | cons name names =>
      obtain ⟨j₁, hnext⟩ := nextElement_end hb first rest i
      obtain ⟨j, hclose⟩ := closeList_complete (b := []) Text.All.nil rest j₁
      rw [List.nil_append] at hclose
      refine ⟨j, ?_⟩
      rw [readElements, hnext, orRefuse_ok, ok_bind]
      dsimp only
      rw [hclose]
      rfl

/-- An element: the reader of values is next, in front of `u`, by which alone it knows that there is an element. -/
theorem readElements_element (hr : Reads convert r.read F) (first : Bool) (x : Item L) {u : List Char}
    (hu : u <+: F.text x.body) (hne : u ≠ []) (name : String) (names : List String) (rest : List Char) (i : Nat) :
    ∃ j, r.readElements first (name :: names) ⟨setting first x ++ u ++ rest, i⟩ =
      (r.read ⟨u ++ rest, j⟩ >>= fun a =>
        r.readElements false names a.2 >>= fun others => .ok ((name, a.1) :: others.1, others.2)) := by
  obtain ⟨c, t, hhead, hc⟩ := hr.head x.body
  have hfirst : Cursor.isBlank c = false ∧ c ≠ ']' := by
    rcases hc with rfl | rfl <;> exact ⟨rfl, by decide⟩
  obtain ⟨back, htext⟩ := hu
  obtain ⟨d, u, rfl⟩ := List.exists_cons_of_ne_nil hne
  obtain ⟨rfl, -⟩ := List.cons.inj (htext.trans hhead)
  obtain ⟨j, hnext⟩ := nextElement_complete x.lead.isBlanks x.before.isBlanks hfirst.1 hfirst.2 first (u ++ rest) i
  refine ⟨j, ?_⟩
  simp only [setting, List.append_assoc, List.cons_append]
  rw [readElements, hnext]
  rfl

theorem text_ne_nil (hr : Reads convert r.read F) (l : L) : F.text l ≠ [] := by
  obtain ⟨c, t, hhead, -⟩ := hr.head l
  exact hhead ▸ List.cons_ne_nil c t

/-! ### Whole lists -/

theorem readElements_complete (hr : Reads convert r.read F)
    (h : firstBad? convert ((valuesOf F.integers names elements).flatMap Prod.snd) = none)
    (fits : elements.length ≤ names.length) (last : Blanks) (first : Bool) (rest : List Char) (i : Nat) :
    ∃ j, r.readElements first names ⟨listTail F first elements last ++ rest, i⟩ =
      .ok (valuesOf F.content names elements, ⟨rest, j⟩) := by
  induction elements generalizing names first i with
  | nil =>
      obtain ⟨j, hend⟩ := readElements_end last.isBlanks r first names rest i
      refine ⟨j, ?_⟩
      rw [Item.closed_nil, hend, valuesOf, List.map_nil, List.zip_nil_right]
  | cons x elements ih =>
      cases names with
      | nil => exact absurd fits (by simp)
      | cons name names =>
          have h : firstBad? convert (F.integers x.body ++ (valuesOf F.integers names elements).flatMap Prod.snd) =
            none := h
          rw [firstBad?_append, Option.or_eq_none_iff] at h
          obtain ⟨j₁, helement⟩ := readElements_element hr first x (List.prefix_refl _) (text_ne_nil hr x.body) name
            names (listTail F false elements last ++ rest) i
          obtain ⟨j₂, hvalue⟩ := hr.complete x.body [] (listTail F false elements last ++ rest) j₁ h.1 Text.All.nil
          obtain ⟨j, hread⟩ := ih h.2 (Nat.le_of_succ_le_succ fits) false j₂
          refine ⟨j, ?_⟩
          rw [List.nil_append] at hvalue
          rw [listTail_cons, List.append_assoc, helement, hvalue, ok_bind, hread]
          rfl

theorem readElements_refuses (hr : Reads convert r.read F) {v : Int} {e : InvalidAmount}
    (h : firstBad? convert ((valuesOf F.integers names elements).flatMap Prod.snd) = some v)
    (he : convert v = .error e) (fits : elements.length ≤ names.length) (last : Blanks) (first : Bool) :
    CutBehind v (fun front => ∀ (rest : List Char) (i : Nat), Stops rest →
        ∃ j, r.readElements first names ⟨front ++ rest, i⟩ = .error ⟨.amount e, j⟩)
      (listTail F first elements last) := by
  induction elements generalizing names first with
  | nil =>
      rw [valuesOf, List.map_nil, List.zip_nil_right] at h
      cases h
  | cons x elements ih =>
      cases names with
      | nil => exact absurd fits (by simp)
      | cons name names =>
          have h : firstBad? convert (F.integers x.body ++ (valuesOf F.integers names elements).flatMap Prod.snd) =
            some v := h
          rw [listTail_cons]
          cases hbad : firstBad? convert (F.integers x.body) with
          | none =>
              -- the value is read, and the integer is in one of the elements behind it
              rw [firstBad?_append, hbad, Option.none_or] at h
              refine (ih h (Nat.le_of_succ_le_succ fits) false).behind _ fun front _ _ hread rest i hrest => ?_
              obtain ⟨j₁, helement⟩ := readElements_element hr first x (List.prefix_refl _) (text_ne_nil hr x.body)
                name names (front ++ rest) i
              obtain ⟨j₂, hvalue⟩ := hr.complete x.body [] (front ++ rest) j₁ hbad Text.All.nil
              obtain ⟨j, hstop⟩ := hread rest j₂ hrest
              refine ⟨j, ?_⟩
              rw [List.nil_append] at hvalue
              rw [List.append_assoc, helement, hvalue, ok_bind, hstop]
              rfl
          | some w =>
              -- the value itself is refused
              rw [firstBad?_append, hbad, Option.some_or] at h
              cases h
              refine ((hr.refuses x.body v e hbad he).behind _ fun front hpre hne hrefuses => ?_).before
                (Item.stops_closed rfl elements last)
              intro rest i hrest
              obtain ⟨j₁, helement⟩ := readElements_element hr first x hpre hne name names rest i
              obtain ⟨j, hvalue⟩ := hrefuses [] rest j₁ Text.All.nil hrest
              refine ⟨j, ?_⟩
              rw [List.nil_append] at hvalue
              rw [helement, hvalue]
              rfl

theorem readElements_sound (hr : Reads convert r.read F) {fs : List (String × α)}
    (h : r.readElements first names k = .ok (fs, k')) :
    ∃ (elements : List (Item L)) (last : Blanks), k.rest = listTail F first elements last ++ k'.rest ∧
      elements.length ≤ names.length ∧
      firstBad? convert ((valuesOf F.integers names elements).flatMap Prod.snd) = none ∧
      fs = valuesOf F.content names elements := by
  induction names generalizing first k fs with
  | nil =>
      obtain ⟨k₁, hclose, ⟨⟩⟩ := bind_eq_ok.mp h
      obtain ⟨b, hk, hb⟩ := closeList_sound (ok_of_orRefuse hclose)
      refine ⟨[], ⟨b, hb⟩, ?_, Nat.le_refl _, rfl, rfl⟩
      rw [Item.closed_nil, hk]
  | cons name names ih =>
      rw [readElements] at h
      obtain ⟨⟨more, k₁⟩, hnext, h⟩ := bind_eq_ok.mp h
      rcases nextElement_sound (ok_of_orRefuse hnext) with ⟨b, hk, hb, rfl⟩ | ⟨b, b', hk, hb, hb', rfl⟩
      · obtain ⟨k₂, hclose, ⟨⟩⟩ := bind_eq_ok.mp h
        obtain ⟨b', hk₁, hb'⟩ := closeList_sound (ok_of_orRefuse hclose)
        refine ⟨[], ⟨b ++ b', All.append hb hb'⟩, ?_, Nat.zero_le _, rfl, rfl⟩
        rw [Item.closed_nil, hk, hk₁, List.append_assoc]
      · obtain ⟨⟨a, k₂⟩, hvalue, h⟩ := bind_eq_ok.mp h
        obtain ⟨⟨others, k₃⟩, hothers, ⟨⟩⟩ := bind_eq_ok.mp h
        obtain ⟨b'', l, hb'', hk₁, hbad, rfl⟩ := hr.sound hvalue
        obtain ⟨elements, last, hk₂, hfits, hbads, rfl⟩ := ih hothers
        refine ⟨⟨⟨b, hb⟩, ⟨b' ++ b'', All.append hb' hb''⟩, l⟩ :: elements, last, ?_,
          Nat.succ_le_succ hfits, ?_, rfl⟩
        · rw [listTail_cons, hk, hk₁, hk₂]
          simp only [setting, List.append_assoc]
        · show firstBad? convert (F.integers l ++ (valuesOf F.integers names elements).flatMap Prod.snd) = none
          rw [firstBad?_append, hbad, hbads]
          rfl

end Lists

/-! ## Records -/

/-- The reader of a record comes to its members or to its elements. -/
theorem readFields_bracket (hb : IsBlanks b) (r : Record α) (rest : List Char) (i : Nat) :
    (∃ j, r.readFields ⟨b ++ '\x7b' :: rest, i⟩ = r.readMembersFrom [] true rest.length ⟨rest, j⟩) ∧
      ∃ j, r.readFields ⟨b ++ '[' :: rest, i⟩ = r.readElements true r.names ⟨rest, j⟩ := by
  constructor
  · obtain ⟨j, hvalue⟩ := toValue_complete (c := '\x7b') hb rfl rest i
    refine ⟨j + '\x7b'.utf8Size, ?_⟩
    rw [readFields, hvalue, ok_bind]
    rfl
  · obtain ⟨j, hvalue⟩ := toValue_complete (c := '[') hb rfl rest i
    refine ⟨j + '['.utf8Size, ?_⟩
    rw [readFields, hvalue, ok_bind]
    rfl

/-- **A record whose integers can be converted is read**, each name with the content of its value. -/
theorem readFields_complete (hr : Reads convert r.read F) (d : RecordLayout r.names L)
    (h : firstBad? convert (d.integers F.integers) = none) (hb : IsBlanks b) (rest : List Char) (i : Nat) :
    ∃ fs j, r.readFields ⟨b ++ (d.text F.text ++ rest), i⟩ = .ok (fs, ⟨rest, j⟩) ∧
      ∀ name, fs.lookup name = (d.value? name).map F.content := by
  simp only [← RecordLayout.lookup_entries]
  cases d with
  | object fields last once =>
      obtain ⟨j₁, hbracket⟩ := (readFields_bracket hb r (tail F true fields last ++ rest) i).1
      obtain ⟨fs, j, hread, hfs⟩ := readMembersFrom_complete hr h once last [] (fun _ _ => rfl)
        true rest (tail F true fields last ++ rest).length j₁ (List.prefix_append _ _).length_le
      exact ⟨fs, j, hbracket.trans hread, fun name => (hfs name).trans (Option.or_none)⟩
  | list elements last fits =>
      obtain ⟨j₁, hbracket⟩ := (readFields_bracket hb r (listTail F true elements last ++ rest) i).2
      obtain ⟨j, hread⟩ := readElements_complete hr h fits last true rest j₁
      exact ⟨_, j, hbracket.trans hread, fun name => rfl⟩

/-- **A record is refused for its first integer that cannot be converted.** -/
theorem readFields_refuses (hr : Reads convert r.read F) (d : RecordLayout r.names L) {v : Int} {e : InvalidAmount}
    (h : firstBad? convert (d.integers F.integers) = some v) (he : convert v = .error e) :
    CutBehind v (Refuses r.readFields e) (d.text F.text) := by
  cases d with
  | object fields last once =>
      refine (readMembersFrom_refuses hr h he once last true).behind ['\x7b'] fun front _ _ hread => ?_
      intro b rest i hb hrest
      obtain ⟨j₁, hbracket⟩ := (readFields_bracket hb r (front ++ rest) i).1
      obtain ⟨j, hstop⟩ := hread [] rest (front ++ rest).length j₁ (fun _ _ => rfl) hrest
        (List.prefix_append _ _).length_le
      exact ⟨j, hbracket.trans hstop⟩
  | list elements last fits =>
      refine (readElements_refuses hr h he fits last true).behind ['['] fun front _ _ hread => ?_
      intro b rest i hb hrest
      obtain ⟨j₁, hbracket⟩ := (readFields_bracket hb r (front ++ rest) i).2
      obtain ⟨j, hstop⟩ := hread rest j₁ hrest
      exact ⟨j, hbracket.trans hstop⟩

/-- **What is read as a record is laid out as one**, and its integers can be converted. -/
theorem readFields_sound (hr : Reads convert r.read F) {fs : List (String × α)} (h : r.readFields k = .ok (fs, k')) :
    ∃ (b : List Char) (d : RecordLayout r.names L), IsBlanks b ∧ k.rest = b ++ (d.text F.text ++ k'.rest) ∧
      firstBad? convert (d.integers F.integers) = none ∧ ∀ name, fs.lookup name = (d.value? name).map F.content := by
  simp only [← RecordLayout.lookup_entries]
  obtain ⟨⟨c, k₁⟩, hvalue, h⟩ := bind_eq_ok.mp h
  obtain ⟨b, hb, hk, hpeek⟩ := toValue_sound hvalue
  dsimp only at h
  split at h
  · next hc =>
      obtain ⟨fields, last, hk₁, hbad, once, -, hfs⟩ := readMembersFrom_sound hr h
      refine ⟨b, .object fields last once, hb, ?_, hbad, fun name => (hfs name).trans Option.or_none⟩
      rw [hk, rest_of_peek? hpeek, hc, hk₁]
      rfl
  · split at h
    · next hc =>
        obtain ⟨elements, last, hk₁, fits, hbad, rfl⟩ := readElements_sound hr h
        refine ⟨b, .list elements last fits, hb, ?_, hbad, fun name => rfl⟩
        rw [hk, rest_of_peek? hpeek, hc, hk₁]
        rfl
    · exact absurd h refuseType_ne_ok

end Record
end PresetFile
end ScriptSpacing
