import ScriptSpacing.Proofs.Json.Layout
import ScriptSpacing.Proofs.Spacing.Overriding
import ScriptSpacing.Spacing.PresetFile

/-!
# `Proofs.Spacing.PresetLayout` — preset files as they are laid out

The texts of the right shape, as trees: amounts by name (`AmountsLayout`), records of them whose other members hold
anything (`RecordLayout`), and the file around them. A tree has its text, the integers in it in the order in which
they are read, and what it means when all of them can be converted to amounts. These three make a `Form`. What a
reader of preset files must do is said in terms of these trees (`Reader.Lawful`).

The meaning goes by the names of members alone, so members of other names can be put in anywhere
(`RecordLayout.Extends`).
-/

namespace ScriptSpacing
namespace PresetFile
open Json

/-! ## Integers -/

/-- What an integer is converted to, if it can be. -/
def amountBy (convert : Conversion) (v : Int) : Amount := (convert v).toOption.getD .preserve

/-- The first integer that cannot be converted. -/
def firstBad? (convert : Conversion) (vs : List Int) : Option Int :=
  vs.find? fun v => (convert v).toOption.isNone

section Integers

variable {convert : Conversion} {v : Int} {vs ws : List Int} {a : Amount} {e : InvalidAmount}

theorem amountBy_of_ok (h : convert v = .ok a) : amountBy convert v = a := by
  rw [amountBy, h]
  rfl

theorem firstBad?_append : firstBad? convert (vs ++ ws) = (firstBad? convert vs).or (firstBad? convert ws) :=
  List.find?_append

theorem firstBad?_cons_of_ok (h : convert v = .ok a) : firstBad? convert (v :: vs) = firstBad? convert vs := by
  simp [firstBad?, h, Except.toOption]

theorem firstBad?_cons_of_error (h : convert v = .error e) : firstBad? convert (v :: vs) = some v := by
  simp [firstBad?, h, Except.toOption]

theorem firstBad?_eq_none_iff : firstBad? convert vs = none ↔ ∀ v ∈ vs, ∃ a, convert v = .ok a := by
  rw [firstBad?, List.find?_eq_none]
  refine forall₂_congr fun v _ => ?_
  cases convert v <;> simp [Except.toOption]

/-- It is the first behind integers that can be converted. -/
theorem firstBad?_of_split (hgood : ∀ w ∈ vs, ∃ a, convert w = .ok a) (h : convert v = .error e) (ws : List Int) :
    firstBad? convert (vs ++ v :: ws) = some v := by
  rw [firstBad?_append, firstBad?_eq_none_iff.mpr hgood, firstBad?_cons_of_error h, Option.none_or]

end Integers

/-! ## Forms -/

theorem lookup_map_snd {β γ : Type} (g : β → γ) (l : List (String × β)) (name : String) :
    (l.map fun e => (e.1, g e.2)).lookup name = (l.lookup name).map g := by
  induction l with
  | nil => rfl
  | cons e l ih =>
      rw [List.map_cons, Amounts.lookup_cons, Amounts.lookup_cons, ih]
      split <;> rfl

theorem mem_of_lookup {β : Type} {l : List (String × β)} {name : String} {b : β} (h : l.lookup name = some b) :
    (name, b) ∈ l := by
  obtain ⟨front, back, hl, -⟩ := List.lookup_eq_some_iff.mp h
  rw [hl]
  simp

/-- How the values of a kind are laid out and what they mean. -/
structure Form (L α : Type) where
  text     : L → List Char
  /-- the integers, in the order in which they are read -/
  integers : L → List Int
  /-- the meaning, when all the integers can be converted -/
  content  : L → α

/-- Amounts by name. -/
structure AmountsLayout where
  members : List (Item (Member Numeral))
  last    : Blanks

namespace AmountsLayout

/-- The integers by name. -/
def entries (d : AmountsLayout) : List (String × Int) :=
  d.members.map fun x => (x.body.name.value, x.body.value.value)

/-- The integers, in the order in which they are read. -/
def integers (d : AmountsLayout) : List Int := d.entries.map Prod.snd

/-- **The integer of a name**: of members of one name, the last counts. -/
def integer? (d : AmountsLayout) (name : String) : Option Int := d.entries.reverse.lookup name

/-- The text of amounts by name. -/
def text (d : AmountsLayout) : List Char :=
  '\x7b' :: (Item.joined (Member.text Numeral.written) true d.members ++ (d.last.written ++ ['\x7d']))

/-- The form of amounts by name. -/
def form (convert : Conversion) : Form AmountsLayout Amounts where
  text     := text
  integers := integers
  content d := d.entries.foldl (fun m e => m.insert e.1 (amountBy convert e.2)) .empty

theorem content_eq_foldl (convert : Conversion) (d : AmountsLayout) :
    (form convert).content d =
      (d.entries.map fun e => (e.1, amountBy convert e.2)).foldl (fun m e => m.insert e.1 e.2) .empty := by
  rw [List.foldl_map]
  rfl

/-- **The amounts that are read are those of the last members of their names.** -/
theorem get?_content (convert : Conversion) (d : AmountsLayout) (name : String) :
    ((form convert).content d).get? name = (d.integer? name).map (amountBy convert) := by
  rw [content_eq_foldl, Amounts.get?_foldl_insert, ← List.map_reverse, lookup_map_snd, integer?]
  exact Option.or_none

theorem distinct_content (convert : Conversion) (d : AmountsLayout) : ((form convert).content d).Distinct := by
  rw [content_eq_foldl]
  exact Amounts.distinct_empty.foldl_insert _

theorem integer?_mem {d : AmountsLayout} {name : String} {v : Int} (h : d.integer? name = some v) :
    v ∈ d.integers :=
  List.mem_map.mpr ⟨(name, v), List.mem_reverse.mp (mem_of_lookup h), rfl⟩

end AmountsLayout

/-- A member of a record, which is read, or one of another name, which holds anything. -/
inductive Field (names : List String) (L : Type) where
  | known (m : Member L) (hname : m.name.value ∈ names)
  | other (m : Member AnyValue) (hname : m.name.value ∉ names)

namespace Field
variable {names : List String} {L β : Type}

/-- The text of a member, if values are written as `text` says. -/
def text (text : L → List Char) : Field names L → List Char
  | known m _ => m.text text
  | other m _ => m.text AnyValue.written

/-- The name of a member that is read. -/
def name? : Field names L → Option String
  | known m _ => some m.name.value
  | other _ _ => none

/-- A member that is read: its name, and what `g` makes of its value. -/
def binding? (g : L → β) : Field names L → Option (String × β)
  | known m _ => some (m.name.value, g m.value)
  | other _ _ => none

end Field

/-- A record: an object in which no member that is read is repeated, or a list of values for the first of the
    names. -/
inductive RecordLayout (names : List String) (L : Type) where
  | object (fields : List (Item (Field names L))) (last : Blanks)
      (once : (fields.filterMap (·.body.name?)).Nodup)
  | list (elements : List (Item L)) (last : Blanks) (fits : elements.length ≤ names.length)

namespace RecordLayout
variable {names : List String} {L α β : Type}

/-- The values by name, as `g` has them. -/
def entries (g : L → β) : RecordLayout names L → List (String × β)
  | object fields _ _ => fields.filterMap (·.body.binding? g)
  | list elements _ _ => names.zip (elements.map (g ·.body))

/-- The value of a name. -/
def value? (d : RecordLayout names L) (name : String) : Option L := (d.entries id).lookup name

/-- The text of a record, if values are written as `text` says. -/
def text (text : L → List Char) : RecordLayout names L → List Char
  | object fields last _ => '\x7b' :: (Item.joined (Field.text text) true fields ++ (last.written ++ ['\x7d']))
  | list elements last _ => '[' :: (Item.joined text true elements ++ (last.written ++ [']']))

/-- The integers of a record. -/
def integers (integers : L → List Int) (d : RecordLayout names L) : List Int :=
  (d.entries integers).flatMap Prod.snd

theorem entries_eq_map (g : L → β) (d : RecordLayout names L) :
    d.entries g = (d.entries id).map fun e => (e.1, g e.2) := by
  cases d with
  | object fields last once =>
      rw [entries, entries, List.map_filterMap]
      refine List.filterMap_congr fun x _ => ?_
      cases x.body <;> rfl
  | list elements last fits =>
      rw [entries, entries, List.zip_map_right, List.zip_map_right, List.map_map]
      rfl

theorem lookup_entries (g : L → β) (d : RecordLayout names L) (name : String) :
    (d.entries g).lookup name = (d.value? name).map g := by
  rw [entries_eq_map, lookup_map_snd, value?]

/-- The integers of a value are among those of its record. -/
theorem integers_subset {f : L → List Int} {d : RecordLayout names L} {name : String} {l : L}
    (h : d.value? name = some l) : f l ⊆ d.integers f := by
  intro v hv
  have hmem : (name, f l) ∈ d.entries f := mem_of_lookup (by rw [lookup_entries, h]; rfl)
  exact List.mem_flatMap.mpr ⟨_, hmem, hv⟩

/-- A layout with one more member of another name, or with a value in place of one that it extends. -/
inductive Extends (R : L → L → Prop) : RecordLayout names L → RecordLayout names L → Prop where
  | insert {fs gs : List (Item (Field names L))} {x : Item (Field names L)} {last : Blanks}
      {once : ((fs ++ gs).filterMap (·.body.name?)).Nodup}
      {once' : ((fs ++ x :: gs).filterMap (·.body.name?)).Nodup} (hx : x.body.name? = none) :
      Extends R (object (fs ++ gs) last once) (object (fs ++ x :: gs) last once')
  | field {fs gs : List (Item (Field names L))} {lead before last : Blanks} {m : Member L} {l : L}
      {hname : m.name.value ∈ names}
      {once : ((fs ++ ⟨lead, before, .known m hname⟩ :: gs).filterMap (·.body.name?)).Nodup}
      {once' : ((fs ++ ⟨lead, before, .known { m with value := l } hname⟩ :: gs).filterMap
        (·.body.name?)).Nodup} (hl : R m.value l) :
      Extends R (object (fs ++ ⟨lead, before, .known m hname⟩ :: gs) last once)
        (object (fs ++ ⟨lead, before, .known { m with value := l } hname⟩ :: gs) last once')
  | element {xs ys : List (Item L)} {lead before last : Blanks} {l l' : L}
      {fits : (xs ++ ⟨lead, before, l⟩ :: ys).length ≤ names.length}
      {fits' : (xs ++ ⟨lead, before, l'⟩ :: ys).length ≤ names.length} (hl : R l l') :
      Extends R (list (xs ++ ⟨lead, before, l⟩ :: ys) last fits)
        (list (xs ++ ⟨lead, before, l'⟩ :: ys) last fits')

theorem Extends.insert_first {R : L → L → Prop} {fields : List (Item (Field names L))} {x : Item (Field names L)}
    {last : Blanks} {once : (fields.filterMap (·.body.name?)).Nodup}
    {once' : ((x :: fields).filterMap (·.body.name?)).Nodup} (hx : x.body.name? = none) :
    Extends R (object fields last once) (object (x :: fields) last once') :=
  @insert names L R [] fields x last once once' hx

/-- **What is made of a record goes by the names that are read.** -/
theorem Extends.entries_eq {R : L → L → Prop} {d d' : RecordLayout names L} (h : d.Extends R d')
    {g : L → β} (hR : ∀ l l', R l l' → g l' = g l) : d'.entries g = d.entries g := by
  cases h with
  | @insert fs gs x _ _ _ hx =>
      have hnone : x.body.binding? g = none := by
        cases hbody : x.body with
        | known m hname =>
            rw [hbody] at hx
            cases hx
        | other m hname => rfl
      simp only [entries, List.filterMap_append, List.filterMap_cons, hnone]
  | field hl => simp only [entries, List.filterMap_append, List.filterMap_cons, Field.binding?, hR _ _ hl]
  | element hl => simp only [entries, List.map_append, List.map_cons, hR _ _ hl]

end RecordLayout

/-! ## Files -/

/-- The amounts of both sides. -/
abbrev SidesLayout : Type := RecordLayout sideNames AmountsLayout

namespace SidesLayout

/-- The form of the amounts of both sides. -/
def form (convert : Conversion) : Form SidesLayout Preset where
  text d     := d.text AmountsLayout.text
  integers d := d.integers AmountsLayout.integers
  content d  :=
    ⟨((d.value? Side.before.name).map (AmountsLayout.form convert).content).getD .empty,
      ((d.value? Side.after.name).map (AmountsLayout.form convert).content).getD .empty⟩

end SidesLayout

/-- A whole file. -/
structure FileLayout where
  before : Blanks
  record : RecordLayout fileNames SidesLayout
  after  : Blanks

namespace FileLayout

/-- The text of a file. -/
def text (d : FileLayout) : String :=
  String.ofList (d.before.written ++ (d.record.text (·.text AmountsLayout.text) ++ d.after.written))

/-- The integers that stand for amounts, in the order in which they are read. -/
def integers (d : FileLayout) : List Int := d.record.integers (·.integers AmountsLayout.integers)

/-- The amounts of one side. -/
def side? (d : FileLayout) (s : Side) : Option AmountsLayout :=
  (d.record.value? amountsName).bind (·.value? s.name)

/-- The integer that a file gives to a name on one side. -/
def integer? (d : FileLayout) (s : Side) (name : String) : Option Int := (d.side? s).bind (·.integer? name)

variable {d d' : FileLayout} {convert : Conversion}

theorem integer?_mem {s : Side} {name : String} {v : Int} (h : d.integer? s name = some v) : v ∈ d.integers := by
  obtain ⟨amounts, hside, hv⟩ := Option.bind_eq_some_iff.mp h
  obtain ⟨sides, hrecord, hamounts⟩ := Option.bind_eq_some_iff.mp hside
  exact RecordLayout.integers_subset hrecord
    (RecordLayout.integers_subset (f := AmountsLayout.integers) hamounts (AmountsLayout.integer?_mem hv))

/-- The amounts of a file. -/
def content (convert : Conversion) (d : FileLayout) : Preset :=
  ((d.record.value? amountsName).map (SidesLayout.form convert).content).getD .empty

theorem get?_content (convert : Conversion) (d : FileLayout) (s : Side) (name : String) :
    ((d.content convert).side s).get? name = (d.integer? s name).map (amountBy convert) := by
  unfold content integer? side?
  cases d.record.value? amountsName with
  | none => cases s <;> rfl
  | some sides =>
      have hside (s : Side) :
          (((sides.value? s.name).map (AmountsLayout.form convert).content).getD .empty).get? name =
            ((sides.value? s.name).bind (·.integer? name)).map (amountBy convert) := by
        cases sides.value? s.name with
        | none => rfl
        | some amounts => exact amounts.get?_content convert name
      cases s with
      | before => exact hside .before
      | after => exact hside .after

/-- Where all integers can be converted, each name has what its integer is converted to. -/
theorem get?_content_of_converts (h : ∀ v ∈ d.integers, ∃ a, convert v = .ok a) (s : Side) (name : String) :
    ((d.content convert).side s).get? name = (d.integer? s name).bind fun v => (convert v).toOption := by
  rw [get?_content]
  cases hv : d.integer? s name with
  | none => rfl
  | some v =>
      obtain ⟨a, ha⟩ := h v (integer?_mem hv)
      rw [Option.map_some, Option.bind_some, amountBy_of_ok ha, ha]
      rfl

theorem distinct_content (convert : Conversion) (d : FileLayout) : (d.content convert).Distinct := by
  have hside (o : Option AmountsLayout) : ((o.map (AmountsLayout.form convert).content).getD .empty).Distinct := by
    cases o with
    | none => exact Amounts.distinct_empty
    | some amounts => exact amounts.distinct_content convert
  intro s
  unfold content
  cases d.record.value? amountsName with
  | none => cases s <;> exact Amounts.distinct_empty
  | some sides => cases s <;> exact hside _

/-- The same file with members of other names put in, at the top or among the sides. -/
def Extends (d d' : FileLayout) : Prop :=
  d'.before = d.before ∧ d'.after = d.after ∧
    d.record.Extends (RecordLayout.Extends fun _ _ => False) d'.record

theorem Extends.integers_eq (h : d.Extends d') : d'.integers = d.integers := by
  have hsides (l l' : SidesLayout) (hl : l.Extends (fun _ _ => False) l') :
      l'.integers AmountsLayout.integers = l.integers AmountsLayout.integers :=
    congrArg (List.flatMap Prod.snd) (hl.entries_eq fun _ _ => False.elim)
  exact congrArg (List.flatMap Prod.snd) (h.2.2.entries_eq hsides)

theorem Extends.integer?_eq (h : d.Extends d') : d'.integer? = d.integer? := by
  have hvalue (l l' : SidesLayout) (hl : l.Extends (fun _ _ => False) l') : l'.value? = l.value? :=
    funext fun name => congrArg (List.lookup name) (hl.entries_eq fun _ _ => False.elim)
  have hside (s : Side) : d'.side? s = d.side? s := by
    have hrecord := congrArg (fun es => (es.lookup amountsName).bind id)
      (h.2.2.entries_eq (g := fun l => l.value? s.name) fun l l' hl => congrFun (hvalue l l' hl) s.name)
    rwa [RecordLayout.lookup_entries, RecordLayout.lookup_entries, Option.bind_map, Option.bind_map] at hrecord
  funext s name
  rw [integer?, integer?, hside]

end FileLayout

/-! ## Readers -/

/-- A text that ends with a numeral of `v`. -/
def EndsWith (v : Int) (front : List Char) : Prop := ∃ t, ∃ x : Numeral, front = t ++ x.written ∧ x.value = v

/-- **What is relied on of a reader**, whatever it is told to make of integers. -/
structure Reader.Lawful (reader : Reader) : Prop where
  /-- the amounts of a side are a map: it holds a name once -/
  distinct : ∀ {convert text q}, reader convert text = .ok q → q.Distinct
  /-- what is read is a file, and its integers could all be converted -/
  sound : ∀ {convert text q}, reader convert text = .ok q →
    ∃ d : FileLayout, d.text = text ∧ ∀ v ∈ d.integers, ∃ a, convert v = .ok a
  /-- a file whose integers can be converted is read: a member of the file or of a side may be missing, those of other
      names are passed over, and under each name a side holds what the last integer of the name is converted to -/
  complete : ∀ {convert} (d : FileLayout), (∀ v ∈ d.integers, ∃ a, convert v = .ok a) →
    ∃ q, reader convert d.text = .ok q ∧
      ∀ s name, (q.side s).get? name = (d.integer? s name).bind fun v => (convert v).toOption
  /-- reading stops behind the first integer that cannot be converted, for the reason that the conversion gives, and
      without a look at what follows -/
  refuses : ∀ {convert} (d : FileLayout) {good bad : List Int} {v : Int} {e : InvalidAmount},
    d.integers = good ++ v :: bad → (∀ w ∈ good, ∃ a, convert w = .ok a) → convert v = .error e →
    ∃ front back, d.text = String.ofList (front ++ back) ∧ EndsWith v front ∧ Stops back ∧
      ∀ rest, Stops rest → ∃ r, reader convert (String.ofList (front ++ rest)) = .error r ∧ r.cause = .amount e

end PresetFile
end ScriptSpacing
