import Mathlib.Logic.Relation
import ScriptSpacing.Proofs.Spacing.Lawful

/-!
# `Proofs.Spacing.Layered` — what a preset file says, over the standard preset

A file is read as its layout says or not at all, whatever lawful reader reads it. If all its integers are amounts, each
name has the amount of the file, and otherwise that of the standard preset; members that nobody reads make no
difference, wherever they stand. The first integer that is no amount refuses the whole file, whatever follows it. Every
preset has a text, and reading that gives the preset over the standard one (`load_layered`).
-/

namespace ScriptSpacing
namespace PresetFile
open Json

/-! ## Integers as amounts -/

/-- Whether an integer is an amount. -/
def IsAmount (v : Int) : Prop := -1 ≤ v ∧ v ≤ 255

instance (v : Int) : Decidable (IsAmount v) := inferInstanceAs (Decidable (-1 ≤ v ∧ v ≤ 255))

/-- The amount that an integer is, if it is one. -/
def amountOf (v : Int) : Amount := if v = -1 then .preserve else .exact v.toNat.toUInt8

variable {v : Int}

theorem ofInt_of_isAmount (h : IsAmount v) : Amount.ofInt v = .ok (amountOf v) := by
  obtain ⟨hlow, hhigh⟩ := h
  unfold Amount.ofInt amountOf
  split
  · rfl
  · next hv => rw [if_pos (by omega)]

theorem ofInt_of_not_isAmount (h : ¬ IsAmount v) : Amount.ofInt v = .error ⟨v⟩ :=
  Amount.ofInt_eq_error_iff.mpr ⟨by unfold IsAmount at h; omega, rfl⟩

/-- The integers that are converted to amounts. -/
theorem isAmount_iff : IsAmount v ↔ ∃ a, Amount.ofInt v = .ok a := by
  refine ⟨fun h => ⟨_, ofInt_of_isAmount h⟩, fun ⟨a, ha⟩ => ?_⟩
  by_contra h
  cases (ofInt_of_not_isAmount h).symm.trans ha

theorem amountOf_toInt (a : Amount) : IsAmount a.toInt ∧ amountOf a.toInt = a := by
  have hbounds : IsAmount a.toInt := isAmount_iff.mpr ⟨a, Amount.ofInt_toInt a⟩
  have hof := ofInt_of_isAmount hbounds
  rw [Amount.ofInt_toInt] at hof
  exact ⟨hbounds, (Except.ok.inj hof).symm⟩

/-! ## Files over the standard preset -/

namespace FileLayout

/-- **The amount that a file gives to a name on one side**: of members of one name, the last counts. -/
def amount? (d : FileLayout) (s : Side) (name : String) : Option Amount := (d.integer? s name).map amountOf

variable {d : FileLayout}

/-- Where all integers are amounts, each name has what its integer is converted to. -/
theorem amount?_eq (h : ∀ v ∈ d.integers, IsAmount v) (s : Side) (name : String) :
    d.amount? s name = (d.integer? s name).bind fun v => (Amount.ofInt v).toOption := by
  rw [amount?]
  cases hv : d.integer? s name with
  | none => rfl
  | some v =>
      rw [Option.map_some, Option.bind_some, ofInt_of_isAmount (h v (integer?_mem hv))]
      rfl

end FileLayout

section Lawful

variable {reader : Reader} {text : String} {p q : Preset} {d : FileLayout}

/-- What was read is laid over the standard preset. -/
theorem load_eq_ok_iff : load reader text = .ok p ↔
    ∃ q, reader Amount.ofInt text = .ok q ∧ Preset.standard.overriddenBy q = p := by
  rw [load]
  cases reader Amount.ofInt text with
  | error r => simp [Except.map]
  | ok q => simp [Except.map]

/-- **A map that was read overrides the standard one**, name by name, -/
theorem Reader.Lawful.get?_overriddenBy (hr : reader.Lawful) (h : reader Amount.ofInt text = .ok q) (s : Side)
    (name : String) : ((Preset.standard.overriddenBy q).side s).get? name =
      ((q.side s).get? name).or ((Preset.standard.side s).get? name) :=
  Preset.get?_side_overriddenBy (hr.distinct h) Preset.standard s name

/-- and rule by rule. -/
theorem Reader.Lawful.amount_overriddenBy (hr : reader.Lawful) (h : reader Amount.ofInt text = .ok q) (s : Side)
    (r : Rule) : (Preset.standard.overriddenBy q).amount s r = ((q.side s).get? r.name).getD
      (if s = .after ∧ r = .openingParenthesis ∨ s = .before ∧ r = .closingParenthesis then .exact 0
        else .preserve) := by
  rw [← Preset.amount_standard, Preset.amount, hr.get?_overriddenBy h, Preset.amount]
  cases (q.side s).get? r.name <;> rfl

/-- **A file whose integers are amounts is read as its layout says.** -/
theorem Reader.Lawful.read (hr : reader.Lawful) (h : ∀ v ∈ d.integers, IsAmount v) :
    ∃ q, reader Amount.ofInt d.text = .ok q ∧ ∀ s name, (q.side s).get? name = d.amount? s name := by
  obtain ⟨q, hq, hget⟩ := hr.complete d fun v hv => isAmount_iff.mp (h v hv)
  exact ⟨q, hq, fun s name => (hget s name).trans (FileLayout.amount?_eq h s name).symm⟩

/-- **The first integer that is no amount refuses the file**, whatever follows it. -/
theorem Reader.Lawful.load_refuses (hr : reader.Lawful) {good bad : List Int} {v : Int}
    (hd : d.integers = good ++ v :: bad) (hgood : ∀ w ∈ good, IsAmount w) (hv : ¬ IsAmount v) :
    ∃ front back, d.text = String.ofList (front ++ back) ∧ EndsWith v front ∧ Stops back ∧
      ∀ rest, Stops rest → ∃ r, load reader (String.ofList (front ++ rest)) = .error r ∧ r.cause = .amount ⟨v⟩ := by
  obtain ⟨front, back, htext, hfront, hback, hread⟩ :=
    hr.refuses d hd (fun w hw => isAmount_iff.mp (hgood w hw)) (ofInt_of_not_isAmount hv)
  refine ⟨front, back, htext, hfront, hback, fun rest hrest => ?_⟩
  obtain ⟨r, hstop, hcause⟩ := hread rest hrest
  exact ⟨r, by rw [load, hstop]; rfl, hcause⟩

end Lawful

/-! ## Writing a preset -/

/-- The numeral of an amount. -/
def numeralOf (a : Amount) : Numeral where
  written   := (toString a.toInt).toList
  value     := a.toInt
  isInteger := by
    obtain ⟨⟨hlow, hhigh⟩, -⟩ := amountOf_toInt a
    have hsign : (255 : Int) < signLimit := by decide
    exact isInteger_toString (by omega) (by omega)

/-- A member without whitespace. -/
def memberOf {α : Type} (name : String) (value : α) : Member α := ⟨.ofString name, .none, .none, value⟩

namespace AmountsLayout

/-- Integers by name, without whitespace. -/
def ofEntries (es : List (String × Numeral)) : AmountsLayout :=
  ⟨es.map fun e => ⟨.none, .none, memberOf e.1 e.2⟩, .none⟩

/-- The layout of a map. -/
def ofAmounts (m : Amounts) : AmountsLayout := ofEntries (m.entries.map fun e => (e.1, numeralOf e.2))

theorem entries_ofAmounts (m : Amounts) :
    (ofAmounts m).entries = m.entries.map fun e => (e.1, e.2.toInt) := by
  simp only [entries, ofAmounts, ofEntries, List.map_map]
  rfl

/-- **A name has the integer of its amount.** -/
theorem integer?_ofAmounts {m : Amounts} (h : m.Distinct) (name : String) :
    (ofAmounts m).integer? name = (m.get? name).map Amount.toInt := by
  rw [integer?, entries_ofAmounts, ← List.map_reverse, lookup_map_snd, Amounts.lookup_reverse h, Amounts.get?]

theorem isAmount_ofAmounts (m : Amounts) : ∀ v ∈ (ofAmounts m).integers, IsAmount v := by
  rw [integers, entries_ofAmounts, List.map_map, List.forall_mem_map]
  exact fun e _ => (amountOf_toInt e.2).1

end AmountsLayout

namespace FileLayout

theorem name_mem_sides (s : Side) : s.name ∈ sideNames := by cases s <;> decide

theorem nodup_sides : [Side.before.name, Side.after.name].Nodup := by decide

/-- A file with amounts for both sides, without whitespace. -/
def ofSides (before after : AmountsLayout) : FileLayout where
  before := .none
  record := .object
    [⟨.none, .none, .known (memberOf amountsName (.object
      [⟨.none, .none, .known (memberOf Side.before.name before) (name_mem_sides .before)⟩,
        ⟨.none, .none, .known (memberOf Side.after.name after) (name_mem_sides .after)⟩] .none nodup_sides))
      (List.mem_singleton_self amountsName)⟩] .none (List.nodup_singleton amountsName)
  after  := .none

/-- The layout of a preset. -/
def ofPreset (q : Preset) : FileLayout := ofSides (.ofAmounts q.before) (.ofAmounts q.after)

theorem side?_ofPreset (q : Preset) (s : Side) : (ofPreset q).side? s = some (.ofAmounts (q.side s)) := by
  cases s <;> rfl

/-- **A name has its amount in the file.** -/
theorem amount?_ofPreset {q : Preset} (h : q.Distinct) (s : Side) (name : String) :
    (ofPreset q).amount? s name = (q.side s).get? name := by
  rw [amount?, integer?, side?_ofPreset, Option.bind_some, AmountsLayout.integer?_ofAmounts (h s), Option.map_map]
  have hback : amountOf ∘ Amount.toInt = id := funext fun a => (amountOf_toInt a).2
  rw [hback, Option.map_id, id]

theorem isAmount_ofPreset (q : Preset) : ∀ v ∈ (ofPreset q).integers, IsAmount v := by
  have hintegers : (ofPreset q).integers = (AmountsLayout.ofAmounts q.before).integers ++
      (AmountsLayout.ofAmounts q.after).integers := by
    show _ ++ [] = _
    rw [List.append_nil]
    show _ ++ (_ ++ []) = _
    rw [List.append_nil]
    rfl
  rw [hintegers]
  intro v hv
  exact (List.mem_append.mp hv).elim (AmountsLayout.isAmount_ofAmounts _ v) (AmountsLayout.isAmount_ofAmounts _ v)

end FileLayout

/-- The text of a preset. -/
def render (q : Preset) : String := (FileLayout.ofPreset q).text

/-! ## All or nothing -/

theorem message_amount (v : Int) : Cause.message (.amount ⟨v⟩) =
    "invalid config: invalid whitespace amount " ++ toString v ++ ", expected -1 or 0..=255" := by
  have hstart : "invalid config: invalid whitespace amount " =
      "invalid config: " ++ "invalid whitespace amount " := by decide
  rw [hstart, String.append_assoc, String.append_assoc]
  rfl

/-- **A preset file is laid over the standard preset, all of it or nothing**, if the reader is lawful. What is loaded
    are the maps that were read, over the standard ones, and they are those of a file all of whose integers are amounts:
    every name has the amount of its last member. Such a file is always loaded; a name without a member keeps the amount
    of the standard preset, and members of other names make no difference. The first integer that is no amount refuses
    the file behind its last digit. What a preset is written as is read as that preset over the standard one. -/
theorem load_layered {reader : Reader} (hr : reader.Lawful) :
    (∀ text p, load reader text = .ok p → ∃ q, reader Amount.ofInt text = .ok q ∧
      p = Preset.standard.overriddenBy q ∧
      (∀ s name, (p.side s).get? name = ((q.side s).get? name).or ((Preset.standard.side s).get? name)) ∧
      (∀ s r, p.amount s r = ((q.side s).get? r.name).getD
        (if s = .after ∧ r = .openingParenthesis ∨ s = .before ∧ r = .closingParenthesis then .exact 0
          else .preserve)) ∧
      ∃ d : FileLayout, d.text = text ∧ (∀ v ∈ d.integers, IsAmount v) ∧
        ∀ s name, (q.side s).get? name = d.amount? s name) ∧
    (∀ d : FileLayout, (∀ v ∈ d.integers, IsAmount v) → ∃ p, load reader d.text = .ok p ∧
      (∀ s name, (p.side s).get? name = (d.amount? s name).or ((Preset.standard.side s).get? name)) ∧
      (∀ s r, p.amount s r = (d.amount? s r.name).getD
        (if s = .after ∧ r = .openingParenthesis ∨ s = .before ∧ r = .closingParenthesis then .exact 0
          else .preserve)) ∧
      ∀ d', Relation.ReflTransGen FileLayout.Extends d d' →
        ∃ p', load reader d'.text = .ok p' ∧ ∀ s name, (p'.side s).get? name = (p.side s).get? name) ∧
    (∀ (d : FileLayout) (good bad : List Int) (v : Int), d.integers = good ++ v :: bad →
      (∀ w ∈ good, IsAmount w) → ¬ IsAmount v →
      ∃ front back, d.text = String.ofList (front ++ back) ∧ EndsWith v front ∧ Stops back ∧
        ∀ rest, Stops rest → ∃ r, load reader (String.ofList (front ++ rest)) = .error r ∧ r.cause.message =
          "invalid config: invalid whitespace amount " ++ toString v ++ ", expected -1 or 0..=255") ∧
    ∀ q : Preset, q.Distinct → ∃ p, load reader (render q) = .ok p ∧
      ∀ s name, (p.side s).get? name = ((q.side s).get? name).or ((Preset.standard.side s).get? name) := by
  have hloads : ∀ d : FileLayout, (∀ v ∈ d.integers, IsAmount v) → ∃ q, reader Amount.ofInt d.text = .ok q ∧
      load reader d.text = .ok (Preset.standard.overriddenBy q) ∧
      ∀ s name, (q.side s).get? name = d.amount? s name := by
    intro d h
    obtain ⟨q, hq, hget⟩ := hr.read h
    exact ⟨q, hq, load_eq_ok_iff.mpr ⟨q, hq, rfl⟩, hget⟩
  refine ⟨fun text p h => ?_, fun d h => ?_, fun d good bad v hd hgood hv => ?_, fun q h => ?_⟩
  · obtain ⟨q, hq, rfl⟩ := load_eq_ok_iff.mp h
    obtain ⟨d, rfl, hconverts⟩ := hr.sound hq
    have hamounts : ∀ v ∈ d.integers, IsAmount v := fun v hv => isAmount_iff.mpr (hconverts v hv)
    refine ⟨q, hq, rfl, hr.get?_overriddenBy hq, hr.amount_overriddenBy hq, d, rfl, hamounts, ?_⟩
    obtain ⟨q', hq', hget⟩ := hr.read hamounts
    cases hq.symm.trans hq'
    exact hget
  · obtain ⟨q, hq, hload, hget⟩ := hloads d h
    refine ⟨_, hload, fun s name => ?_, fun s r => ?_, fun d' hd' => ?_⟩
    · rw [hr.get?_overriddenBy hq, hget]
    · rw [hr.amount_overriddenBy hq, hget]
    · obtain ⟨hintegers, hinteger⟩ : d'.integers = d.integers ∧ d'.integer? = d.integer? := by
        induction hd' with
        | refl => exact ⟨rfl, rfl⟩
        | tail _ hstep ih => exact ⟨hstep.integers_eq.trans ih.1, hstep.integer?_eq.trans ih.2⟩
      obtain ⟨q', hq', hload', hget'⟩ := hloads d' (hintegers ▸ h)
      refine ⟨_, hload', fun s name => ?_⟩
      rw [hr.get?_overriddenBy hq', hr.get?_overriddenBy hq, hget', hget, FileLayout.amount?, FileLayout.amount?,
        hinteger]
  · obtain ⟨front, back, htext, hfront, hback, hread⟩ := hr.load_refuses hd hgood hv
    refine ⟨front, back, htext, hfront, hback, fun rest hrest => ?_⟩
    obtain ⟨r, hstop, hcause⟩ := hread rest hrest
    exact ⟨r, hstop, by rw [hcause, message_amount]⟩
  · obtain ⟨q', hq', hload, hget⟩ := hloads _ (FileLayout.isAmount_ofPreset q)
    refine ⟨_, hload, fun s name => ?_⟩
    rw [hr.get?_overriddenBy hq', hget, FileLayout.amount?_ofPreset h]

/-- Half a surrogate pair between quotes: no string, but a value that can be passed over. -/
def halfPair : AnyValue where
  written := '"' :: ('\\' :: ['u', 'd', '8', '0', '0'] ++ []) ++ ['"']
  isValue := .scalar (.string (.escape (.unit (n := 0xd800) ⟨rfl, by decide⟩) .nil))

/-- The numeral of an integer of 64 bits. -/
def numeral (v : Int) (hlow : -(signLimit : Int) ≤ v) (hhigh : v < signLimit) : Numeral :=
  ⟨(toString v).toList, v, isInteger_toString hlow hhigh⟩

/-- A preset with a name that needs escapes, a file with one more member, and a file with two impossible amounts
    under names that no rule reads. -/
theorem load_layered_odd_names :
    (∃ (q : Preset) (d' : FileLayout) (p : Preset), q.Distinct ∧
      (∀ v ∈ (FileLayout.ofPreset q).integers, IsAmount v) ∧ (FileLayout.ofPreset q).Extends d' ∧
      load reader d'.text = .ok p ∧ (p.side .before).get? "a\"\n" = some (.exact 3) ∧
      (p.side .after).get? Rule.openingParenthesis.name = some .preserve ∧
      (p.side .before).get? Rule.closingParenthesis.name = some (.exact 0)) ∧
    ∃ d : FileLayout, d.integers = [7] ++ -2 :: [300] ∧ (∀ w ∈ [(7 : Int)], IsAmount w) ∧ ¬ IsAmount (-2) ∧
      ∃ r, load reader d.text = .error r ∧
        r.cause.message = "invalid config: invalid whitespace amount -2, expected -1 or 0..=255" := by
  obtain ⟨hsound, haccepts, hrefuses, hrenders⟩ := load_layered reader_lawful
  constructor
  · have hq : Preset.Distinct ⟨⟨[("a\"\n", .exact 3)]⟩, ⟨[(Rule.openingParenthesis.name, .preserve)]⟩⟩ := by
      intro s
      cases s <;> exact List.nodup_singleton _
    have hd := FileLayout.isAmount_ofPreset ⟨⟨[("a\"\n", .exact 3)]⟩,
      ⟨[(Rule.openingParenthesis.name, .preserve)]⟩⟩
    obtain ⟨fields, last, once, hrecord⟩ : ∃ fields last once, (FileLayout.ofPreset ⟨⟨[("a\"\n", .exact 3)]⟩,
        ⟨[(Rule.openingParenthesis.name, .preserve)]⟩⟩).record = .object fields last once := ⟨_, _, _, rfl⟩
    obtain ⟨d', hextends⟩ : ∃ d', (FileLayout.ofPreset ⟨⟨[("a\"\n", .exact 3)]⟩,
        ⟨[(Rule.openingParenthesis.name, .preserve)]⟩⟩).Extends d' :=
      ⟨⟨.none, .object (⟨.none, .none, .other (memberOf "before" halfPair) (by decide)⟩ :: fields) last once, .none⟩,
        rfl, rfl, by rw [hrecord]; exact .insert_first rfl⟩
    obtain ⟨p, hp, hget, -, hinserted⟩ := haccepts _ hd
    obtain ⟨p', hp', hsame⟩ := hinserted d' (.single hextends)
    refine ⟨_, d', p', hq, hd, hextends, hp', ?_⟩
    rw [hsame, hsame, hsame, hget, hget, hget, FileLayout.amount?_ofPreset hq, FileLayout.amount?_ofPreset hq,
      FileLayout.amount?_ofPreset hq]
    decide
  · have hgood : ∀ w ∈ [(7 : Int)], IsAmount w := by decide
    have hbad : ¬ IsAmount (-2) := by decide
    have hintegers : (FileLayout.ofSides (.ofEntries [("x", numeral 7 (by decide) (by decide))])
        (.ofEntries [("y", numeral (-2) (by decide) (by decide)),
          ("z", numeral 300 (by decide) (by decide))])).integers = [7] ++ -2 :: [300] := rfl
    obtain ⟨front, back, htext, -, hback, hread⟩ := hrefuses _ [7] [300] (-2) hintegers hgood hbad
    obtain ⟨r, hr, hmessage⟩ := hread back hback
    exact ⟨_, hintegers, hgood, hbad, r, htext ▸ hr, hmessage⟩

end PresetFile
end ScriptSpacing
