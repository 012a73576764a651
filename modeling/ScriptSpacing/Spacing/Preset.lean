import ScriptSpacing.Spacing.Amount

/-!
# `Spacing.Preset` — which rule takes how much space

A preset holds amounts by name, one map for the space before a token and one for the space after it.
Two names belong to rules that the formatter applies; a preset may hold any others, which no rule
reads. A rule whose name is missing preserves.

The maps keep their entries in the order of first insertion, one entry for a name. Two maps are the same
when they give every name the same amount, whatever the order.
-/

namespace ScriptSpacing

/-- The side of a token that a limit is about. -/
inductive Side where
  | before | after
deriving Repr, DecidableEq, Inhabited

/-- The rules that the formatter applies. -/
inductive Rule where
  /-- the space after a `(` around an expression -/
  | openingParenthesis
  /-- the space before a `)` around an expression -/
  | closingParenthesis
deriving Repr, DecidableEq, Inhabited

namespace Side

/-- Both sides. -/
def all : List Side := [.before, .after]

/-- The name of a side. -/
def name : Side → String
  | .before => "before"
  | .after  => "after"

/-- The side of a given name. -/
def ofName? (s : String) : Option Side := all.find? (·.name == s)

end Side

namespace Rule

/-- Both rules. -/
def all : List Rule := [.openingParenthesis, .closingParenthesis]

/-- The name a preset knows a rule by. -/
def name : Rule → String
  | .openingParenthesis => "ExpressionOpeningParentheses"
  | .closingParenthesis => "ExpressionClosingParentheses"

/-- The rule of a given name. -/
def ofName? (s : String) : Option Rule := all.find? (·.name == s)

end Rule

/-! ## Amounts by name -/

/-- Amounts by name. -/
structure Amounts where
  entries : List (String × Amount) := []
deriving Repr, Inhabited

namespace Amounts

/-- No amounts. -/
def empty : Amounts := {}

/-- The amount of a name. -/
def get? (m : Amounts) (name : String) : Option Amount := m.entries.lookup name

/-- The entries after giving `name` an amount. -/
def insertEntry (name : String) (a : Amount) : List (String × Amount) → List (String × Amount)
  | [] => [(name, a)]
  | (other, b) :: rest =>
    if name == other then (name, a) :: rest else (other, b) :: insertEntry name a rest

/-- Gives a name an amount, in place of the one it had. -/
def insert (m : Amounts) (name : String) (a : Amount) : Amounts := ⟨insertEntry name a m.entries⟩

/-- Lets the entries of `m'` replace and extend those of `m`. -/
def overriddenBy (m m' : Amounts) : Amounts :=
  m'.entries.foldl (fun m (name, a) => m.insert name a) m

/-- Whether every entry of `m` is one of `m'`. -/
def within (m m' : Amounts) : Bool := m.entries.all fun (name, _) => m'.get? name == m.get? name

/-- Whether two maps give every name the same amount. -/
def same (m m' : Amounts) : Bool := m.within m' && m'.within m

theorem lookup_cons {β : Type} (name other : String) (b : β) (l : List (String × β)) :
    ((name, b) :: l).lookup other = if other = name then some b else l.lookup other := by
  by_cases h : other = name
  · rw [if_pos h, h]
    exact List.lookup_cons_self
  · have hb : (other == name) = false := beq_eq_false_iff_ne.mpr h
    rw [if_neg h, List.lookup_cons, hb]

theorem lookup_insertEntry (name other : String) (a : Amount) (l : List (String × Amount)) :
    (insertEntry name a l).lookup other = if other = name then some a else l.lookup other := by
  induction l with
  | nil => exact lookup_cons name other a []
  | cons e rest ih =>
      obtain ⟨first, b⟩ := e
      unfold insertEntry
      by_cases hf : name = first
      · subst hf
        by_cases h : other = name <;> simp [lookup_cons, h]
      · by_cases h : other = first
        · subst h
          simp [hf, Ne.symm hf]
        · simp [hf, lookup_cons, h, ih]

/-- **The last word counts**: an insertion decides its own name and no other. -/
@[simp] theorem get?_insert (m : Amounts) (name other : String) (a : Amount) :
    (m.insert name a).get? other = if other = name then some a else m.get? other :=
  lookup_insertEntry name other a m.entries

end Amounts

/-! ## Presets -/

/-- Amounts for both sides of a token. -/
structure Preset where
  before : Amounts := {}
  after  : Amounts := {}
deriving Repr, Inhabited

namespace Preset

/-- The preset without entries, by which every rule preserves. -/
def empty : Preset := {}

/-- The amounts of one side. -/
def side (p : Preset) : Side → Amounts
  | .before => p.before
  | .after  => p.after

/-- The amount of a rule on one side; a missing entry preserves. -/
def amount (p : Preset) (s : Side) (r : Rule) : Amount := ((p.side s).get? r.name).getD .preserve

/-- Gives a rule an amount on one side. -/
def set (p : Preset) (s : Side) (r : Rule) (a : Amount) : Preset :=
  match s with
  | .before => { p with before := p.before.insert r.name a }
  | .after  => { p with after := p.after.insert r.name a }

/-- The same amount just inside both parentheses. -/
def inside (p : Preset) (a : Amount) : Preset :=
  (p.set .after .openingParenthesis a).set .before .closingParenthesis a

/-- The preset that holds unless another is given: no space just inside parentheses. -/
def standard : Preset := empty.inside (.exact 0)

/-- Lets both sides of `q` replace and extend those of `p`. -/
def overriddenBy (p q : Preset) : Preset :=
  ⟨p.before.overriddenBy q.before, p.after.overriddenBy q.after⟩

/-- Whether two presets hold the same amounts, those that no rule reads included. -/
def same (p q : Preset) : Bool := p.before.same q.before && p.after.same q.after

theorem name_injective {r r' : Rule} (h : r.name = r'.name) : r = r' := by
  cases r <;> cases r' <;> simp_all [Rule.name]

/-- **Setting an amount decides that side and rule**, and nothing else. -/
theorem amount_set (p : Preset) (s s' : Side) (r r' : Rule) (a : Amount) :
    (p.set s r a).amount s' r' = if s' = s ∧ r' = r then a else p.amount s' r' := by
  have hname : r'.name = r.name ↔ r' = r := ⟨name_injective, fun h => h ▸ rfl⟩
  cases s <;> cases s' <;> simp only [amount, set, side, Amounts.get?_insert, hname] <;>
    split <;> simp_all

end Preset
end ScriptSpacing
