import ScriptSpacing.Proofs.Syntax.Lists

/-!
# `Proofs.Syntax.Completeness.Operand` — written operands are read back

`Rereads code m again` says that `again`, with at most `m` tokens left, builds every expression that stands in
the code written out, with or without the parentheses around the whole, wherever the token behind it ends the
goal. From it follows what the productions for operands build: an expression in parentheses is a primary
expression (`Rereads.builds_primary`), and by that an operand of any width; lists of arguments, arrays and
objects are built item by item; names and literals are leaves.
-/

namespace ScriptSpacing

/-- The rank up to which a goal reads on; no expression ends at a statement or a construction. -/
def Goal.reach : Goal → Nat
  | .unary => 1
  | .binary _ => 2
  | .assignment => 4
  | .expression => 5
  | .statement | .construction => 6

namespace Grammar
open ScriptSpacing.Parser

/-- **Written expressions are read back** by `again`, with at most `m` tokens left. -/
structure Rereads (code : Code) (m : Nat) (again : Grammar) : Prop where
  inner : ∀ {e : Expr} {p q : Nat}, code.size ≤ p + m → code.Stands e.inner p q → 5 < code.rank q →
    Builds code (again .expression) p q e.outline
  whole : ∀ {goal : Goal} {e : Expr} {p q : Nat}, code.size ≤ p + m → code.Stands e.render p q →
    goal.reach < code.rank q → Builds code (again goal) p q e.outline

variable {code : Code} {again : Grammar} {e : Expr} {i : TokenId} {m p q r : Nat}

/-! ## Operands in parentheses -/

/-- A written expression begins and ends with a parenthesis. -/
theorem stands_render (h : code.Stands e.render p q) : ∃ i j r,
    code.at? p = some (i, .punctuator "(") ∧ code.Stands e.inner (p + 1) r ∧
      code.at? r = some (j, .punctuator ")") ∧ r + 1 = q := by
  obtain ⟨⟨⟨i, t⟩, hat, htext⟩, hrest⟩ := h
  obtain ⟨r, hinner, ⟨⟨j, t'⟩, hend, htext'⟩, hq⟩ := Code.stands_append.mp hrest
  obtain rfl : t = .punctuator "(" := htext
  obtain rfl : t' = .punctuator ")" := htext'
  exact ⟨i, j, r, hat, hinner, hend, hq⟩

theorem lt_of_stands_render (h : code.Stands e.render p q) : p < q := by
  obtain ⟨i, j, r, -, hinner, -, rfl⟩ := stands_render h
  have hle := hinner.add_length
  omega

/-- No operand in parentheses is a construction. -/
theorem not_new_of_stands_render (h : code.Stands e.render p q) : code.is p "new" = false := by
  obtain ⟨i, -, -, hat, -, -, -⟩ := stands_render h
  exact Code.is_eq_false_of_at? hat (by decide)

theorem noOperator_paren : (Token.punctuator "(").NoOperator :=
  Token.noOperator_of_text (List.mem_cons_self)

/-- No arrow function begins at an operand, unless an arrow is behind it. -/
theorem beginsArrow_render (hpaired : code.Paired) (h : code.Stands e.render p q) :
    code.beginsArrow p = code.is q "=>" := Code.beginsArrow_of_stands hpaired h e.matched_inner

theorem beginsArrow_of_rank (hpaired : code.Paired) (h : code.Stands e.render p q)
    (hrank : 0 < code.rank q) : code.beginsArrow p = false := by
  rw [beginsArrow_render hpaired h]
  exact (Code.no_suffix hrank).arrow

/-- **A parenthesized expression is a primary expression.** -/
theorem Rereads.builds_primary (hag : Rereads code m again) (hsize : code.size ≤ p + m + 1)
    (h : code.Stands e.render p q) : Builds code (primary again) p q e.outline := by
  intro ar
  obtain ⟨i, j, r, hat, hinner, hend, rfl⟩ := stands_render h
  have hrank : code.rank r = 6 := by
    rw [Code.rank_of_at? hend]
    rfl
  refine .peek hat ?_
  show Makes code (if (Token.punctuator "(").is "(" = true then group again else _) p ar (r + 1) _
  rw [if_pos (by decide)]
  refine .expect hat rfl (.bind (hag.inner (by omega) hinner (by omega) ar) ?_)
  intro id ar' _ hid
  exact .expect hend rfl (.pure hid)

/-- An operand in parentheses, up to the level of unary expressions. -/
theorem Rereads.builds_callMember (hag : Rereads code m again) (hsize : code.size ≤ p + m + 1)
    (h : code.Stands e.render p q) (hrank : 0 < code.rank q) :
    Builds code (callMember again) p q e.outline := by
  obtain ⟨i, -, -, hat, -, -, -⟩ := stands_render h
  exact .callMember_of_primary hat (not_new_of_stands_render h) (hag.builds_primary hsize h) hrank

theorem Rereads.builds_unary (hag : Rereads code m again) (hsize : code.size ≤ p + m + 1)
    (h : code.Stands e.render p q) (hrank : 1 < code.rank q) :
    Builds code (unary again) p q e.outline := by
  obtain ⟨i, -, -, hat, -, -, -⟩ := stands_render h
  exact .unary_of_callMember hat noOperator_paren (hag.builds_callMember hsize h (by omega)) hrank

theorem Rereads.builds_binary {least : Nat} (hag : Rereads code m again) (hsize : code.size ≤ p + m + 1)
    (h : code.Stands e.render p q) (hrank : 2 < code.rank q) :
    Builds code (binary again least) p q e.outline := by
  obtain ⟨i, -, -, hat, -, -, -⟩ := stands_render h
  exact .binary_of_unary hat (hag.builds_unary hsize h (by omega)) hrank

theorem Rereads.builds_conditional (hag : Rereads code m again) (hsize : code.size ≤ p + m + 1)
    (h : code.Stands e.render p q) (hrank : 3 < code.rank q) :
    Builds code (conditional again) p q e.outline := by
  obtain ⟨i, -, -, hat, -, -, -⟩ := stands_render h
  exact .conditional_of_binary hat (hag.builds_binary hsize h (by omega)) hrank

theorem Rereads.builds_assignment (hag : Rereads code m again) (hpaired : code.Paired)
    (hsize : code.size ≤ p + m + 1) (h : code.Stands e.render p q) (hrank : 4 < code.rank q) :
    Builds code (assignment again) p q e.outline := by
  obtain ⟨i, -, -, hat, -, -, -⟩ := stands_render h
  have harrow := beginsArrow_of_rank hpaired h (by omega)
  exact .assignment_of_conditional hat harrow (hag.builds_conditional hsize h (by omega)) hrank

theorem Rereads.builds_expression (hag : Rereads code m again) (hpaired : code.Paired)
    (hsize : code.size ≤ p + m + 1) (h : code.Stands e.render p q) (hrank : 5 < code.rank q) :
    Builds code (expression again) p q e.outline := by
  obtain ⟨i, -, -, hat, -, -, -⟩ := stands_render h
  exact .expression_of_assignment hat (hag.builds_assignment hpaired hsize h (by omega)) hrank

/-! ## Lists -/

theorem Rereads.each (hag : Rereads code m again) {close : String} (hclose : close ≠ "(") :
    ReadsEach code (again .assignment) Expr.render Expr.outline close m where
  first := by
    intro e p q h
    obtain ⟨i, j, r, hat, -, -, -⟩ := stands_render h
    exact ⟨Code.is_eq_false_of_at? hat hclose.symm, Code.is_eq_false_of_at? hat (by decide)⟩
  builds := by
    intro e p q hsize h hrank
    exact hag.whole hsize h hrank

theorem Rereads.builds_arguments (hag : Rereads code m again) (hsize : code.size ≤ p + m + 1)
    {es : List Expr} (h : code.Stands (grouped (commas (renders es))) p q) :
    BuildsAll code (arguments again) p q (outlines es) := by
  rw [renders_eq_map] at h
  rw [outlines_eq_map]
  exact builds_delimited (hag.each (by decide)) (by decide) (by omega) h

theorem Rereads.builds_array (hag : Rereads code m again) (hsize : code.size ≤ p + m + 1)
    {es : List Expr} (h : code.Stands (Expr.array es).inner p q) :
    Builds code (primary again) p q (Expr.array es).outline := by
  intro ar
  obtain ⟨⟨⟨i, t⟩, hat, htext⟩, hrest⟩ := h
  obtain ⟨r, hitems, ⟨⟨j, t'⟩, hend, htext'⟩, hq⟩ := Code.stands_append.mp hrest
  obtain rfl : t = .punctuator "[" := htext
  obtain rfl : t' = .punctuator "]" := htext'
  obtain rfl : r + 1 = q := hq
  have hle := hitems.add_length
  have his : code.is r "]" = true := Code.is_eq_true_of_at? hend rfl
  rw [renders_eq_map] at hitems
  refine .peek hat ?_
  show Makes code (if (Token.punctuator "[").is "(" = true then _ else
    if (Token.punctuator "[").is "[" = true then array again else _) p ar (r + 1) _
  rw [if_neg (by decide), if_pos (by decide)]
  refine .expect hat rfl (.left ?_)
  refine .bind (makes_elementsUntil (hag.each (by decide)) his es hitems (by omega) (by omega) .nil) ?_
  intro ids ar' _ hids
  rw [List.nil_append, ← outlines_eq_map] at hids
  exact .expect hend rfl (makes_finish hat (by omega) hids (by decide))

/-! ## Members of an object -/

/-- A key that is a name. -/
theorem builds_namedKey {key : Word .name} (hat : code.at? p = some (i, key.1)) :
    Builds code (propertyKey again) p (p + 1) (.leaf .identifier key.1) := by
  intro ar
  have hbracket : code.is p "[" = false :=
    Code.is_eq_false_of_at? hat (key.ne_punctuator rfl (by decide))
  have hname : namesProperty key.1 = true := key.2.1
  have hkind : ¬(key.1.kind = .string || key.1.kind = .numeric) = true := by
    intro hkind
    simp only [Bool.or_eq_true, decide_eq_true_eq] at hkind
    rcases hkind with hkind | hkind <;> simp [namesProperty, hkind] at hname
  refine .peek hat (.eat_false hbracket ?_)
  rw [if_neg (by decide), if_neg hkind]
  refine .peek hat ?_
  dsimp only
  rw [hname]
  exact makes_leaf hat (by decide)

/-- A key that is a literal. -/
theorem builds_literalKey {key : Word .literalKey} (hat : code.at? p = some (i, key.1)) :
    Builds code (propertyKey again) p (p + 1) (.leaf .literal key.1) := by
  intro ar
  have hbracket : code.is p "[" = false :=
    Code.is_eq_false_of_at? hat (key.ne_punctuator rfl (by decide))
  have hkind : (key.1.kind = .string || key.1.kind = .numeric) = true := key.2.1
  refine .peek hat (.eat_false hbracket ?_)
  rw [if_neg (by decide), if_pos hkind]
  exact makes_leaf hat (by decide)

/-- A key that is computed, in brackets. -/
theorem Rereads.builds_computedKey {j : TokenId} (hag : Rereads code m again)
    (hsize : code.size ≤ p + m + 1) (hopen : code.at? p = some (i, .punctuator "["))
    (h : code.Stands e.render (p + 1) r) (hclose : code.at? r = some (j, .punctuator "]")) :
    Builds code (propertyKey again) p (r + 1) e.outline := by
  intro ar
  have hbracket : code.is p "[" = true := Code.is_eq_true_of_at? hopen rfl
  have hrank : code.rank r = 6 := by
    rw [Code.rank_of_at? hclose]
    rfl
  have hkey : Builds code (again .assignment) (p + 1) r e.outline := by
    apply hag.whole (by omega) h
    rw [hrank]
    decide
  refine .peek hopen (.eat_true hbracket (.bind (hkey ar) ?_))
  intro key ar' _ hkey
  exact .expect hclose rfl (.pure hkey)

/-- A property: a key, and a value behind a colon. -/
theorem Rereads.builds_property {t : Token} {key : Outline} (hag : Rereads code m again)
    (hsize : code.size ≤ p + m) (hat : code.at? p = some (i, t))
    (h : Builds code (propertyKey again) p r key) (hlt : p < r) (hcolon : code.is r ":" = true)
    (h' : code.Stands e.render (r + 1) q) (hrank : 4 < code.rank q) :
    Builds code (property again) p q (.branch .property [key, e.outline]) := by
  intro ar
  have hle := h'.add_length
  have hvalue : Builds code (again .assignment) (r + 1) q e.outline := hag.whole (by omega) h' hrank
  have hvalues : BuildsAll code (propertyValue again) r q [e.outline] := by
    intro ar
    refine .eat_true hcolon (.bind (hvalue ar) ?_)
    intro value ar' _ hvalue
    exact .pure hvalue
  refine .peek hat (.bind (h ar) ?_)
  intro key ar₁ _ hkey
  refine .bind (hvalues ar₁) ?_
  intro value ar₂ hext hvalue
  exact makes_finish hat (by omega) ((hkey.mono hext).append hvalue) (by decide)

theorem Rereads.builds_member (hag : Rereads code m again) {x : Member} (hsize : code.size ≤ p + m)
    (h : code.Stands x.render p q) (hrank : 4 < code.rank q) :
    Builds code (property again) p q x.outline := by
  cases x with
  | named key value =>
      obtain ⟨⟨⟨i, t⟩, hat, htext⟩, hcolon, hvalue⟩ := h
      obtain rfl : t = key.1 := htext
      exact hag.builds_property hsize hat (builds_namedKey hat) (Nat.lt_succ_self p)
        (Code.is_of_punctuator hcolon) hvalue hrank
  | literal key value =>
      obtain ⟨⟨⟨i, t⟩, hat, htext⟩, hcolon, hvalue⟩ := h
      obtain rfl : t = key.1 := htext
      exact hag.builds_property hsize hat (builds_literalKey hat) (Nat.lt_succ_self p)
        (Code.is_of_punctuator hcolon) hvalue hrank
  | computed key value =>
      obtain ⟨⟨⟨i, t⟩, hat, htext⟩, hrest⟩ := h
      obtain ⟨r, hkey, ⟨⟨j, t'⟩, hend, htext'⟩, hcolon, hvalue⟩ := Code.stands_append.mp hrest
      obtain rfl : t = .punctuator "[" := htext
      obtain rfl : t' = .punctuator "]" := htext'
      have hle := lt_of_stands_render hkey
      exact hag.builds_property hsize hat (hag.builds_computedKey (by omega) hat hkey hend) (by omega)
        (Code.is_of_punctuator hcolon) hvalue hrank

/-- No member begins with a brace or a comma. -/
theorem first_of_member {x : Member} (h : code.Stands x.render p q) :
    code.is p "\x7d" = false ∧ code.is p "," = false := by
  have hfirst : ∀ s ∈ ["\x7d", ","], code.is p s = false := by
    intro s hs
    have hmem : s ∈ Token.punctuators := by
      simp only [List.mem_cons, List.not_mem_nil, or_false] at hs
      rcases hs with rfl | rfl <;> decide
    cases x with
    | named key value =>
        obtain ⟨⟨⟨i, t⟩, hat, htext⟩, -⟩ := h
        obtain rfl : t = key.1 := htext
        exact Code.is_eq_false_of_at? hat (key.ne_punctuator rfl hmem)
    | literal key value =>
        obtain ⟨⟨⟨i, t⟩, hat, htext⟩, -⟩ := h
        obtain rfl : t = key.1 := htext
        exact Code.is_eq_false_of_at? hat (key.ne_punctuator rfl hmem)
    | computed key value =>
        obtain ⟨⟨⟨i, t⟩, hat, htext⟩, -⟩ := h
        obtain rfl : t = .punctuator "[" := htext
        refine Code.is_eq_false_of_at? hat ?_
        rintro rfl
        exact absurd hs (by decide)
  exact ⟨hfirst _ (by simp), hfirst _ (by simp)⟩

theorem Rereads.each_member (hag : Rereads code m again) :
    ReadsEach code (property again) Member.render Member.outline "\x7d" m where
  first := first_of_member
  builds := hag.builds_member

theorem Rereads.builds_object (hag : Rereads code m again) (hsize : code.size ≤ p + m + 1)
    {ms : List Member} (h : code.Stands (Expr.object ms).inner p q) :
    Builds code (primary again) p q (Expr.object ms).outline := by
  intro ar
  obtain ⟨⟨⟨i, t⟩, hat, htext⟩, -⟩ := id h
  obtain rfl : t = .punctuator "\x7b" := htext
  have hle := h.add_length
  rw [Expr.inner, List.length_cons] at hle
  rw [Expr.inner, memberRenders_eq_map] at h
  refine .peek hat ?_
  show Makes code (if (Token.punctuator "\x7b").is "(" = true then _ else
    if (Token.punctuator "\x7b").is "[" = true then _ else
    if (Token.punctuator "\x7b").is "\x7b" = true then object again else _) p ar q _
  rw [if_neg (by decide), if_neg (by decide), if_pos (by decide)]
  refine .peek hat (.bind (builds_delimited hag.each_member (by decide) (by omega) h ar) ?_)
  intro ids ar' _ hids
  rw [← memberOutlines_eq_map] at hids
  exact makes_finish hat (by omega) hids (by decide)

/-! ## Names and literals -/

theorem kind_of_name (word : Word .identifier) : word.1.kind = .identifier := of_decide_eq_true word.2.1

/-- No arrow function begins at a name that no arrow follows. -/
theorem beginsArrow_name {word : Word .identifier} (hat : code.at? p = some (i, word.1))
    (hrank : 0 < code.rank (p + 1)) : code.beginsArrow p = false := by
  rw [Code.beginsArrow, hat]
  show (if word.1.kind = .identifier then code.is (p + 1) "=>" else _) = false
  rw [if_pos (kind_of_name word)]
  exact (Code.no_suffix hrank).arrow

theorem builds_name {word : Word .identifier} (hat : code.at? p = some (i, word.1))
    (hrank : 0 < code.rank (p + 1)) :
    Builds code (callMember again) p (p + 1) (.leaf .identifier word.1) := by
  have hnew : code.is p "new" = false :=
    Code.is_eq_false_of_at? hat (word.ne_keyword (.inl rfl) (by decide))
  refine .callMember_of_primary hat hnew ?_ hrank
  intro ar
  refine .peek hat ?_
  dsimp only
  rw [kind_of_name word]
  exact makes_leaf hat (by decide)

theorem builds_literal {word : Word .literal} (hat : code.at? p = some (i, word.1))
    (hrank : 0 < code.rank (p + 1)) :
    Builds code (callMember again) p (p + 1) (.leaf .literal word.1) := by
  have hnew : code.is p "new" = false :=
    Code.is_eq_false_of_at? hat (word.ne_keyword (.inr rfl) (by decide))
  refine .callMember_of_primary hat hnew ?_ hrank
  intro ar
  refine .peek hat ?_
  dsimp only
  have hkind := word.2.1
  simp only [Terminal.accepts, Bool.or_eq_true, decide_eq_true_eq] at hkind
  rcases hkind with ((hkind | hkind) | hkind) | hkind <;>
    rw [hkind] <;> exact makes_leaf hat (by decide)

theorem builds_this {word : Word (.text "this")} (hat : code.at? p = some (i, word.1))
    (hrank : 0 < code.rank (p + 1)) :
    Builds code (callMember again) p (p + 1) (.leaf .thisExpression word.1) := by
  have htext : word.1.text = "this" := Token.is_eq_true.mp word.2.1
  have hkind : word.1.kind = .keyword := by
    apply word.2.2.keyword
    rw [htext]
    decide
  have hnew : code.is p "new" = false := by
    apply Code.is_eq_false_of_at? hat
    rw [htext]
    decide
  refine .callMember_of_primary hat hnew ?_ hrank
  intro ar
  refine .peek hat ?_
  dsimp only
  rw [hkind]
  show Makes code (if word.1.is "this" = true then leaf .thisExpression .expression else _) p ar
    (p + 1) _
  rw [if_pos (Token.is_eq_true.mpr htext)]
  exact makes_leaf hat (by decide)

/-- A name or a literal is no operator. -/
theorem Word.noOperator {t : Terminal} (word : Word t) (ht : t = .identifier ∨ t = .literal) :
    word.1.NoOperator := by
  have hleaf : t.isLeaf = true := by
    rcases ht with rfl | rfl <;> rfl
  have hkind := kind_ne_punctuator_of_accepts hleaf word.2.1
  have hkeyword : word.1.kind ≠ .keyword := by
    intro hkeyword
    have hacc := word.2.1
    rcases ht with rfl | rfl <;> simp [Terminal.accepts, hkeyword] at hacc
  constructor
  · simp [isUnaryOperator, hkind, hkeyword]
  · rw [isUpdateOperator, Token.is, Token.is, beq_false_of_ne (word.ne_punctuator hleaf (by decide)),
      beq_false_of_ne (word.ne_punctuator hleaf (by decide))]
    rfl

end Grammar
end ScriptSpacing
