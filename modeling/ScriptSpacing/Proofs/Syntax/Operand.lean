import ScriptSpacing.Proofs.Syntax.Opening
import ScriptSpacing.Proofs.Syntax.Yield

/-!
# `Proofs.Syntax.Operand` — what an operand may be

A part is read as one node with parentheses around it, or none (`Reads.core`). Without them the node was read
by a rule for a part that the part covers, and for an operand these are few: a chain of operators that bind at
least as tightly, or something tighter than any operator (`Part.IsOperand`). So the level that an operand is
read at bounds the level of an operation that stands there bare (`Rule.of_isBinaryLike`), and no conditional,
assignment, sequence or arrow function does (`Rule.not_loose`).
-/

namespace ScriptSpacing
namespace Grammar

variable {ar : Arena} {code : Code} {g g' : Part} {kind : Node.Kind} {body : List Symbol}
  {id : NodeId} {children : List NodeId} {least i j p q r : Nat}

/-! ## Parentheses around a node -/

/-- Only tokens of the text `s` stand from the position `p` up to `q`. -/
structure Filled (code : Code) (s : String) (p q : Nat) : Prop where
  le  : p ≤ q
  all : ∀ x, p ≤ x → x < q → code.is x s = true

namespace Filled

variable {s : String}

theorem refl (code : Code) (s : String) (p : Nat) : Filled code s p p where
  le := Nat.le_refl p
  all := by
    intro x hp hx
    omega

/-- One more token in front. -/
theorem cons (hp : code.is p s = true) (h : Filled code s (p + 1) q) : Filled code s p q where
  le := Nat.le_of_succ_le h.le
  all := by
    intro x hx hq
    rcases Nat.eq_or_lt_of_le hx with rfl | hlt
    · exact hp
    · exact h.all x hlt hq

/-- One more token behind. -/
theorem concat (h : Filled code s p q) (hq : code.is q s = true) : Filled code s p (q + 1) where
  le := Nat.le_succ_of_le h.le
  all := by
    intro x hx hlt
    rcases Nat.eq_or_lt_of_le (Nat.le_of_lt_succ hlt) with rfl | hlt
    · exact hq
    · exact h.all x hx hlt

end Filled

/-- The parts that an operand of level `least` covers. -/
def Part.IsOperand (least : Nat) : Part → Prop
  | .binary least' => least ≤ least'
  | .unary | .operand | .construction | .primary => True
  | _ => False

/-- What an operand covers is an operand. -/
theorem Part.Covers.isOperand (h : g.Covers g') (hg : g.IsOperand least) : g'.IsOperand least := by
  cases h with
  | tighter hle => exact Nat.le_trans hg hle
  | unary => trivial
  | operand => trivial
  | operandConstruction => trivial
  | operandPrimary => trivial
  | _ => exact hg.elim

/-- **The node that the part `g` is read as** from `p` up to `q`: what its own symbols took, from `i` to `j`,
    and parentheses around it. Where it has none on one side, it was read by a rule for what `g` covers. -/
inductive Core (ar : Arena) (code : Code) (g : Part) (id : NodeId) (p q : Nat) : Prop where
  | intro {g' : Part} {kind : Node.Kind} {body : List Symbol} {children : List NodeId} {i j : Nat}
      (rule : Rule g' kind body) (reads : Reads ar code body i children (j + 1))
      (node : ar.get? id = some (Node.spanning code kind children i (j + 1)))
      (front : Filled code "(" p i) (back : Filled code ")" (j + 1) q)
      (bare : i = p ∨ j + 1 = q → ∀ least, g.IsOperand least → g'.IsOperand least) :
      Core ar code g id p q

/-- **A part is one node in parentheses**, if it is no key. -/
theorem Reads.core (h : Reads ar code [.part g] p [id] q) (hkey : g ≠ .key) :
    Core ar code g id p q := by
  obtain ⟨qs, hqs⟩ : ∃ qs, qs = [Symbol.part g] := ⟨_, rfl⟩
  obtain ⟨is, his⟩ : ∃ is, is = [id] := ⟨_, rfl⟩
  rw [← hqs, ← his] at h
  -- lifting narrows the part and wrapping adds parentheses; both keep the node
  induction h generalizing g with
  | nil => cases hqs
  | token => cases hqs
  | @node g' kind body ps id' children ids p r q hrule hbody hnode hrest _ _ =>
      cases hqs
      cases his
      cases hrest
      have hlen := List.length_pos_iff.mpr hrule.ne_nil
      have hlt := hbody.add_length_le
      obtain ⟨j, rfl⟩ : ∃ j, r = j + 1 := ⟨r - 1, by omega⟩
      exact .intro hrule hbody hnode (.refl _ _ _) (.refl _ _ _) fun _ _ hg => hg
  | @wrap g' g'' opener closer _ _ _ p r q hwrap hopen _ hclose hrest ihinner _ =>
      cases hqs
      cases his
      cases hrest
      cases hwrap with
      | computedKey => exact absurd rfl hkey
      | group =>
          obtain ⟨hrule, hbody, hnode, hfront, hback, -⟩ := ihinner (by decide) rfl rfl
          have hle := hfront.le
          have hle' := hback.le
          refine .intro hrule hbody hnode (hfront.cons hopen) (hback.concat hclose) ?_
          intro hbare
          omega
  | @lift g' g'' ps ids p q hcov _ ih =>
      cases hqs
      have hkey' : g'' ≠ .key := by
        rintro rfl
        cases hcov
      obtain ⟨hrule, hbody, hnode, hfront, hback, hbare⟩ := ih hkey' rfl his
      refine .intro hrule hbody hnode hfront hback ?_
      intro hside least hg
      exact hbare hside least (hcov.isOperand hg)

/-! ## Operations -/

/-- The rules for an operation. -/
theorem Rule.of_isBinaryLike (h : Rule g kind body) (hkind : kind.isBinaryLike = true) :
    ∃ least level, g = .binary least ∧ least ≤ level ∧
      body = [.part (.binary (leftLevel level)), .token (.binaryOperator level kind),
        .part (.binary (rightLevel level))] := by
  cases h with
  | binary hle => exact ⟨_, _, rfl, hle, rfl⟩
  | _ => cases hkind

/-- Two parts with a token between them. -/
theorem Reads.of_infix {t : Terminal}
    (h : Reads ar code [.part g, .token t, .part g'] p children q) :
    ∃ a b m e, children = [a, b] ∧ Reads ar code [.part g] p [a] m ∧ code.at? m = some e ∧
      t.accepts e.2 = true ∧ Reads ar code [.part g'] (m + 1) [b] q := by
  obtain ⟨a, m, ids, rfl, hleft, hrest⟩ := h.of_part_cons
  cases hrest with
  | @token _ e _ _ _ _ hat hacc hrest =>
      obtain ⟨b, r, ids, rfl, hright, hnil⟩ := hrest.of_part_cons
      cases hnil
      exact ⟨a, b, m, e, rfl, hleft, hat, hacc, hright⟩

/-- The kinds of expressions that bind less tightly than every operator. -/
def looseKinds : List Node.Kind :=
  [.sequenceExpression, .assignmentExpression, .conditionalExpression, .arrowFunctionExpression]

theorem not_loose_of_isBinaryLike (h : kind.isBinaryLike = true) : kind ∉ looseKinds := by
  intro hmem
  simp only [looseKinds, List.mem_cons, List.not_mem_nil, or_false] at hmem
  rcases hmem with rfl | rfl | rfl | rfl <;> cases h

/-- The rules for an operand make no loose node. -/
theorem Rule.not_loose (h : Rule g kind body) (hbody : Reads ar code body p children q)
    (hg : g.IsOperand least) : kind ∉ looseKinds := by
  cases h with
  | binary =>
      obtain ⟨a, b, m, e, -, -, -, hacc, -⟩ := hbody.of_infix
      exact not_loose_of_isBinaryLike (binaryOperator?_spec (of_decide_eq_true hacc)).2
  | conditional => exact hg.elim
  | assignment => exact hg.elim
  | arrow => exact hg.elim
  | sequence => exact hg.elim
  | _ => decide

/-! ## One operand -/

/-- The terminals that the one operand of a node of a kind comes with. -/
inductive Terminal.Applies : Terminal → Node.Kind → Prop where
  | unary  : Applies .unaryOperator .unaryExpression
  | update : Applies .updateOperator .updateExpression

/-- The rules for a node with one operand. -/
theorem Rule.of_one_operand (h : Rule g kind body) (hbody : Reads ar code body p children q)
    (hkind : kind = .unaryExpression ∨ kind = .updateExpression) :
    ∃ t : Terminal, t.Applies kind ∧
      (body = [.token t, .part .unary] ∨ body = [.part .operand, .token t]) := by
  cases h with
  | unary => exact ⟨_, .unary, .inl rfl⟩
  | prefixUpdate => exact ⟨_, .update, .inl rfl⟩
  | postfixUpdate => exact ⟨_, .update, .inr rfl⟩
  | binary =>
      obtain ⟨a, b, m, e, -, -, -, hacc, -⟩ := hbody.of_infix
      have hbinary := (binaryOperator?_spec (of_decide_eq_true hacc)).2
      rcases hkind with rfl | rfl <;> cases hbinary
  | _ => rcases hkind with hkind | hkind <;> cases hkind

/-! ## Operators are no parentheses -/

theorem text_ne_of_applies {t : Terminal} {tok : Token} (ht : t.Applies kind)
    (hacc : t.accepts tok = true) : tok.text ≠ "(" ∧ tok.text ≠ ")" := by
  constructor
  all_goals
    intro htext
    cases ht <;>
      simp [Terminal.accepts, isUnaryOperator, isUpdateOperator, Token.is, htext] at hacc

theorem text_ne_of_binaryOperator? {tok : Token} {level : Nat} {kind : Node.Kind}
    (h : binaryOperator? tok = some (level, kind)) : tok.text ≠ "(" ∧ tok.text ≠ ")" := by
  constructor
  all_goals
    intro htext
    simp [binaryOperator?, htext] at h

/-- `**` is the one operator of its level. -/
theorem text_eq_iff_of_binaryOperator? {tok : Token} {level : Nat} {kind : Node.Kind}
    (h : binaryOperator? tok = some (level, kind)) : tok.text = "**" ↔ level = exponentLevel := by
  unfold binaryOperator? at h
  split at h
  · split at h
    all_goals cases h
    all_goals simp_all [exponentLevel]
  · cases h

end Grammar
end ScriptSpacing
