import ScriptSpacing.Proofs.Syntax.Brackets
import ScriptSpacing.Proofs.Syntax.Soundness.Statement
import ScriptSpacing.Spacing.Policy

/-!
# `Proofs.Syntax.Spans` — the spans of a tree

What a node's symbols took is its span (`Node.Spans`). Its brackets nest among themselves, and it does not
begin in the middle of a pair: its first token closes nothing, and where it begins with an empty pair of
parentheses, which only the parameters of an arrow function can be, it goes on for two more tokens at least.
Every node of a tree but its root has such a span (`Tree.Sound.exists_spans`).
-/

namespace ScriptSpacing
namespace Grammar

/-! ## How a part begins -/

/-- Symbols that begin with no closing parenthesis, and have three more behind an opening one. -/
def Leads : List Symbol → Prop
  | [] => False
  | .part _ :: _ => True
  | .token t :: ps => t ≠ .text ")" ∧ (t = .text "(" → 3 ≤ ps.length)

theorem leads_token {t : Terminal} (hclose : t ≠ .text ")") (hopen : t ≠ .text "(")
    (ps : List Symbol) : Leads (.token t :: ps) := ⟨hclose, fun h => absurd h hopen⟩

/-- Every rule leads so: only arrow functions begin with a parenthesis of their own. -/
theorem Rule.leads {g : Part} {kind : Node.Kind} {body : List Symbol} (h : Rule g kind body) :
    Leads body := by
  cases h with
  | arrow hparams _ =>
      rcases hparams with ⟨items, -, rfl⟩ | rfl
      · exact ⟨by decide, fun _ => by simp⟩
      · trivial
  | variableDeclaration hword _ _ =>
      have hwords : ∀ s ∈ ["var", "let", "const"],
          Terminal.text s ≠ .text ")" ∧ Terminal.text s ≠ .text "(" := by decide
      exact leads_token (hwords _ hword).1 (hwords _ hword).2 _
  | property => trivial
  | namedMember => trivial
  | computedMember => trivial
  | call => trivial
  | calleeNamedMember => trivial
  | calleeComputedMember => trivial
  | postfixUpdate => trivial
  | binary => trivial
  | conditional => trivial
  | assignment => trivial
  | sequence => trivial
  | declarator => trivial
  | expressionStatement => trivial
  | _ => exact leads_token (by decide) (by decide) _

variable {ar : Arena} {code : Code} {ps : List Symbol} {ids : List NodeId} {p q : Nat}

/-- **What is read begins as its symbols lead.** -/
theorem Reads.begins (hproper : code.Proper) (h : Reads ar code ps p ids q) (hleads : Leads ps) :
    code.is p ")" = false ∧
      (code.is p "(" = true → code.is (p + 1) ")" = true → p + 4 ≤ q) := by
  induction h with
  | nil => exact hleads.elim
  | @token t e ps ids p q hat hacc hrest _ =>
      have his : ∀ s, code.is p s = e.2.is s := fun s => by rw [Code.is, hat]; rfl
      rw [his, his]
      by_cases ht : ∃ s, t = .text s
      · obtain ⟨s, rfl⟩ := ht
        have htext : e.2.text = s := Token.is_eq_true.mp hacc
        refine ⟨?_, fun hopen _ => ?_⟩
        · simpa [Token.is, htext] using hleads.1
        · rw [Token.is_eq_true, htext] at hopen
          have hlen := hleads.2 (congrArg Terminal.text hopen)
          have hle := hrest.add_length_le
          omega
      · have hnot : e.2.text ∉ brackets :=
          Terminal.not_bracket (fun s hs => ht ⟨s, hs⟩) hacc (hproper p e hat)
        simp only [brackets, List.mem_cons, not_or] at hnot
        refine ⟨by simpa [Token.is] using hnot.2.1, fun hopen _ => ?_⟩
        exact absurd (Token.is_eq_true.mp hopen) hnot.1
  | node hrule _ _ hrest ihbody _ =>
      -- the part begins as its own symbols do
      obtain ⟨hclose, hempty⟩ := ihbody hrule.leads
      refine ⟨hclose, fun h₁ h₂ => ?_⟩
      have := hempty h₁ h₂
      have := hrest.le
      omega
  | @wrap g g' opener closer ps id ids p r q hwrap hopen _ _ _ ihinner _ =>
      obtain ⟨e, hat, htext⟩ := (Option.any_eq_true _ _).mp hopen
      rw [Token.is_eq_true] at htext
      have his : ∀ s, code.is p s = decide (opener = s) := by
        intro s
        rw [Code.is, hat, ← htext]
        rfl
      rw [his, his]
      -- what stands in brackets begins with no closer, so the pair is not empty
      have hnext : code.is (p + 1) ")" = false := (ihinner trivial).1
      cases hwrap with
      | group => exact ⟨rfl, fun _ h₂ => by rw [hnext] at h₂; cases h₂⟩
      | computedKey => exact ⟨rfl, fun h₁ => by cases h₁⟩
  | lift _ _ ih => exact ih trivial

end Grammar

/-! ## Spans -/

open Grammar in
/-- **The span of a node**: it runs from the code token at `i` to the one at `j`, its brackets nest, and it
    does not begin with a closing parenthesis or end right behind an empty pair. -/
structure Node.Spans (code : Code) (n : Node) (i j : Nat) : Prop where
  first : ∃ a, code.at? i = some a ∧ n.first = some a.1
  last  : ∃ b, code.at? j = some b ∧ n.last = some b.1
  le    : i ≤ j
  nests : Nests code i [] (j + 1) []
  front : code.is i ")" = false
  empty : code.is i "(" = true → code.is (i + 1) ")" = true → i + 3 ≤ j

open Grammar in
/-- **The symbols of a rule take the span of their node**, from their first token to their last. -/
theorem Grammar.Rule.spans {ar : Arena} {code : Code} {g : Part} {kind : Node.Kind}
    {body : List Symbol} {children : List NodeId} {p j : Nat} (hrule : Rule g kind body)
    (hproper : code.Proper) (hbody : Reads ar code body p children (j + 1)) :
    (Node.spanning code kind children p (j + 1)).Spans code p j := by
  have hlen := List.length_pos_iff.mpr hrule.ne_nil
  have hle := hbody.add_length_le
  have hnests := hbody.nests hproper (hrule.neutral [])
  obtain ⟨hfront, hempty⟩ := hbody.begins hproper hrule.leads
  obtain ⟨a, ha⟩ := hnests.exists_at? (Nat.le_refl p) (by omega)
  obtain ⟨b, hb⟩ := hnests.exists_at? (show p ≤ j by omega) (Nat.lt_succ_self j)
  refine ⟨⟨a, ha, ?_⟩, ⟨b, hb, ?_⟩, by omega, hnests, hfront, fun h₁ h₂ => ?_⟩
  · simp [Node.spanning, ha]
  · simp [Node.spanning, hb]
  · have := hempty h₁ h₂
    omega

open Grammar in
/-- A node that records how it was read has a span. -/
theorem Grammar.Owned.exists_spans {ar : Arena} {code : Code} {n : Node} (hproper : code.Proper)
    (h : Owned ar code n) : ∃ i j, n.Spans code i j := by
  obtain ⟨g, kind, body, children, p, q, hrule, hbody, rfl⟩ := h
  have hlen := List.length_pos_iff.mpr hrule.ne_nil
  have hle := hbody.add_length_le
  obtain ⟨j, rfl⟩ : ∃ j, q = j + 1 := ⟨q - 1, by omega⟩
  exact ⟨p, j, hrule.spans hproper hbody⟩

open Grammar in
/-- Every node of a tree but its root records how it was read. -/
theorem Tree.Sound.owned {code : Code} {t : Tree} (h : t.Sound code) {id : NodeId} {n : Node}
    (hn : t.arena.get? id = some n) (hkind : n.kind ≠ .program) : Owned t.arena code n := by
  rcases h.nodes id n hn with rfl | howned
  · obtain ⟨k, body, -, hroot⟩ := h.program
    rw [hroot] at hn
    cases hn
    exact absurd rfl hkind
  · exact howned

/-- **Every node of a tree but its root has a span.** -/
theorem Tree.Sound.exists_spans {code : Code} {t : Tree} (h : t.Sound code)
    (hproper : code.Proper) {id : NodeId} {n : Node} (hn : t.arena.get? id = some n)
    (hkind : n.kind ≠ .program) : ∃ i j, n.Spans code i j :=
  (h.owned hn hkind).exists_spans hproper

/-- No program takes space. -/
theorem Arena.kind_ne_program_of_takesSpace {ar : Arena} {id : NodeId} {n : Node}
    (hn : ar.get? id = some n) (h : ar.takesSpace id = true) : n.kind ≠ .program := by
  intro hkind
  rw [takesSpace, hn] at h
  simp [hkind, Policy.ofKind, Node.Kind.isExpressionLike] at h

end ScriptSpacing
