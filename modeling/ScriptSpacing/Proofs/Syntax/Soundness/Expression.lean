import ScriptSpacing.Proofs.Syntax.Soundness.Primary

/-!
# `Proofs.Syntax.Soundness.Expression` — operators are read as the grammar says

The productions of `Syntax.Grammar.Expression`, in its order. The one loop with an invariant of its own is
`operations`: between two operators the operand read so far is a chain of some level `m`, and the next
operator takes a left operand of no higher level than `m`. The right operand keeps this up, since it ends in
front of every operator that binds as tightly as it does.
-/

namespace ScriptSpacing
namespace Grammar
open Parser

variable {code : Code} {again : Grammar} {st st' : ParseState} {id : NodeId}

/-! ## Operand chains -/

theorem unary_trace (hag : Sound code again) (h : unary again code st = .ok (id, st')) :
    Trace code st [.part .unary] [id] st' := by
  obtain ⟨e, s, hpeek, h⟩ := bind_eq_ok.mp h
  obtain ⟨he, rfl⟩ := peek_eq_ok.mp hpeek
  have hstart := start_of_at? he
  dsimp only at h
  split at h
  · next hoperator =>
      obtain ⟨-, s₁, ⟨⟩, h⟩ := bind_eq_ok.mp h
      obtain ⟨argument, s₂, hargument, h⟩ := bind_eq_ok.mp h
      have ht := (Trace.bump (t := .unaryOperator) he hoperator).trans (hag.trace hargument)
      exact ht.finish .unary hstart (by decide) h
  split at h
  · next hoperator =>
      obtain ⟨-, s₁, ⟨⟩, h⟩ := bind_eq_ok.mp h
      obtain ⟨argument, s₂, hargument, h⟩ := bind_eq_ok.mp h
      have ht := (Trace.bump (t := .updateOperator) he hoperator).trans (hag.trace hargument)
      exact ht.finish .prefixUpdate hstart (by decide) h
  · obtain ⟨operand, s₁, hoperand, h⟩ := bind_eq_ok.mp h
    have ht := callMember_trace hag hoperand
    obtain ⟨current, _, ⟨⟩, h⟩ := bind_eq_ok.mp h
    cases hat : code.at? s₁.pos with
    | none =>
        rw [hat] at h
        cases h
        exact ht.lift .operand
    | some e' =>
        rw [hat] at h
        dsimp only at h
        split at h
        · next hoperator =>
            obtain ⟨-, s₂, ⟨⟩, h⟩ := bind_eq_ok.mp h
            have hbump := Trace.bump (t := .updateOperator) hat hoperator
            exact (ht.token hbump).finish .postfixUpdate hstart (by decide) h
        · cases h
          exact ht.lift .operand

/-- Every operator makes a binary or a logical node, and no level is above that of `**`. -/
theorem binaryOperator?_spec {t : Token} {level : Nat} {kind : Node.Kind}
    (h : binaryOperator? t = some (level, kind)) :
    level ≤ exponentLevel ∧ kind.isBinaryLike = true := by
  unfold binaryOperator? at h
  split at h
  · split at h
    all_goals cases h
    all_goals exact ⟨by decide, rfl⟩
  · cases h

/-- Every operator at a position takes a left operand of level `least` or below. -/
def Takes (code : Code) (least pos : Nat) : Prop :=
  ∀ e level kind, code.at? pos = some e → binaryOperator? e.2 = some (level, kind) →
    leftLevel level ≤ least

/-- Where a right operand ended, its operation may be a left operand. -/
theorem takes_of_ends {level pos : Nat} (hlevel : level ≤ exponentLevel)
    (h : Ends code (rightLevel level) pos) : Takes code level pos := by
  intro e level' kind he hop
  have hlt := h e level' kind he hop
  have hle := (binaryOperator?_spec hop).1
  unfold rightLevel at hlt
  unfold leftLevel
  split <;> split at hlt <;> omega

/-- **The loop over operators**: the operand read so far is a chain of level `m`, and the next operator
    takes a left operand of level `m` or below. -/
theorem operations_trace (hag : Sound code again) {least : Nat} {start : TokenId}
    (hstart : (code.at? st.pos).map (·.1) = some start) :
    ∀ {n m : Nat} {operand : NodeId} {s : ParseState}, code.size - s.pos ≤ n → least ≤ m →
      Trace code st [.part (.binary m)] [operand] s → Takes code m s.pos →
      operations again least start operand n code s = .ok (id, st') →
      Trace code st [.part (.binary least)] [id] st' ∧ Ends code least st'.pos := by
  intro n
  induction n with
  | zero =>
      -- the count is out, so no token is left
      intro m operand s hn hm ht _ h
      cases h
      refine ⟨ht.lift (.tighter hm), fun e level kind he _ => ?_⟩
      have := Code.lt_size_of_at? he
      omega
  | succ n ih =>
      intro m operand s hn hm ht htakes h
      obtain ⟨current, _, ⟨⟩, h⟩ := bind_eq_ok.mp h
      cases hat : code.at? s.pos with
      | none =>
          rw [hat] at h
          cases h
          refine ⟨ht.lift (.tighter hm), fun e level kind he _ => ?_⟩
          rw [hat] at he
          cases he
      | some e =>
          rw [hat] at h
          cases hop : binaryOperator? e.2 with
          | none =>
              simp only [Option.bind_some, hop] at h
              cases h
              refine ⟨ht.lift (.tighter hm), fun e' level kind he hop' => ?_⟩
              rw [hat] at he
              cases he
              rw [hop] at hop'
              cases hop'
          | some operator =>
              obtain ⟨level, kind⟩ := operator
              obtain ⟨hlevel, hkind⟩ := binaryOperator?_spec hop
              simp only [Option.bind_some, hop] at h
              split at h
              -- an operator that binds less tightly ends the chain
              · next hlt =>
                  cases h
                  refine ⟨ht.lift (.tighter hm), fun e' level' kind' he hop' => ?_⟩
                  rw [hat] at he
                  cases he
                  rw [hop] at hop'
                  cases hop'
                  exact hlt
              · next hge =>
                  obtain ⟨-, s₁, ⟨⟩, h⟩ := bind_eq_ok.mp h
                  obtain ⟨right, s₂, hright, h⟩ := bind_eq_ok.mp h
                  obtain ⟨htright, hends⟩ := hag _ _ _ _ hright
                  obtain ⟨operation, s₃, hfinish, h⟩ := bind_eq_ok.mp h
                  -- what was read becomes the left operand, and the operation what is read
                  have hleft := ht.lift (.tighter (htakes e level kind hat hop))
                  have htoken := Trace.bump (t := .binaryOperator level kind) hat (decide_eq_true hop)
                  have hplain : kind ∉ linkingKinds := by
                    cases kind <;> first | decide | cases hkind
                  have hop' := ((hleft.token htoken).trans htright).finish
                    (.binary (Nat.le_refl level)) hstart hplain hfinish
                  have hpos : s₃.pos = s₂.pos := by
                    obtain ⟨last, _, ⟨⟩, hnode⟩ := bind_eq_ok.mp hfinish
                    cases hnode
                    rfl
                  have hlt : s.pos + 1 ≤ s₂.pos := htright.reads.le
                  refine ih (by omega) (by omega) hop' ?_ h
                  rw [hpos]
                  exact takes_of_ends hlevel (hends _ rfl)

theorem binary_trace (hag : Sound code again) {least : Nat}
    (h : binary again least code st = .ok (id, st')) :
    Trace code st [.part (.binary least)] [id] st' ∧ Ends code least st'.pos := by
  obtain ⟨e, s, hpeek, h⟩ := bind_eq_ok.mp h
  obtain ⟨he, rfl⟩ := peek_eq_ok.mp hpeek
  obtain ⟨operand, s₁, hoperand, h⟩ := bind_eq_ok.mp h
  obtain ⟨n, _, ⟨⟩, h⟩ := bind_eq_ok.mp h
  -- a chain without operators is one of every level
  have ht := (unary_trace hag hoperand).lift (.unary (max least (exponentLevel + 1)))
  refine operations_trace hag (start_of_at? he) (Nat.le_refl _) (Nat.le_max_left _ _) ht ?_ h
  intro e level kind _ hop
  have := (binaryOperator?_spec hop).1
  unfold leftLevel
  split <;> omega

/-! ## Conditionals, arrow functions, assignments, sequences -/

theorem conditional_trace (hag : Sound code again) (h : conditional again code st = .ok (id, st')) :
    Trace code st [.part .conditional] [id] st' := by
  obtain ⟨e, s, hpeek, h⟩ := bind_eq_ok.mp h
  obtain ⟨he, rfl⟩ := peek_eq_ok.mp hpeek
  obtain ⟨test, s₁, htest, h⟩ := bind_eq_ok.mp h
  have ht := (binary_trace hag htest).1
  rcases Trace.eat_bind h with ⟨hmark, h⟩ | h
  · obtain ⟨consequent, s₂, hconsequent, h⟩ := bind_eq_ok.mp h
    obtain ⟨_, s₃, hcolon, h⟩ := bind_eq_ok.mp h
    obtain ⟨htcolon, -⟩ := Trace.expect hcolon
    obtain ⟨alternate, s₄, halternate, h⟩ := bind_eq_ok.mp h
    have htconsequent := (ht.token (.bump_text hmark)).trans (hag.trace hconsequent)
    exact ((htconsequent.token htcolon).trans (hag.trace halternate)).finish .conditional
      (start_of_at? he) (by decide) h
  · cases h
    exact ht.lift .binary

theorem arrowParameters_trace (hag : Sound code again) {ids : List NodeId}
    (h : arrowParameters again code st = .ok (ids, st')) :
    ∃ ps, IsParameters ps ∧ Trace code st ps ids st' := by
  obtain ⟨b, _, ⟨⟩, h⟩ := bind_eq_ok.mp h
  split at h
  · obtain ⟨ps, hps, ht⟩ := arguments_trace hag h
    exact ⟨ps, .inl hps, ht⟩
  · obtain ⟨name, s, hname, h⟩ := bind_eq_ok.mp h
    cases h
    exact ⟨_, .inr rfl, bindingIdentifier_trace hname⟩

theorem arrowBody_trace (hag : Sound code again) (h : arrowBody again code st = .ok (id, st')) :
    ∃ g, (g = .block ∨ g = .assignment) ∧ Trace code st [.part g] [id] st' := by
  obtain ⟨b, _, ⟨⟩, h⟩ := bind_eq_ok.mp h
  split at h
  · exact ⟨_, .inl rfl, block_trace hag h⟩
  · exact ⟨_, .inr rfl, hag.trace h⟩

theorem arrow_trace (hag : Sound code again) (h : arrow again code st = .ok (id, st')) :
    Trace code st [.part .assignment] [id] st' := by
  obtain ⟨e, s, hpeek, h⟩ := bind_eq_ok.mp h
  obtain ⟨he, rfl⟩ := peek_eq_ok.mp hpeek
  obtain ⟨parameters, s₁, hparams, h⟩ := bind_eq_ok.mp h
  obtain ⟨ps, hps, htparams⟩ := arrowParameters_trace hag hparams
  obtain ⟨_, s₂, harrow, h⟩ := bind_eq_ok.mp h
  obtain ⟨htarrow, -⟩ := Trace.expect harrow
  obtain ⟨body, s₃, hbody, h⟩ := bind_eq_ok.mp h
  obtain ⟨g, hg, htbody⟩ := arrowBody_trace hag hbody
  have ht := (htparams.token htarrow).trans htbody
  rw [List.append_assoc] at ht
  exact ht.finish (.arrow hps hg) (start_of_at? he) (by decide) h

theorem assignment_trace (hag : Sound code again) (h : assignment again code st = .ok (id, st')) :
    Trace code st [.part .assignment] [id] st' := by
  obtain ⟨b, _, ⟨⟩, h⟩ := bind_eq_ok.mp h
  split at h
  · exact arrow_trace hag h
  obtain ⟨e, s, hpeek, h⟩ := bind_eq_ok.mp h
  obtain ⟨he, rfl⟩ := peek_eq_ok.mp hpeek
  obtain ⟨target, s₁, htarget, h⟩ := bind_eq_ok.mp h
  have ht := conditional_trace hag htarget
  obtain ⟨current, _, ⟨⟩, h⟩ := bind_eq_ok.mp h
  cases hat : code.at? s₁.pos with
  | none =>
      rw [hat] at h
      cases h
      exact ht.lift .conditional
  | some e' =>
      rw [hat] at h
      dsimp only at h
      split at h
      · next hoperator =>
          obtain ⟨-, s₂, ⟨⟩, h⟩ := bind_eq_ok.mp h
          obtain ⟨value, s₃, hvalue, h⟩ := bind_eq_ok.mp h
          have hbump := Trace.bump (t := .assignmentOperator) hat hoperator
          exact ((ht.token hbump).trans (hag.trace hvalue)).finish .assignment (start_of_at? he)
            (by decide) h
      · cases h
        exact ht.lift .conditional

/-- Behind a comma at least one more expression is read. -/
theorem sequenceTail_trace (hag : Sound code again) :
    ∀ {n : Nat} {expressions result : List NodeId} {st st' : ParseState},
      sequenceTail again expressions n code st = .ok (result, st') →
      ∃ ps new, Tail .assignment ps ∧ (n ≠ 0 → code.is st.pos "," = true → ps ≠ []) ∧
        result.reverse = expressions.reverse ++ new ∧ Trace code st ps new st' := by
  intro n
  induction n with
  | zero =>
      intro expressions result st st' h
      cases h
      exact ⟨[], [], .nil, fun hn => absurd rfl hn, by simp, .refl _⟩
  | succ n ih =>
      intro expressions result st st' h
      obtain ⟨b, s, heat, h⟩ := bind_eq_ok.mp h
      rw [eat_apply] at heat
      cases hcomma : code.is st.pos "," with
      | true =>
          rw [hcomma] at heat
          cases heat
          obtain ⟨id, s₁, hrun, h⟩ := bind_eq_ok.mp h
          obtain ⟨ps, new, hps, -, hresult, hrest⟩ := ih h
          exact ⟨_, id :: new, .cons hps, fun _ _ => List.cons_ne_nil _ _, by simp [hresult],
            ((Trace.bump_text hcomma).trans (hag.trace hrun)).trans hrest⟩
      | false =>
          rw [hcomma] at heat
          cases heat
          cases h
          exact ⟨[], [], .nil, fun _ hc => absurd hc Bool.false_ne_true, by simp, .refl _⟩

theorem expression_trace (hag : Sound code again) (h : expression again code st = .ok (id, st')) :
    Trace code st [.part .expression] [id] st' := by
  obtain ⟨e, s, hpeek, h⟩ := bind_eq_ok.mp h
  obtain ⟨he, rfl⟩ := peek_eq_ok.mp hpeek
  obtain ⟨head, s₁, hhead, h⟩ := bind_eq_ok.mp h
  have ht := assignment_trace hag hhead
  obtain ⟨b, _, ⟨⟩, h⟩ := bind_eq_ok.mp h
  split at h
  · next hcomma =>
      obtain ⟨n, _, ⟨⟩, h⟩ := bind_eq_ok.mp h
      obtain ⟨expressions, s₂, htail, h⟩ := bind_eq_ok.mp h
      obtain ⟨ps, new, hps, hne, hresult, htail⟩ := sequenceTail_trace hag htail
      have hlt := Code.lt_size_of_is hcomma
      rw [hresult] at h
      exact (ht.trans htail).finish (.sequence hps (hne (by omega) hcomma)) (start_of_at? he)
        (by decide) h
  · cases h
    exact ht.lift .assignment

end Grammar
end ScriptSpacing
