import ScriptSpacing.Proofs.Syntax.Trace

/-!
# `Proofs.Syntax.Soundness.Primary` — operands are read as the grammar says

One lemma for each production of `Syntax.Grammar.Primary`, in its order: where the production succeeds, the
tokens it passed are read as the part it stands for (`Trace`). A production re-enters the grammar through
`again`, of which the same is assumed (`Sound`).

Operator chains say one thing more. A chain of level `least` stops in front of no operator that binds as
tightly (`Ends`); this is what makes the left operand of the next operator one of its own level.
-/

namespace ScriptSpacing
namespace Grammar
open Parser

/-- No binary operator of level `least` or above stands at a position. -/
def Ends (code : Code) (least pos : Nat) : Prop :=
  ∀ e level kind, code.at? pos = some e → binaryOperator? e.2 = some (level, kind) → level < least

/-- **Every goal reads its part**, and an operator chain all of it. -/
def Sound (code : Code) (again : Grammar) : Prop :=
  ∀ goal st id st', again goal code st = .ok (id, st') →
    Trace code st [.part (.ofGoal goal)] [id] st' ∧
      ∀ least, goal = .binary least → Ends code least st'.pos

variable {code : Code} {again : Grammar} {st st' : ParseState} {id : NodeId}

theorem Sound.trace (h : Sound code again) {goal : Goal} (hrun : again goal code st = .ok (id, st')) :
    Trace code st [.part (.ofGoal goal)] [id] st' := (h goal st id st' hrun).1

/-- Where a token was seen, a node that begins there has its handle. -/
theorem start_of_at? {e : TokenId × Token} {p : Nat} (h : code.at? p = some e) :
    (code.at? p).map (·.1) = some e.1 := by
  rw [h]
  rfl

/-! ## Lists -/

/-- The loop puts each item in front of those already read, so the new ones are behind them in order. -/
theorem itemsUntil_trace {close : String} {item : Parser NodeId} {g : Part}
    (hitem : ∀ st id st', item code st = .ok (id, st') → Trace code st [.part g] [id] st') :
    ∀ {n : Nat} {items result : List NodeId} {st st' : ParseState},
      itemsUntil close item items n code st = .ok (result, st') →
      ∃ ps new, Items g ps ∧ result.reverse = items.reverse ++ new ∧ Trace code st ps new st' := by
  intro n
  induction n with
  | zero =>
      -- the count is out: one more item is read, with nothing behind it
      intro items result st st' h
      obtain ⟨id, s, hrun, ⟨⟩⟩ := bind_eq_ok.mp h
      exact ⟨_, [id], .last, List.reverse_cons, hitem _ _ _ hrun⟩
  | succ n ih =>
      intro items result st st' h
      obtain ⟨b, s, ⟨⟩, h⟩ := bind_eq_ok.mp h
      split at h
      · cases h
        exact ⟨[], [], .nil, by simp, .refl _⟩
      obtain ⟨id, s₁, hrun, h⟩ := bind_eq_ok.mp h
      have htrace := hitem _ _ _ hrun
      rcases Trace.eat_bind h with ⟨hcomma, h⟩ | h
      · obtain ⟨ps, new, hps, hresult, hrest⟩ := ih h
        exact ⟨_, id :: new, .cons hps, by simp [hresult],
          (htrace.token (.bump_text hcomma)).trans hrest⟩
      · cases h
        exact ⟨_, [id], .last, List.reverse_cons, htrace⟩

theorem delimited_trace {opener close : String} {item : Parser NodeId} {g : Part}
    (hitem : ∀ st id st', item code st = .ok (id, st') → Trace code st [.part g] [id] st')
    {ids : List NodeId} (h : delimited opener close item code st = .ok (ids, st')) :
    ∃ ps, Items g ps ∧ Trace code st (.text opener :: ps ++ [.text close]) ids st' ∧
      code.is st.pos opener = true := by
  obtain ⟨_, s₁, hopen, h⟩ := bind_eq_ok.mp h
  have htext := (expect_eq_ok.mp hopen).1
  obtain ⟨hopener, -⟩ := Trace.expect hopen
  obtain ⟨n, _, ⟨⟩, h⟩ := bind_eq_ok.mp h
  obtain ⟨items, s₂, hitems, h⟩ := bind_eq_ok.mp h
  obtain ⟨ps, new, hps, hnew, htrace⟩ := itemsUntil_trace hitem hitems
  obtain ⟨_, s₃, hclose, h⟩ := bind_eq_ok.mp h
  obtain ⟨hcloser, -⟩ := Trace.expect hclose
  cases h
  rw [hnew]
  exact ⟨ps, hps, (hopener.trans htrace).token hcloser, htext⟩

theorem statementsUntil_trace (hag : Sound code again) :
    ∀ {n : Nat} {body result : List NodeId} {st st' : ParseState},
      statementsUntil again body n code st = .ok (result, st') →
      ∃ k new, result.reverse = body.reverse ++ new ∧
        Trace code st (List.replicate k (.part .statement)) new st' := by
  intro n
  induction n with
  | zero =>
      intro body result st st' h
      cases h
      exact ⟨0, [], by simp, .refl _⟩
  | succ n ih =>
      intro body result st st' h
      obtain ⟨b, s, ⟨⟩, h⟩ := bind_eq_ok.mp h
      split at h
      · cases h
        exact ⟨0, [], by simp, .refl _⟩
      obtain ⟨b, s, ⟨⟩, h⟩ := bind_eq_ok.mp h
      split at h
      · cases h
        exact ⟨0, [], by simp, .refl _⟩
      obtain ⟨id, s₁, hrun, h⟩ := bind_eq_ok.mp h
      obtain ⟨k, new, hresult, hrest⟩ := ih h
      exact ⟨k + 1, id :: new, by simp [hresult], (hag.trace hrun).trans hrest⟩

theorem block_trace (hag : Sound code again) (h : block again code st = .ok (id, st')) :
    Trace code st [.part .block] [id] st' := by
  obtain ⟨start, s₁, hopen, h⟩ := bind_eq_ok.mp h
  obtain ⟨hopener, hstart⟩ := Trace.expect hopen
  obtain ⟨n, _, ⟨⟩, h⟩ := bind_eq_ok.mp h
  obtain ⟨body, s₂, hbody, h⟩ := bind_eq_ok.mp h
  obtain ⟨k, new, hnew, htrace⟩ := statementsUntil_trace hag hbody
  obtain ⟨_, s₃, hclose, h⟩ := bind_eq_ok.mp h
  obtain ⟨hcloser, -⟩ := Trace.expect hclose
  rw [hnew] at h
  exact ((hopener.trans htrace).token hcloser).finish (.block k) hstart (by decide) h

theorem arguments_trace (hag : Sound code again) {ids : List NodeId}
    (h : arguments again code st = .ok (ids, st')) :
    ∃ ps, IsArguments ps ∧ Trace code st ps ids st' := by
  obtain ⟨ps, hps, htrace, -⟩ := delimited_trace (fun _ _ _ => hag.trace) h
  exact ⟨_, ⟨ps, hps, rfl⟩, htrace⟩

/-! ## Names and functions -/

theorem bindingIdentifier_trace (h : bindingIdentifier code st = .ok (id, st')) :
    Trace code st [.part .binding] [id] st' := by
  obtain ⟨e, s, hpeek, h⟩ := bind_eq_ok.mp h
  obtain ⟨he, rfl⟩ := peek_eq_ok.mp hpeek
  dsimp only at h
  split at h
  · next hkind => exact .leaf .binding he (decide_eq_true hkind) (by decide) h
  · exact absurd h unexpected_ne_ok

theorem propertyName_trace (h : propertyName code st = .ok (id, st')) :
    Trace code st [.part .name] [id] st' := by
  obtain ⟨e, s, hpeek, h⟩ := bind_eq_ok.mp h
  obtain ⟨he, rfl⟩ := peek_eq_ok.mp hpeek
  dsimp only at h
  split at h
  · next hname => exact .leaf .name he hname (by decide) h
  · exact absurd h unexpected_ne_ok

/-- The name of a function: a declaration has one. -/
theorem functionName_trace {kind : Node.Kind} {ids : List NodeId}
    (h : functionName kind code st = .ok (ids, st')) :
    ∃ ps, Optional [.part .binding] ps ∧ (kind = .functionDeclaration → ps = [.part .binding]) ∧
      Trace code st ps ids st' := by
  obtain ⟨b, s, ⟨⟩, h⟩ := bind_eq_ok.mp h
  split at h
  · obtain ⟨id, s₁, hrun, h⟩ := bind_eq_ok.mp h
    cases h
    exact ⟨_, .present, fun _ => rfl, bindingIdentifier_trace hrun⟩
  · next hcond =>
      cases h
      refine ⟨_, .absent, fun hk => ?_, .refl _⟩
      simp [hk] at hcond

/-- A function, up to its node. -/
theorem function_trace (hag : Sound code again) {kind : Node.Kind} {g : Part}
    (hplain : kind ∉ linkingKinds)
    (hrule : ∀ {name args : List Symbol}, Optional [.part .binding] name →
      (kind = .functionDeclaration → name = [.part .binding]) → IsArguments args →
      Rule g kind (.text "function" :: name ++ args ++ [.part .block]))
    (h : function again kind code st = .ok (id, st')) : Trace code st [.part g] [id] st' := by
  obtain ⟨start, s₁, hword, h⟩ := bind_eq_ok.mp h
  obtain ⟨hfunction, hstart⟩ := Trace.expect hword
  obtain ⟨name, s₂, hname, h⟩ := bind_eq_ok.mp h
  obtain ⟨ns, hns, hdecl, htname⟩ := functionName_trace hname
  obtain ⟨parameters, s₃, hparams, h⟩ := bind_eq_ok.mp h
  obtain ⟨ps, hps, htparams⟩ := arguments_trace hag hparams
  obtain ⟨body, s₄, hbody, h⟩ := bind_eq_ok.mp h
  have htbody := block_trace hag hbody
  exact (((hfunction.trans htname).trans htparams).trans htbody).finish (hrule hns hdecl hps)
    hstart hplain h

theorem functionExpression_trace (hag : Sound code again)
    (h : function again .functionExpression code st = .ok (id, st')) :
    Trace code st [.part .primary] [id] st' :=
  function_trace hag (by decide) (fun hname _ hargs => .functionExpression hname hargs) h

theorem functionDeclaration_trace (hag : Sound code again)
    (h : function again .functionDeclaration code st = .ok (id, st')) :
    Trace code st [.part .statement] [id] st' := by
  refine function_trace hag (by decide) (fun _ hname hargs => ?_) h
  rw [hname rfl]
  exact .functionDeclaration hargs

/-! ## Arrays and objects -/

theorem elementsUntil_trace (hag : Sound code again) :
    ∀ {n : Nat} {elements result : List NodeId} {st st' : ParseState},
      elementsUntil again elements n code st = .ok (result, st') →
      ∃ ps new, Elements ps ∧ result.reverse = elements.reverse ++ new ∧ Trace code st ps new st' := by
  intro n
  induction n with
  | zero =>
      intro elements result st st' h
      obtain ⟨id, s, hrun, ⟨⟩⟩ := bind_eq_ok.mp h
      exact ⟨_, [id], .last, List.reverse_cons, hag.trace hrun⟩
  | succ n ih =>
      intro elements result st st' h
      obtain ⟨b, s, ⟨⟩, h⟩ := bind_eq_ok.mp h
      split at h
      · cases h
        exact ⟨[], [], .nil, by simp, .refl _⟩
      rcases Trace.eat_bind h with ⟨hcomma, h⟩ | h
      · obtain ⟨ps, new, hps, hresult, hrest⟩ := ih h
        exact ⟨_, new, .hole hps, hresult, (Trace.bump_text hcomma).trans hrest⟩
      obtain ⟨id, s₁, hrun, h⟩ := bind_eq_ok.mp h
      have htrace := hag.trace hrun
      rcases Trace.eat_bind h with ⟨hcomma, h⟩ | h
      · obtain ⟨ps, new, hps, hresult, hrest⟩ := ih h
        exact ⟨_, id :: new, .cons hps, by simp [hresult],
          (htrace.token (.bump_text hcomma)).trans hrest⟩
      · cases h
        exact ⟨_, [id], .last, List.reverse_cons, htrace⟩

theorem array_trace (hag : Sound code again) (h : array again code st = .ok (id, st')) :
    Trace code st [.part .primary] [id] st' := by
  obtain ⟨start, s₁, hopen, h⟩ := bind_eq_ok.mp h
  obtain ⟨hopener, hstart⟩ := Trace.expect hopen
  obtain ⟨n, _, ⟨⟩, h⟩ := bind_eq_ok.mp h
  obtain ⟨elements, s₂, helements, h⟩ := bind_eq_ok.mp h
  obtain ⟨ps, new, hps, hnew, htrace⟩ := elementsUntil_trace hag helements
  obtain ⟨_, s₃, hclose, h⟩ := bind_eq_ok.mp h
  obtain ⟨hcloser, -⟩ := Trace.expect hclose
  rw [hnew] at h
  exact ((hopener.trans htrace).token hcloser).finish (.array hps) hstart (by decide) h

theorem propertyKey_trace (hag : Sound code again)
    (h : propertyKey again code st = .ok (id, st')) : Trace code st [.part .key] [id] st' := by
  obtain ⟨e, s, hpeek, h⟩ := bind_eq_ok.mp h
  obtain ⟨he, rfl⟩ := peek_eq_ok.mp hpeek
  rcases Trace.eat_bind h with ⟨hbracket, h⟩ | h
  · obtain ⟨key, s₂, hkey, h⟩ := bind_eq_ok.mp h
    have htkey := hag.trace hkey
    obtain ⟨_, s₃, hclose, h⟩ := bind_eq_ok.mp h
    obtain ⟨htext, -, rfl⟩ := expect_eq_ok.mp hclose
    cases h
    exact ⟨htkey.kept, htkey.grown, htkey.listed, .wrap .computedKey hbracket htkey.reads htext (.nil _)⟩
  · split at h
    · next hcond => cases hcond
    split at h
    · next hkind => exact .leaf .literalKey he hkind (by decide) h
    · exact (propertyName_trace h).lift .name

theorem propertyValue_trace (hag : Sound code again) {ids : List NodeId}
    (h : propertyValue again code st = .ok (ids, st')) :
    ∃ ps, Optional [.text ":", .part .assignment] ps ∧ Trace code st ps ids st' := by
  rcases Trace.eat_bind h with ⟨hcolon, h⟩ | h
  · obtain ⟨value, s₂, hvalue, h⟩ := bind_eq_ok.mp h
    cases h
    exact ⟨_, .present, (Trace.bump_text hcolon).trans (hag.trace hvalue)⟩
  · cases h
    exact ⟨_, .absent, .refl _⟩

theorem property_trace (hag : Sound code again) (h : property again code st = .ok (id, st')) :
    Trace code st [.part .property] [id] st' := by
  obtain ⟨e, s, hpeek, h⟩ := bind_eq_ok.mp h
  obtain ⟨he, rfl⟩ := peek_eq_ok.mp hpeek
  obtain ⟨key, s₁, hkey, h⟩ := bind_eq_ok.mp h
  obtain ⟨value, s₂, hvalue, h⟩ := bind_eq_ok.mp h
  obtain ⟨ps, hps, htvalue⟩ := propertyValue_trace hag hvalue
  exact ((propertyKey_trace hag hkey).trans htvalue).finish (.property hps) (start_of_at? he)
    (by decide) h

theorem object_trace (hag : Sound code again) (h : object again code st = .ok (id, st')) :
    Trace code st [.part .primary] [id] st' := by
  obtain ⟨e, s, hpeek, h⟩ := bind_eq_ok.mp h
  obtain ⟨he, rfl⟩ := peek_eq_ok.mp hpeek
  obtain ⟨properties, s₁, hprops, h⟩ := bind_eq_ok.mp h
  obtain ⟨ps, hps, htrace, -⟩ := delimited_trace (fun _ _ _ => property_trace hag) hprops
  exact htrace.finish (.object hps) (start_of_at? he) (by decide) h

/-! ## Primary expressions -/

theorem group_trace (hag : Sound code again) (h : group again code st = .ok (id, st')) :
    Trace code st [.part .primary] [id] st' := by
  obtain ⟨_, s₁, hopen, h⟩ := bind_eq_ok.mp h
  obtain ⟨htopen, -, rfl⟩ := expect_eq_ok.mp hopen
  obtain ⟨inner, s₂, hinner, h⟩ := bind_eq_ok.mp h
  have htinner := hag.trace hinner
  obtain ⟨_, s₃, hclose, h⟩ := bind_eq_ok.mp h
  obtain ⟨htclose, -, rfl⟩ := expect_eq_ok.mp hclose
  cases h
  -- the parentheses leave no node: the inner one stands for the group
  exact ⟨htinner.kept, htinner.grown, htinner.listed,
    .wrap .group htopen htinner.reads htclose (.nil _)⟩

theorem primary_trace (hag : Sound code again) (h : primary again code st = .ok (id, st')) :
    Trace code st [.part .primary] [id] st' := by
  obtain ⟨⟨start, t⟩, s, hpeek, h⟩ := bind_eq_ok.mp h
  obtain ⟨he, rfl⟩ := peek_eq_ok.mp hpeek
  dsimp only at h
  have hliteral : Terminal.literal.accepts t = true →
      leaf .literal .expression code st = .ok (id, st') →
      Trace code st [.part .primary] [id] st' := by
    intro hacc h
    exact .leaf .literal he hacc (by decide) h
  cases hkind : t.kind with
  | numeric => rw [hkind] at h; exact hliteral (by simp [Terminal.accepts, hkind]) h
  | string => rw [hkind] at h; exact hliteral (by simp [Terminal.accepts, hkind]) h
  | boolean => rw [hkind] at h; exact hliteral (by simp [Terminal.accepts, hkind]) h
  | null => rw [hkind] at h; exact hliteral (by simp [Terminal.accepts, hkind]) h
  | identifier =>
      rw [hkind] at h
      exact .leaf .identifier he (by simp [Terminal.accepts, hkind]) (by decide) h
  | keyword =>
      rw [hkind] at h
      dsimp only at h
      split at h
      · next hthis => exact .leaf .this he hthis (by decide) h
      split at h
      · exact functionExpression_trace hag h
      · exact absurd h unexpected_ne_ok
  | punctuator =>
      rw [hkind] at h
      dsimp only at h
      split at h
      · exact group_trace hag h
      split at h
      · exact array_trace hag h
      split at h
      · exact object_trace hag h
      · exact absurd h unexpected_ne_ok
  | whiteSpace => rw [hkind] at h; exact absurd h unexpected_ne_ok
  | lineBreak => rw [hkind] at h; exact absurd h unexpected_ne_ok
  | lineComment => rw [hkind] at h; exact absurd h unexpected_ne_ok
  | blockComment => rw [hkind] at h; exact absurd h unexpected_ne_ok

/-! ## Members and calls -/

section Members

variable {s : ParseState} {start : TokenId} {object : NodeId} {ps : List Symbol} {g : Part}

theorem namedMember_trace (ht : Trace code st ps [object] s)
    (hstart : (code.at? st.pos).map (·.1) = some start)
    (hrule : Rule g .memberExpression (ps ++ [.part .name]))
    (h : namedMember start object code s = .ok (id, st')) : Trace code st [.part g] [id] st' := by
  obtain ⟨name, s₁, hname, h⟩ := bind_eq_ok.mp h
  exact (ht.trans (propertyName_trace hname)).finish hrule hstart (by decide) h

theorem computedMember_trace (hag : Sound code again) (ht : Trace code st ps [object] s)
    (hstart : (code.at? st.pos).map (·.1) = some start)
    (hrule : Rule g .memberExpression (ps ++ [.text "[", .part .expression, .text "]"]))
    (h : computedMember again start object code s = .ok (id, st')) :
    Trace code st [.part g] [id] st' := by
  obtain ⟨_, s₁, hopen, h⟩ := bind_eq_ok.mp h
  obtain ⟨hopener, -⟩ := Trace.expect hopen
  obtain ⟨name, s₂, hname, h⟩ := bind_eq_ok.mp h
  obtain ⟨_, s₃, hclose, h⟩ := bind_eq_ok.mp h
  obtain ⟨hcloser, -⟩ := Trace.expect hclose
  have hbrackets := (hopener.trans (hag.trace hname)).token hcloser
  exact (ht.trans hbrackets).finish hrule hstart (by decide) h

theorem call_trace (hag : Sound code again) (ht : Trace code st ps [object] s)
    (hstart : (code.at? st.pos).map (·.1) = some start)
    (hrule : ∀ {args}, IsArguments args → Rule g .callExpression (ps ++ args))
    (h : call again start object code s = .ok (id, st')) : Trace code st [.part g] [id] st' := by
  obtain ⟨args, s₁, hargs, h⟩ := bind_eq_ok.mp h
  obtain ⟨as, has, htargs⟩ := arguments_trace hag hargs
  exact (ht.trans htargs).finishCall (hrule has) hstart (.inl rfl) h

/-- Members after a callee: the part read so far stays a callee, with one member more each time. -/
theorem members_trace (hag : Sound code again)
    (hstart : (code.at? st.pos).map (·.1) = some start) :
    ∀ {n : Nat} {object : NodeId} {s : ParseState}, Trace code st [.part .callee] [object] s →
      members again start object n code s = .ok (id, st') →
      Trace code st [.part .callee] [id] st' := by
  intro n
  induction n with
  | zero =>
      intro object s ht h
      cases h
      exact ht
  | succ n ih =>
      intro object s ht h
      rcases Trace.eat_bind h with ⟨hdot, h⟩ | h
      · obtain ⟨member, s₁, hmember, h⟩ := bind_eq_ok.mp h
        exact ih (namedMember_trace (ht.token (.bump_text hdot)) hstart .calleeNamedMember hmember) h
      obtain ⟨b, _, ⟨⟩, h⟩ := bind_eq_ok.mp h
      split at h
      · obtain ⟨member, s₁, hmember, h⟩ := bind_eq_ok.mp h
        exact ih (computedMember_trace hag ht hstart .calleeComputedMember hmember) h
      · cases h
        exact ht

/-- Members and calls after an operand, which stays an operand. -/
theorem suffixes_trace (hag : Sound code again)
    (hstart : (code.at? st.pos).map (·.1) = some start) :
    ∀ {n : Nat} {operand : NodeId} {s : ParseState}, Trace code st [.part .operand] [operand] s →
      suffixes again start operand n code s = .ok (id, st') →
      Trace code st [.part .operand] [id] st' := by
  intro n
  induction n with
  | zero =>
      intro operand s ht h
      cases h
      exact ht
  | succ n ih =>
      intro operand s ht h
      obtain ⟨b, _, ⟨⟩, h⟩ := bind_eq_ok.mp h
      split at h
      · obtain ⟨node, s₁, hnode, h⟩ := bind_eq_ok.mp h
        exact ih (call_trace hag ht hstart (.call .absent) hnode) h
      rcases Trace.eat_bind h with ⟨hchain, h⟩ | h
      -- behind `?.` a call, a member in brackets or a name
      · have htchain := ht.token (.bump_text hchain)
        obtain ⟨b, _, ⟨⟩, h⟩ := bind_eq_ok.mp h
        split at h
        · obtain ⟨node, s₁, hnode, h⟩ := bind_eq_ok.mp h
          exact ih (call_trace hag htchain hstart (.call .present) hnode) h
        obtain ⟨b, _, ⟨⟩, h⟩ := bind_eq_ok.mp h
        split at h
        · obtain ⟨node, s₁, hnode, h⟩ := bind_eq_ok.mp h
          exact ih (computedMember_trace hag htchain hstart (.computedMember .present) hnode) h
        · obtain ⟨node, s₁, hnode, h⟩ := bind_eq_ok.mp h
          exact ih (namedMember_trace htchain hstart (.namedMember (.inr rfl)) hnode) h
      rcases Trace.eat_bind h with ⟨hdot, h⟩ | h
      · obtain ⟨node, s₁, hnode, h⟩ := bind_eq_ok.mp h
        exact ih (namedMember_trace (ht.token (.bump_text hdot)) hstart
          (.namedMember (.inl rfl)) hnode) h
      obtain ⟨b, _, ⟨⟩, h⟩ := bind_eq_ok.mp h
      split at h
      · obtain ⟨node, s₁, hnode, h⟩ := bind_eq_ok.mp h
        exact ih (computedMember_trace hag ht hstart (.computedMember .absent) hnode) h
      · cases h
        exact ht

end Members

/-- What follows the head of a construction: members, arguments or none, the node. -/
theorem construction_rest (hag : Sound code again) {s s₁ : ParseState}
    {start calleeStart : TokenId} {head : NodeId} (hnew : Trace code st [.text "new"] [] s)
    (hstart : (code.at? st.pos).map (·.1) = some start)
    (hcallee : (code.at? s.pos).map (·.1) = some calleeStart)
    (ht : Trace code s [.part .callee] [head] s₁) {n : Nat}
    (h : (members again calleeStart head n >>= fun callee => check "(" >>= fun b =>
      if b then arguments again >>= fun args => finishCall .newExpression start callee args
      else pure [] >>= fun args => finishCall .newExpression start callee args) code s₁ =
        .ok (id, st')) :
    Trace code st [.part .construction] [id] st' := by
  obtain ⟨callee, s₂, hmembers, h⟩ := bind_eq_ok.mp h
  have htnew := hnew.trans (members_trace hag hcallee ht hmembers)
  obtain ⟨b, _, ⟨⟩, h⟩ := bind_eq_ok.mp h
  split at h
  · obtain ⟨args, s₃, hargs, h⟩ := bind_eq_ok.mp h
    obtain ⟨as, has, htargs⟩ := arguments_trace hag hargs
    exact (htnew.trans htargs).finishCall (.construction (.inr has)) hstart (.inr rfl) h
  · exact htnew.finishCall (.construction (.inl rfl)) hstart (.inr rfl) h

theorem construction_trace (hag : Sound code again)
    (h : construction again code st = .ok (id, st')) :
    Trace code st [.part .construction] [id] st' := by
  obtain ⟨start, s, hword, h⟩ := bind_eq_ok.mp h
  obtain ⟨hnew, hstart⟩ := Trace.expect hword
  obtain ⟨e, s', hpeek, h⟩ := bind_eq_ok.mp h
  obtain ⟨he, rfl⟩ := peek_eq_ok.mp hpeek
  have hcallee := start_of_at? he
  obtain ⟨b, _, ⟨⟩, h⟩ := bind_eq_ok.mp h
  split at h
  · obtain ⟨head, s₁, hhead, h⟩ := bind_eq_ok.mp h
    obtain ⟨n, _, ⟨⟩, h⟩ := bind_eq_ok.mp h
    exact construction_rest hag hnew hstart hcallee ((hag.trace hhead).lift .calleeConstruction) h
  · obtain ⟨head, s₁, hhead, h⟩ := bind_eq_ok.mp h
    obtain ⟨n, _, ⟨⟩, h⟩ := bind_eq_ok.mp h
    exact construction_rest hag hnew hstart hcallee ((primary_trace hag hhead).lift .calleePrimary) h

theorem callMember_trace (hag : Sound code again) (h : callMember again code st = .ok (id, st')) :
    Trace code st [.part .operand] [id] st' := by
  obtain ⟨e, s, hpeek, h⟩ := bind_eq_ok.mp h
  obtain ⟨he, rfl⟩ := peek_eq_ok.mp hpeek
  have hstart := start_of_at? he
  obtain ⟨b, _, ⟨⟩, h⟩ := bind_eq_ok.mp h
  split at h
  · obtain ⟨head, s₁, hhead, h⟩ := bind_eq_ok.mp h
    obtain ⟨n, _, ⟨⟩, h⟩ := bind_eq_ok.mp h
    exact suffixes_trace hag hstart ((construction_trace hag hhead).lift .operandConstruction) h
  · obtain ⟨head, s₁, hhead, h⟩ := bind_eq_ok.mp h
    obtain ⟨n, _, ⟨⟩, h⟩ := bind_eq_ok.mp h
    exact suffixes_trace hag hstart ((primary_trace hag hhead).lift .operandPrimary) h

end Grammar
end ScriptSpacing
