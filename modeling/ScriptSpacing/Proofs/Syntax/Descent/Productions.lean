import ScriptSpacing.Proofs.Syntax.Descent.Follows
import ScriptSpacing.Syntax.Descent.Productions
import ScriptSpacing.Syntax.Parse

/-!
# `Proofs.Syntax.Descent.Productions` — every production of a descent follows the grammar

One lemma for each production, in the order of the grammar's own modules. A production is compared with its
counterpart along its text, and passes at least one token. Where it calls another one, that has been compared
before, or a token has been passed in between (`Reenters`), so that fewer are left. A loop is an induction on
the count that its counterpart has: as long as a round passes a token, the count does not run out before the
tokens do, and behind the last token both loops stop.
-/

namespace ScriptSpacing
namespace Descent

/-- The descent for a goal of the grammar. -/
def ofGoal : Goal → Descent NodeId
  | .statement    => Call.statement.descend
  | .expression   => Call.expression.descend
  | .assignment   => Call.assignment.descend
  | .binary least => (Call.binary least).descend
  | .unary        => Call.unary.descend
  | .construction => Call.construction.descend

/-- **From a position on, every goal is followed**, and passes at least one token. -/
def Reenters (input : Input) (code : Code) (again : Grammar) (base : Nat) : Prop :=
  ∀ goal st, base ≤ st.pos → Follows input code (st.pos + 1) st (ofGoal goal) (again goal)

namespace Follows

variable {input : Input} {code : Code} {again : Grammar} {base low : Nat} {st : ParseState}

section Leaves

variable (h : input.Shows code)
include h

theorem leaf {e : TokenId × Token} (he : code.at? st.pos = some e) (kind : Node.Kind) (w : Wanted) :
    Follows input code (st.pos + 1) st (Descent.leaf kind e.1) (Parser.leaf kind w) :=
  peeked he (bump h he (finish h (Nat.lt_succ_self _) kind e.1 []))

theorem propertyName :
    Follows input code (st.pos + 1) st Call.propertyName.descend Grammar.propertyName := by
  rw [Call.descend]
  exact start h _ fun _ he => token h he (ite (fun _ => leaf h he _ _) fun _ => unexpected h _)

theorem bindingIdentifier :
    Follows input code (st.pos + 1) st Call.bindingIdentifier.descend Grammar.bindingIdentifier := by
  rw [Call.descend]
  exact start h _ fun _ he => token h he (ite (fun _ => leaf h he _ _) fun _ => unexpected h _)

/-- The name of a function may be missing, so nothing need be passed. -/
theorem functionName (kind : Node.Kind) :
    Follows input code st.pos st (Call.functionName kind).descend (Grammar.functionName kind) := by
  have hname : Follows input code st.pos st (do return [← Call.bindingIdentifier.descend])
      (do return [← Grammar.bindingIdentifier]) :=
    (bindingIdentifier h).bind fun _ _ hle _ => pure hle _
  by_cases hkind : kind = .functionDeclaration
  · rw [Call.descend, if_pos hkind]
    intro hsize
    rw [Grammar.functionName, Parser.bind_apply, Parser.check_apply, decide_eq_true hkind]
    exact hname hsize
  · rw [Call.descend, if_neg hkind, Grammar.functionName, decide_eq_false hkind]
    refine check h "(" ?_
    cases code.is st.pos "(" with
    | true  => exact pure (Nat.le_refl _) _
    | false => exact hname

end Leaves

/-! ## Lists -/

section Productions

variable (h : input.Shows code)
include h

theorem items (close : String) (i : Item) {item : Parser NodeId}
    (hitem : ∀ st, base ≤ st.pos → Follows input code (st.pos + 1) st (Call.item i).descend item) :
    ∀ n items low st, base ≤ st.pos → low ≤ st.pos → code.size ≤ st.pos + n →
      Follows input code low st (Call.items close i items).descend
        (Grammar.itemsUntil close item items n) := by
  intro n
  induction n with
  | zero =>
      intro items low st hpos hlow hn
      rw [Call.descend]
      refine checkPast h hn _ ((hitem st hpos).bind fun _ st' _ hlt hsize => ?_)
      omega
  | succ n ih =>
      intro items low st hpos hlow hn
      rw [Call.descend]
      refine check h close (ite (fun _ => pure hlow _) fun _ => ?_)
      refine (hitem st hpos).bind fun _ st' hle _ => eat h "," (fun _ => ?_) fun _ => ?_
      · exact ih _ _ _ (by dsimp only; omega) (by dsimp only; omega) (by dsimp only; omega)
      · exact pure (by omega) _

theorem delimited (opener close : String) (i : Item) {item : Parser NodeId}
    (hitem : ∀ st, base ≤ st.pos → Follows input code (st.pos + 1) st (Call.item i).descend item)
    (hpos : base ≤ st.pos + 1) :
    Follows input code (st.pos + 1) st (Call.delimited opener close i).descend
      (Grammar.delimited opener close item) := by
  rw [Call.descend]
  refine expect h opener fun _ _ => left fun n hn => ?_
  refine (items h close i hitem _ [] _ _ hpos (Nat.le_refl _)
    hn).bind fun _ st' hle _ => ?_
  exact expect h close fun _ _ => pure (Nat.le_succ_of_le hle) _

variable (hag : Reenters input code again base)
include hag

theorem statements : ∀ n body low st, base ≤ st.pos → low ≤ st.pos → code.size ≤ st.pos + n →
    Follows input code low st (Call.statements body).descend
      (Grammar.statementsUntil again body n) := by
  intro n
  induction n with
  | zero =>
      intro body low st hpos hlow hn
      rw [Call.descend]
      refine look h.isAtEnd_apply ?_
      rw [decide_eq_true (show code.size ≤ st.pos from hn)]
      exact pure hlow _
  | succ n ih =>
      intro body low st hpos hlow hn
      rw [Call.descend]
      refine atEnd h (ite (fun _ => pure hlow _) fun _ => ?_)
      refine check h _ (ite (fun _ => pure hlow _) fun _ => ?_)
      exact (hag .statement st hpos).bind fun _ st' _ _ => ih _ _ _ (by omega) (by omega) (by omega)

theorem block (hpos : base ≤ st.pos + 1) :
    Follows input code (st.pos + 1) st Call.block.descend (Grammar.block again) := by
  rw [Call.descend]
  refine expect h _ fun _ _ => left fun n hn => ?_
  refine (statements h hag _ [] _ _ hpos (Nat.le_refl _)
    hn).bind fun _ st' hle _ => ?_
  exact expect h _ fun _ _ => finish h (Nat.le_succ_of_le hle) _ _ _

theorem arguments (hpos : base ≤ st.pos + 1) :
    Follows input code (st.pos + 1) st (Call.delimited "(" ")" .assignment).descend
      (Grammar.arguments again) := by
  refine delimited h "(" ")" .assignment (fun st hst => ?_) hpos
  rw [Call.descend]
  exact hag .assignment st hst

theorem function (kind : Node.Kind) (hpos : base ≤ st.pos + 1) :
    Follows input code (st.pos + 1) st (Call.function kind).descend (Grammar.function again kind) := by
  rw [Call.descend]
  refine expect h _ fun _ _ => ?_
  refine (functionName h kind).bind fun _ st₁ hle _ => ?_
  dsimp only at hle
  refine (arguments h hag (by omega)).bind fun _ st₂ _ _ => ?_
  refine (block h hag (by omega)).bind fun _ st₃ _ _ => ?_
  exact finish h (by omega) _ _ _

/-! ## Arrays and objects -/

theorem elements : ∀ n elements low st, base ≤ st.pos → low ≤ st.pos → code.size ≤ st.pos + n →
    Follows input code low st (Call.elements elements).descend
      (Grammar.elementsUntil again elements n) := by
  intro n
  induction n with
  | zero =>
      intro elements low st hpos hlow hn
      rw [Call.descend]
      refine checkPast h hn _ (eatPast h hn _ ?_)
      refine (hag .assignment st hpos).bind fun _ st' _ hlt hsize => ?_
      omega
  | succ n ih =>
      intro elements low st hpos hlow hn
      rw [Call.descend]
      refine check h _ (ite (fun _ => pure hlow _) fun _ => ?_)
      refine eat h "," (fun _ => ?_) fun _ => ?_
      · exact ih _ _ _ (by dsimp only; omega) (by dsimp only; omega) (by dsimp only; omega)
      refine (hag .assignment st hpos).bind fun _ st' hle _ => eat h "," (fun _ => ?_) fun _ => ?_
      · exact ih _ _ _ (by dsimp only; omega) (by dsimp only; omega) (by dsimp only; omega)
      · exact pure (by omega) _

theorem array (hpos : base ≤ st.pos + 1) :
    Follows input code (st.pos + 1) st Call.array.descend (Grammar.array again) := by
  rw [Call.descend]
  refine expect h _ fun _ _ => left fun n hn => ?_
  refine (elements h hag _ [] _ _ hpos (Nat.le_refl _)
    hn).bind fun _ st' hle _ => ?_
  exact expect h _ fun _ _ => finish h (Nat.le_succ_of_le hle) _ _ _

theorem propertyKey (hpos : base ≤ st.pos + 1) :
    Follows input code (st.pos + 1) st Call.propertyKey.descend (Grammar.propertyKey again) := by
  rw [Call.descend]
  refine start h _ fun e he => eat h "[" (fun _ => ?_) fun _ => ?_
  · refine (hag .assignment _ hpos).bind fun _ st' hle _ => ?_
    exact expect h _ fun _ _ => pure (Nat.le_succ_of_le hle) _
  · refine token h he ?_
    generalize e.2.kind = kind
    cases kind with
    | string | numeric => exact leaf h he _ _
    | _ => exact propertyName h

theorem property (hpos : base ≤ st.pos + 1) :
    Follows input code (st.pos + 1) st Call.property.descend (Grammar.property again) := by
  rw [Call.descend]
  refine start h _ fun e _ => ?_
  refine (propertyKey h hag hpos).bind fun key st₁ _ hlt => ?_
  refine eatThen h ":" (hag .assignment _ (by dsimp only; omega)) (fun value st₂ hle _ => ?_) ?_
  · exact finish h (by omega) _ _ _
  · exact finish h (by omega) _ _ _

theorem object {e : TokenId × Token} (he : code.at? st.pos = some e) (hpos : base ≤ st.pos + 1) :
    Follows input code (st.pos + 1) st Call.object.descend (Grammar.object again) := by
  rw [Call.descend]
  refine startAt h he ?_
  refine (delimited h _ _ .property (fun st hst => ?_) hpos).bind fun _ st' _ hlt => ?_
  · rw [Call.descend]
    exact property h hag (Nat.le_succ_of_le hst)
  · exact finish h hlt _ _ _

/-! ## Primary expressions -/

theorem primary (hpos : base ≤ st.pos + 1) :
    Follows input code (st.pos + 1) st Call.primary.descend (Grammar.primary again) := by
  rw [Call.descend]
  refine start h _ fun e he => token h he ?_
  have hgroup : e.2.is "(" = true → Follows input code (st.pos + 1) st
      (Descent.bump >>= fun _ => Call.expression.descend >>= fun inner =>
        Descent.expect ")" >>= fun _ => Pure.pure inner) (Grammar.group again) := fun hopen => by
    refine bumpExpect h he hopen ?_
    refine (hag .expression _ hpos).bind fun _ st' hle _ => ?_
    exact expect h _ fun _ _ => pure (Nat.le_succ_of_le hle) _
  dsimp only
  generalize e.2.kind = kind
  cases kind with
  | numeric | string | boolean | null | identifier => exact leaf h he _ _
  | keyword =>
      exact ite (fun _ => leaf h he _ _) fun _ =>
        ite (fun _ => function h hag _ hpos) fun _ => unexpected h _
  | punctuator =>
      exact ite hgroup fun _ => ite (fun _ => array h hag hpos) fun _ =>
        ite (fun _ => object h hag he hpos) fun _ => unexpected h _
  | whiteSpace | lineBreak | lineComment | blockComment => exact unexpected h _

/-! ## Members and calls -/

omit hag in
theorem namedMember (start : TokenId) (object : NodeId) :
    Follows input code (st.pos + 1) st
      (Call.propertyName.descend >>= fun name => Descent.finish .memberExpression start [object, name])
      (Grammar.namedMember start object) :=
  (propertyName h).bind fun _ _ _ hlt => finish h hlt _ _ _

theorem call (start : TokenId) (callee : NodeId) (hpos : base ≤ st.pos + 1) :
    Follows input code (st.pos + 1) st
      ((Call.delimited "(" ")" .assignment).descend >>= Descent.finishCall .callExpression start callee)
      (Grammar.call again start callee) :=
  (arguments h hag hpos).bind fun _ _ _ hlt => finishCall h hlt _ _ _ _

theorem computedMember (start : TokenId) (object : NodeId) (hpos : base ≤ st.pos + 1) :
    Follows input code (st.pos + 1) st (Call.computedMember start object).descend
      (Grammar.computedMember again start object) := by
  rw [Call.descend]
  refine expect h _ fun _ _ => ?_
  refine (hag .expression _ hpos).bind fun _ st' _ hlt => ?_
  dsimp only at hlt
  exact expect h _ fun _ _ => finish h (by dsimp only; omega) _ _ _

theorem members (start : TokenId) : ∀ n object low st, base ≤ st.pos → low ≤ st.pos →
    code.size ≤ st.pos + n →
    Follows input code low st (Call.members start object).descend
      (Grammar.members again start object n) := by
  intro n
  induction n with
  | zero =>
      intro object low st hpos hlow hn
      rw [Call.descend]
      exact eatPast h hn _ (checkPast h hn _ (pure hlow _))
  | succ n ih =>
      intro object low st hpos hlow hn
      rw [Call.descend]
      refine eat h "." (fun _ => ?_) fun _ => ?_
      · refine (namedMember h start object).seq fun _ st' hle _ => ?_
        dsimp only at hle
        exact ih _ _ _ (by omega) (by omega) (by omega)
      · refine check h "[" (ite (fun _ => ?_) fun _ => pure hlow _)
        exact (computedMember h hag start object (Nat.le_succ_of_le hpos)).bind fun _ st' _ hlt =>
          ih _ _ _ (by omega) (by omega) (by omega)

theorem suffixes (start : TokenId) : ∀ n operand low st, base ≤ st.pos → low ≤ st.pos →
    code.size ≤ st.pos + n →
    Follows input code low st (Call.suffixes start operand).descend
      (Grammar.suffixes again start operand n) := by
  intro n
  induction n with
  | zero =>
      intro operand low st hpos hlow hn
      rw [Call.descend]
      refine checkPast h hn _ (eatPast h hn _ ?_)
      exact eatPast h hn _ (checkPast h hn _ (pure hlow _))
  | succ n ih =>
      intro operand low st hpos hlow hn
      rw [Call.descend]
      have hnext : ∀ operand st', st.pos + 1 ≤ st'.pos →
          Follows input code low st' (Call.suffixes start operand).descend
            (Grammar.suffixes again start operand n) := fun operand st' hlt =>
        ih operand _ st' (by omega) (by omega) (by omega)
      refine check h "(" (ite (fun _ => ?_) fun _ => ?_)
      · exact (call h hag start operand (Nat.le_succ_of_le hpos)).seq fun _ _ _ hlt => hnext _ _ hlt
      refine eat h "?." (fun _ => ?_) fun _ => ?_
      · have hbase : base ≤ st.pos + 1 + 1 := Nat.le_succ_of_le (Nat.le_succ_of_le hpos)
        refine check h "(" (ite (fun _ => ?_) fun _ => check h "[" (ite (fun _ => ?_) fun _ => ?_))
        · exact (call h hag start operand hbase).seq fun _ _ hle _ => hnext _ _ hle
        · exact (computedMember h hag start operand hbase).bind fun _ _ hle _ => hnext _ _ hle
        · exact (namedMember h start operand).seq fun _ _ hle _ => hnext _ _ hle
      refine eat h "." (fun _ => ?_) fun _ => ?_
      · exact (namedMember h start operand).seq fun _ _ hle _ => hnext _ _ hle
      · refine check h "[" (ite (fun _ => ?_) fun _ => pure hlow _)
        exact (computedMember h hag start operand (Nat.le_succ_of_le hpos)).bind fun _ _ _ hlt =>
          hnext _ _ hlt

theorem construction (hpos : base ≤ st.pos + 1) :
    Follows input code (st.pos + 1) st Call.construction.descend (Grammar.construction again) := by
  rw [Call.descend]
  refine expect h _ fun _ _ => start h _ fun _ _ => check h _ ?_
  refine iteBind (hag .construction _ hpos) (primary h hag (Nat.le_succ_of_le hpos))
    fun head st₁ hle _ => left fun n hn => ?_
  dsimp only at hle
  refine (members h hag _ _ head _ st₁ (by omega) (Nat.le_refl _) hn).bind
    fun callee st₂ hle₂ _ => check h _ ?_
  refine iteBind ?_ (pure (Nat.le_refl st₂.pos) _) fun _ st₃ hle₃ _ => ?_
  · exact (arguments h hag (by omega)).weaken (Nat.le_succ _)
  · exact finishCall h (by omega) _ _ _ _

theorem callMember (hpos : base ≤ st.pos + 1) :
    Follows input code (st.pos + 1) st Call.callMember.descend (Grammar.callMember again) := by
  rw [Call.descend]
  refine start h _ fun _ _ => check h _ ?_
  refine iteBind (construction h hag hpos) (primary h hag hpos) fun head st' _ hlt => left fun n hn => ?_
  exact suffixes h hag _ _ head _ st' (by omega) hlt hn

/-! ## Operators -/

theorem unary (hpos : base ≤ st.pos + 1) :
    Follows input code (st.pos + 1) st Call.unary.descend (Grammar.unary again) := by
  rw [Call.descend]
  refine start h _ fun e he => token h he ?_
  have hargument : ∀ kind, Follows input code (st.pos + 1) st
      (Descent.bump >>= fun _ => Call.unary.descend >>= fun argument => Descent.finish kind e.1 [argument])
      (Parser.bump >>= fun _ => again .unary >>= fun argument =>
        Parser.finish kind e.1 [argument]) := fun kind =>
    bump h he ((hag .unary _ hpos).bind fun _ _ hle _ => finish h hle _ _ _)
  refine ite (fun _ => hargument _) fun _ => ite (fun _ => hargument _) fun _ => ?_
  refine (callMember h hag hpos).bind fun operand st' _ hlt => peek? h ?_
  cases he' : code.at? st'.pos with
  | none => exact pure hlt _
  | some e' =>
      refine ite (fun _ => ?_) fun _ => pure hlt _
      exact bump h he' (finish h (Nat.lt_succ_of_lt hlt) _ _ _)

theorem operations (least : Nat) (start : TokenId) : ∀ n operand low st, base ≤ st.pos + 1 →
    low ≤ st.pos → code.size ≤ st.pos + n →
    Follows input code low st (Call.operations least start operand).descend
      (Grammar.operations again least start operand n) := by
  intro n
  induction n with
  | zero =>
      intro operand low st hpos hlow hn
      rw [Call.descend]
      refine look (h.peek?_apply 0) ?_
      rw [Nat.add_zero, Code.at?_eq_none_iff.mpr (show code.size ≤ st.pos from hn)]
      exact pure hlow _
  | succ n ih =>
      intro operand low st hpos hlow hn
      rw [Call.descend]
      refine peek? h ?_
      cases he : code.at? st.pos with
      | none => exact pure hlow _
      | some e =>
          simp only [Option.map_some, Option.bind_some]
          cases Grammar.binaryOperator? e.2 with
          | none => exact pure hlow _
          | some operator =>
              refine ite (fun _ => pure hlow _) fun _ => bump h he ?_
              refine (hag _ _ hpos).bind fun right st₁ hle _ => ?_
              dsimp only at hle
              refine (finish h hle _ _ _).bind fun operation st₂ hle₂ _ => ?_
              exact ih _ _ _ (by omega) (by omega) (by omega)

theorem binary (least : Nat) (hpos : base ≤ st.pos + 1) :
    Follows input code (st.pos + 1) st (Call.binary least).descend (Grammar.binary again least) := by
  rw [Call.descend]
  refine start h _ fun e _ => (unary h hag hpos).bind fun operand st' _ hlt => left fun n hn => ?_
  exact operations h hag least _ _ operand _ st' (by omega) hlt hn

theorem conditional (hpos : base ≤ st.pos + 1) :
    Follows input code (st.pos + 1) st Call.conditional.descend (Grammar.conditional again) := by
  rw [Call.descend]
  refine start h _ fun e _ => (binary h hag 1 hpos).bind fun test st₁ _ hlt => ?_
  refine eat h "?" (fun _ => ?_) fun _ => pure hlt _
  refine (hag .assignment _ (by dsimp only; omega)).bind fun consequent st₂ hle _ => ?_
  dsimp only at hle
  refine expect h _ fun _ _ => ?_
  refine (hag .assignment _ (by dsimp only; omega)).bind fun alternate st₃ hle₃ _ => ?_
  dsimp only at hle₃
  exact finish h (by omega) _ _ _

theorem arrowParameters (hpos : base ≤ st.pos + 1) :
    Follows input code (st.pos + 1) st Call.arrowParameters.descend (Grammar.arrowParameters again) := by
  rw [Call.descend]
  refine check h _ (ite (fun _ => arguments h hag hpos) fun _ => ?_)
  exact (bindingIdentifier h).bind fun _ _ _ hlt => pure hlt _

theorem arrowBody (hpos : base ≤ st.pos) :
    Follows input code (st.pos + 1) st Call.arrowBody.descend (Grammar.arrowBody again) := by
  rw [Call.descend]
  exact check h _ (ite (fun _ => block h hag (Nat.le_succ_of_le hpos)) fun _ => hag .assignment st hpos)

theorem arrow {e : TokenId × Token} (he : code.at? st.pos = some e) (hpos : base ≤ st.pos + 1) :
    Follows input code (st.pos + 1) st Call.arrow.descend (Grammar.arrow again) := by
  rw [Call.descend]
  refine startAt h he ((arrowParameters h hag hpos).bind fun parameters st₁ _ hlt => ?_)
  refine expect h _ fun _ _ => ?_
  refine (arrowBody h hag (by dsimp only; omega)).bind fun body st₂ hle _ => ?_
  dsimp only at hle
  exact finish h (by omega) _ _ _

theorem assignment (hpos : base ≤ st.pos + 1) :
    Follows input code (st.pos + 1) st Call.assignment.descend (Grammar.assignment again) := by
  rw [Call.descend]
  refine atArrow h (ite (fun harrow => ?_) fun _ => ?_)
  · obtain ⟨e, he⟩ := Code.at?_of_beginsArrow harrow
    exact arrow h hag he hpos
  refine start h _ fun e _ => (conditional h hag hpos).bind fun target st' _ hlt => peek? h ?_
  cases he : code.at? st'.pos with
  | none => exact pure hlt _
  | some e' =>
      refine ite (fun _ => ?_) fun _ => pure hlt _
      refine bump h he ((hag .assignment _ (by dsimp only; omega)).bind fun value st₂ hle _ => ?_)
      dsimp only at hle
      exact finish h (by omega) _ _ _

theorem sequence : ∀ n expressions low st, base ≤ st.pos + 1 → low ≤ st.pos → code.size ≤ st.pos + n →
    Follows input code low st (Call.sequence expressions).descend
      (Grammar.sequenceTail again expressions n) := by
  intro n
  induction n with
  | zero =>
      intro expressions low st hpos hlow hn
      rw [Call.descend]
      exact eatPast h hn _ (pure hlow _)
  | succ n ih =>
      intro expressions low st hpos hlow hn
      rw [Call.descend]
      refine eat h "," (fun _ => ?_) fun _ => pure hlow _
      refine (hag .assignment _ hpos).bind fun _ st' hle _ => ?_
      dsimp only at hle
      exact ih _ _ _ (by omega) (by omega) (by omega)

theorem expression (hpos : base ≤ st.pos + 1) :
    Follows input code (st.pos + 1) st Call.expression.descend (Grammar.expression again) := by
  rw [Call.descend]
  refine start h _ fun e _ => (assignment h hag hpos).bind fun head st₁ _ hlt => ?_
  refine check h "," (ite (fun _ => left fun n hn => ?_) fun _ => pure hlt _)
  refine (sequence h hag _ [head] _ st₁ (by omega) (Nat.le_refl _) hn).bind
    fun _ st₂ hle _ => ?_
  exact finish h (by omega) _ _ _

/-! ## Statements -/

theorem expressionStatement (hpos : base ≤ st.pos + 1) :
    Follows input code (st.pos + 1) st Call.expressionStatement.descend
      (Grammar.expressionStatement again) := by
  rw [Call.descend]
  refine start h _ fun e _ => (expression h hag hpos).bind fun inner st₁ _ hlt => ?_
  have hnode : ∀ st', st₁.pos ≤ st'.pos → Follows input code (st.pos + 1) st' _ _ := fun st' hle =>
    node h (Nat.lt_of_lt_of_le hlt hle) fun last =>
      { kind := .expressionStatement, first := some e.1, last, expression := some inner,
        children := [inner] }
  exact eat h ";" (fun _ => hnode _ (Nat.le_succ _)) fun _ => hnode _ (Nat.le_refl _)

theorem declarator (hpos : base ≤ st.pos + 1) :
    Follows input code (st.pos + 1) st Call.declarator.descend (Grammar.declarator again) := by
  rw [Call.descend]
  refine start h _ fun e _ => (bindingIdentifier h).bind fun name st₁ _ hlt => ?_
  refine eatThen h "=" (hag .assignment _ (by dsimp only; omega)) (fun value st₂ hle _ => ?_) ?_
  · exact finish h (by omega) _ _ _
  · exact finish h (by omega) _ _ _

/-- The declarators behind one that has been read. -/
theorem declaratorTail : ∀ n declarators low st, base ≤ st.pos + 1 → low ≤ st.pos →
    code.size ≤ st.pos + n →
    Follows input code low st
      (Descent.eat "," >>= fun found =>
        if found then (Call.declarators declarators).descend else Pure.pure declarators)
      (Grammar.declaratorTail again declarators n) := by
  intro n
  induction n with
  | zero =>
      intro declarators low st hpos hlow hn
      exact eatPast h hn _ (pure hlow _)
  | succ n ih =>
      intro declarators low st hpos hlow hn
      refine eat h "," (fun _ => ?_) fun _ => pure hlow _
      rw [if_pos rfl, if_pos rfl, Call.descend]
      refine (declarator h hag (Nat.le_succ_of_le hpos)).bind fun _ st' hle _ => ?_
      dsimp only at hle
      exact ih _ _ _ (by omega) (by omega) (by omega)

theorem declarators (n : Nat) (declarators : List NodeId) (hpos : base ≤ st.pos + 1)
    (hn : code.size ≤ st.pos + n) :
    Follows input code (st.pos + 1) st (Call.declarators declarators).descend
      (Grammar.declarator again >>= fun head =>
        Grammar.declaratorTail again (head :: declarators) n) := by
  rw [Call.descend]
  exact (declarator h hag hpos).bind fun _ st' _ hlt =>
    declaratorTail h hag _ _ _ st' (by omega) hlt (by omega)

theorem variableDeclaration {e : TokenId × Token} (he : code.at? st.pos = some e)
    (hpos : base ≤ st.pos + 1) :
    Follows input code (st.pos + 1) st Call.variableDeclaration.descend
      (Grammar.variableDeclaration again) := by
  rw [Call.descend]
  refine peeked he (bump h he ?_)
  rw [Call.descend, bind_assoc]
  refine (declarator h hag (Nat.le_succ_of_le hpos)).bind fun head st₁ hle _ => left fun n hn => ?_
  dsimp only at hle
  refine (declaratorTail h hag _ [head] _ st₁ (by omega) (Nat.le_refl _) hn).bind
    fun declarators st₂ hle₂ _ => ?_
  exact eat h ";" (fun _ => finish h (by dsimp only; omega) _ _ _) fun _ => finish h (by omega) _ _ _

theorem returnValue (hpos : base ≤ st.pos) :
    Follows input code st.pos st Call.returnValue.descend (Grammar.returnValue again) := by
  rw [Call.descend]
  refine atEnd h (ite (fun _ => pure (Nat.le_refl _) _) fun _ => ?_)
  refine check h _ (ite (fun _ => pure (Nat.le_refl _) _) fun _ => ?_)
  refine check h _ (ite (fun _ => pure (Nat.le_refl _) _) fun _ => ?_)
  exact (hag .expression st hpos).bind fun _ _ hle _ => pure hle _

theorem returnStatement (hpos : base ≤ st.pos + 1) :
    Follows input code (st.pos + 1) st Call.returnStatement.descend (Grammar.returnStatement again) := by
  rw [Call.descend]
  refine expect h _ fun _ _ => ?_
  refine (returnValue h hag hpos).bind fun value st₁ hle _ => ?_
  dsimp only at hle
  exact eat h ";" (fun _ => finish h (by dsimp only; omega) _ _ _) fun _ => finish h (by omega) _ _ _

theorem ifStatement (hpos : base ≤ st.pos + 1) :
    Follows input code (st.pos + 1) st Call.ifStatement.descend (Grammar.ifStatement again) := by
  rw [Call.descend]
  refine expect h _ fun _ _ => expect h _ fun _ _ => ?_
  refine (hag .expression _ (by dsimp only; omega)).bind fun test st₁ hle₁ _ => ?_
  dsimp only at hle₁
  refine expect h _ fun _ _ => ?_
  refine (hag .statement _ (by dsimp only; omega)).bind fun consequent st₂ hle₂ _ => ?_
  dsimp only at hle₂
  refine eatThen h "else" (hag .statement _ (by dsimp only; omega)) (fun alternate st₃ hle₃ _ => ?_) ?_
  · exact finish h (by omega) _ _ _
  · exact finish h (by omega) _ _ _

theorem statement (hpos : base ≤ st.pos + 1) :
    Follows input code (st.pos + 1) st Call.statement.descend (Grammar.statement again) := by
  rw [Call.descend]
  refine start h _ fun e he => token h he ?_
  dsimp only
  generalize e.2.text = text
  split
  · exact variableDeclaration h hag he hpos
  · exact variableDeclaration h hag he hpos
  · exact variableDeclaration h hag he hpos
  · exact function h hag _ hpos
  · exact returnStatement h hag hpos
  · exact ifStatement h hag hpos
  · exact block h hag hpos
  · exact leaf h he _ _
  · -- the parser, if it is still to choose, finds none of these texts either
    try split
    all_goals first | contradiction | exact expressionStatement h hag hpos

/-! ## Whole programs -/

theorem round (goal : Goal) (hpos : base ≤ st.pos + 1) :
    Follows input code (st.pos + 1) st (ofGoal goal) (Grammar.round again goal) := by
  cases goal with
  | statement    => exact statement h hag hpos
  | expression   => exact expression h hag hpos
  | assignment   => exact assignment h hag hpos
  | binary least => exact binary h hag least hpos
  | unary        => exact unary h hag hpos
  | construction => exact construction h hag hpos

omit hag

/-- Behind the last token every goal stops with what it wants first. -/
theorem wanted (hend : code.size ≤ st.pos) (goal : Goal) :
    Follows input code low st (ofGoal goal) (Parser.unexpected goal.wanted) := by
  cases goal with
  | statement =>
      rw [ofGoal, Call.descend]
      exact startPast h hend _
  | expression =>
      rw [ofGoal, Call.descend]
      exact startPast h hend _
  | assignment =>
      rw [ofGoal, Call.descend]
      refine look h.atArrow_apply ?_
      rw [Code.beginsArrow, Code.at?_eq_none_iff.mpr hend]
      exact startPast h hend _
  | binary least =>
      rw [ofGoal, Call.descend]
      exact startPast h hend _
  | unary =>
      rw [ofGoal, Call.descend]
      exact startPast h hend _
  | construction =>
      rw [ofGoal, Call.descend, Descent.expect, bind_assoc]
      exact checkPast h hend _ (unexpectedPast h hend _)

/-- **Every goal is followed from everywhere**, if there are as many rounds as tokens are left. -/
theorem upTo : ∀ n goal st, code.size ≤ st.pos + n →
    Follows input code (st.pos + 1) st (ofGoal goal) (Grammar.upTo n goal) := by
  intro n
  induction n with
  | zero =>
      intro goal st hn
      exact wanted h hn goal
  | succ n ih =>
      intro goal st hn
      have hag : Reenters input code (Grammar.upTo n) (st.pos + 1) := fun goal st' hpos =>
        ih goal st' (by omega)
      exact round h hag goal (Nat.le_refl _)

theorem reenters {n : Nat} (hn : code.size ≤ base + n) :
    Reenters input code (Grammar.upTo n) base := fun goal st hpos =>
  upTo h n goal st (by omega)

/-- The program ends at the last token, since it goes on in front of any other. -/
theorem programBody (hag : Reenters input code again base) : ∀ n body st, base ≤ st.pos →
    code.size ≤ st.pos + n →
    Follows input code code.size st (Call.program body).descend
      (Grammar.programBody again body n) := by
  intro n
  induction n with
  | zero =>
      intro body st hpos hn
      rw [Call.descend]
      refine look h.isAtEnd_apply ?_
      rw [decide_eq_true (show code.size ≤ st.pos from hn)]
      exact pure hn _
  | succ n ih =>
      intro body st hpos hn
      rw [Call.descend]
      refine atEnd h (ite (fun hend => pure (of_decide_eq_true hend) _) fun _ => ?_)
      exact (hag .statement st hpos).bind fun _ st' _ hlt => ih _ _ (by omega) (by omega)

theorem program : Follows input code code.size st Descent.program Grammar.program := by
  have hlast : input.code.back? = (code.at? (code.size - 1)).map (·.1) := by
    rw [Array.back?, h.size, h.handles]
  refine left fun n hn => ?_
  refine (programBody h (reenters h hn) n [] st (Nat.le_refl _) hn).bind fun body st' _ hend hsize => ?_
  rw [bind_of_ok (read_apply input st'), h.handles, hlast]
  exact .ok (Nat.le_refl _) hend hsize

end Productions
end Follows
end Descent
end ScriptSpacing
