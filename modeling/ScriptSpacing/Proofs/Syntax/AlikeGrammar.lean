import ScriptSpacing.Proofs.Syntax.Alike

/-!
# `Proofs.Syntax.AlikeGrammar` — every production reads alike codes alike

One lemma for each production of the grammar, in the order of the grammar's own modules. A production is
a sequence of primitives and of other productions, so its lemma follows its text; a loop is an induction on
its count. `again` is any grammar whose goals read alike codes alike, and `upTo` is one by induction on
the number of rounds.
-/

namespace ScriptSpacing
namespace Parser.Parallel

variable {code code' : Code} {again : Grammar}

/-- A reading of alike codes with the same result. -/
abbrev Self (code code' : Code) {α : Type} (p : Parser α) : Prop := Parallel code code' Eq p p

/-! ## Lists -/

section Lists

variable (h : code.Alike code')
include h

theorem itemsUntil (close : String) {item : Parser NodeId} (hitem : Self code code' item) :
    ∀ n items, Self code code' (Grammar.itemsUntil close item items n) := by
  intro n
  induction n with
  | zero =>
      intro items
      exact hitem.bindEq fun _ => .pure rfl
  | succ n ih =>
      intro items
      refine (check h close).bindEq fun _ => .ite (.pure rfl) ?_
      refine hitem.bindEq fun _ => ?_
      exact (eat h ",").bindEq fun _ => .ite (ih _) (.pure rfl)

theorem delimited (opener close : String) {item : Parser NodeId} (hitem : Self code code' item) :
    Self code code' (Grammar.delimited opener close item) := by
  refine (expect h opener).bind fun _ _ _ => ?_
  refine (left h).bindEq fun n => ?_
  refine (itemsUntil h close hitem n []).bindEq fun _ => ?_
  exact (expect h close).bind fun _ _ _ => .pure rfl

variable (hagain : ∀ goal, Self code code' (again goal))
include hagain

theorem statementsUntil : ∀ n body, Self code code' (Grammar.statementsUntil again body n) := by
  intro n
  induction n with
  | zero =>
      intro body
      exact .pure rfl
  | succ n ih =>
      intro body
      refine (atEnd h).bindEq fun _ => .ite (.pure rfl) ?_
      refine (check h _).bindEq fun _ => .ite (.pure rfl) ?_
      exact (hagain .statement).bindEq fun _ => ih _

theorem block : Self code code' (Grammar.block again) := by
  refine (expect h _).bind fun start start' hstart => ?_
  refine (left h).bindEq fun n => ?_
  refine (statementsUntil h hagain n []).bindEq fun body => ?_
  exact (expect h _).bind fun _ _ _ => finish h _ hstart

theorem arguments : Self code code' (Grammar.arguments again) :=
  delimited h "(" ")" (hagain .assignment)

end Lists

/-! ## Names and functions -/

section Operands

variable (h : code.Alike code')
include h

theorem bindingIdentifier : Self code code' Grammar.bindingIdentifier := by
  refine (peek h _).bind ?_
  rintro ⟨_, t⟩ ⟨_, _⟩ ⟨rfl, -⟩
  exact .ite (leaf h _ _) (unexpected _ _)

theorem propertyName : Self code code' Grammar.propertyName := by
  refine (peek h _).bind ?_
  rintro ⟨_, t⟩ ⟨_, _⟩ ⟨rfl, -⟩
  exact .ite (leaf h _ _) (unexpected _ _)

theorem functionName (kind : Node.Kind) : Self code code' (Grammar.functionName kind) := by
  refine (check h _).bindEq fun _ => .ite ?_ (.pure rfl)
  exact (bindingIdentifier h).bindEq fun _ => .pure rfl

variable (hagain : ∀ goal, Self code code' (again goal))
include hagain

theorem function (kind : Node.Kind) : Self code code' (Grammar.function again kind) := by
  refine (expect h _).bind fun start start' hstart => ?_
  refine (functionName h kind).bindEq fun name => ?_
  refine (arguments h hagain).bindEq fun parameters => ?_
  exact (block h hagain).bindEq fun body => finish h _ hstart

/-! ## Arrays and objects -/

theorem elementsUntil : ∀ n elements,
    Self code code' (Grammar.elementsUntil again elements n) := by
  intro n
  induction n with
  | zero =>
      intro elements
      exact (hagain .assignment).bindEq fun _ => .pure rfl
  | succ n ih =>
      intro elements
      refine (check h _).bindEq fun _ => .ite (.pure rfl) ?_
      refine (eat h ",").bindEq fun _ => .ite (ih _) ?_
      refine (hagain .assignment).bindEq fun _ => ?_
      exact (eat h ",").bindEq fun _ => .ite (ih _) (.pure rfl)

theorem array : Self code code' (Grammar.array again) := by
  refine (expect h _).bind fun start start' hstart => ?_
  refine (left h).bindEq fun n => ?_
  refine (elementsUntil h hagain n []).bindEq fun elements => ?_
  exact (expect h _).bind fun _ _ _ => finish h _ hstart

theorem propertyKey : Self code code' (Grammar.propertyKey again) := by
  refine (peek h _).bind ?_
  rintro ⟨_, t⟩ ⟨_, _⟩ ⟨rfl, -⟩
  refine (eat h "[").bindEq fun _ => .ite ?_ ?_
  · refine (hagain .assignment).bindEq fun key => ?_
    exact (expect h _).bind fun _ _ _ => .pure rfl
  · exact .ite (leaf h _ _) (propertyName h)

theorem propertyValue : Self code code' (Grammar.propertyValue again) := by
  refine (eat h ":").bindEq fun _ => .ite ?_ (.pure rfl)
  exact (hagain .assignment).bindEq fun _ => .pure rfl

theorem property : Self code code' (Grammar.property again) := by
  refine (peek h _).bind fun e e' he => ?_
  refine (propertyKey h hagain).bindEq fun key => ?_
  exact (propertyValue h hagain).bindEq fun value => finish h _ he.samePlace

theorem object : Self code code' (Grammar.object again) := by
  refine (peek h _).bind fun e e' he => ?_
  exact (delimited h _ _ (property h hagain)).bindEq fun properties => finish h _ he.samePlace

/-! ## Primary expressions, members and calls -/

theorem group : Self code code' (Grammar.group again) := by
  refine (expect h _).bind fun _ _ _ => ?_
  refine (hagain .expression).bindEq fun inner => ?_
  exact (expect h _).bind fun _ _ _ => .pure rfl

theorem primary : Self code code' (Grammar.primary again) := by
  refine (peek h _).bind ?_
  rintro ⟨_, t⟩ ⟨_, _⟩ ⟨rfl, -⟩
  dsimp only
  split
  · exact leaf h _ _
  · exact leaf h _ _
  · exact leaf h _ _
  · exact leaf h _ _
  · exact leaf h _ _
  · exact .ite (leaf h _ _) (.ite (function h hagain _) (unexpected _ _))
  · exact .ite (group h hagain) (.ite (array h hagain) (.ite (object h hagain) (unexpected _ _)))
  · exact unexpected _ _

variable {start start' : TokenId} (hstart : code.SamePlace code' start start')
include hstart

theorem computedMember (object : NodeId) :
    Parallel code code' Eq (Grammar.computedMember again start object)
      (Grammar.computedMember again start' object) := by
  refine (expect h _).bind fun _ _ _ => ?_
  refine (hagain .expression).bindEq fun name => ?_
  exact (expect h _).bind fun _ _ _ => finish h _ hstart

omit hagain in
theorem namedMember (object : NodeId) :
    Parallel code code' Eq (Grammar.namedMember start object)
      (Grammar.namedMember start' object) :=
  (propertyName h).bindEq fun _ => finish h _ hstart

theorem call (callee : NodeId) :
    Parallel code code' Eq (Grammar.call again start callee)
      (Grammar.call again start' callee) :=
  (arguments h hagain).bindEq fun _ => finishCall h _ _ hstart

theorem members : ∀ n object,
    Parallel code code' Eq (Grammar.members again start object n)
      (Grammar.members again start' object n) := by
  intro n
  induction n with
  | zero =>
      intro object
      exact .pure rfl
  | succ n ih =>
      intro object
      refine (eat h ".").bindEq fun _ => .ite ?_ ?_
      · exact (namedMember h hstart object).bindEq fun _ => ih _
      · refine (check h "[").bindEq fun _ => .ite ?_ (.pure rfl)
        exact (computedMember h hagain hstart object).bindEq fun _ => ih _

theorem suffixes : ∀ n operand,
    Parallel code code' Eq (Grammar.suffixes again start operand n)
      (Grammar.suffixes again start' operand n) := by
  intro n
  induction n with
  | zero =>
      intro operand
      exact .pure rfl
  | succ n ih =>
      intro operand
      have hcall : Parallel code code' Eq
          (Grammar.call again start operand >>= fun c => Grammar.suffixes again start c n)
          (Grammar.call again start' operand >>= fun c => Grammar.suffixes again start' c n) :=
        (call h hagain hstart operand).bindEq fun _ => ih _
      have hcomputed : Parallel code code' Eq
          (Grammar.computedMember again start operand >>= fun m => Grammar.suffixes again start m n)
          (Grammar.computedMember again start' operand >>=
            fun m => Grammar.suffixes again start' m n) :=
        (computedMember h hagain hstart operand).bindEq fun _ => ih _
      have hnamed : Parallel code code' Eq
          (Grammar.namedMember start operand >>= fun m => Grammar.suffixes again start m n)
          (Grammar.namedMember start' operand >>= fun m => Grammar.suffixes again start' m n) :=
        (namedMember h hstart operand).bindEq fun _ => ih _
      refine (check h "(").bindEq fun _ => .ite hcall ?_
      refine (eat h "?.").bindEq fun _ => .ite ?_ ?_
      · refine (check h "(").bindEq fun _ => .ite hcall ?_
        exact (check h "[").bindEq fun _ => .ite hcomputed hnamed
      · refine (eat h ".").bindEq fun _ => .ite hnamed ?_
        exact (check h "[").bindEq fun _ => .ite hcomputed (.pure rfl)

omit hstart

theorem construction : Self code code' (Grammar.construction again) := by
  refine (expect h _).bind fun start start' hstart => ?_
  refine (peek h _).bind fun e e' he => ?_
  refine (check h _).bindEq fun _ => ?_
  refine iteBind (hagain .construction) (primary h hagain) fun head => ?_
  refine (left h).bindEq fun n => ?_
  refine (members h hagain he.samePlace n head).bindEq fun callee => ?_
  refine (check h _).bindEq fun _ => ?_
  exact iteBind (arguments h hagain) (.pure rfl) fun args => finishCall h _ _ hstart

theorem callMember : Self code code' (Grammar.callMember again) := by
  refine (peek h _).bind fun e e' he => ?_
  refine (check h _).bindEq fun _ => ?_
  refine iteBind (construction h hagain) (primary h hagain) fun head => ?_
  exact (left h).bindEq fun n => suffixes h hagain he.samePlace n head

/-! ## Operators -/

theorem unary : Self code code' (Grammar.unary again) := by
  refine (peek h _).bind ?_
  rintro ⟨start, t⟩ ⟨start', _⟩ ⟨rfl, hplace⟩
  obtain ⟨i, hat, hat'⟩ := hplace
  have hstart : code.SamePlace code' start start' := ⟨i, _, _, hat, hat', rfl, rfl⟩
  refine .ite ?_ (.ite ?_ ?_)
  · refine bump.bindEq fun _ => ?_
    exact (hagain .unary).bindEq fun _ => finish h _ hstart
  · refine bump.bindEq fun _ => ?_
    exact (hagain .unary).bindEq fun _ => finish h _ hstart
  · refine (callMember h hagain).bindEq fun operand => ?_
    refine (current? h).bind ?_
    rintro _ _ (hsame | _)
    · dsimp only
      rw [hsame.1]
      refine .ite ?_ (.pure rfl)
      exact bump.bindEq fun _ => finish h _ hstart
    · exact .pure rfl

theorem operations (least : Nat) {start start' : TokenId}
    (hstart : code.SamePlace code' start start') : ∀ n operand,
    Parallel code code' Eq (Grammar.operations again least start operand n)
      (Grammar.operations again least start' operand n) := by
  intro n
  induction n with
  | zero =>
      intro operand
      exact .pure rfl
  | succ n ih =>
      intro operand
      refine (current? h).bind fun o o' ho => ?_
      rcases ho with @⟨⟨_, t⟩, ⟨_, t'⟩, hsame, -⟩ | _
      · obtain rfl : t = t' := hsame
        simp only [Option.bind_some]
        cases Grammar.binaryOperator? t with
        | none => exact .pure rfl
        | some operator =>
            refine .ite (.pure rfl) ?_
            refine bump.bindEq fun _ => ?_
            refine (hagain _).bindEq fun right => ?_
            exact (finish h _ hstart).bindEq fun operation => ih _
      · exact .pure rfl

theorem binary (least : Nat) : Self code code' (Grammar.binary again least) := by
  refine (peek h _).bind fun e e' he => ?_
  refine (unary h hagain).bindEq fun operand => ?_
  exact (left h).bindEq fun n => operations h hagain least he.samePlace n operand

theorem conditional : Self code code' (Grammar.conditional again) := by
  refine (peek h _).bind fun e e' he => ?_
  refine (binary h hagain 1).bindEq fun test => ?_
  refine (eat h "?").bindEq fun _ => .ite ?_ (.pure rfl)
  refine (hagain .assignment).bindEq fun consequent => ?_
  refine (expect h _).bind fun _ _ _ => ?_
  exact (hagain .assignment).bindEq fun alternate => finish h _ he.samePlace

theorem arrowParameters : Self code code' (Grammar.arrowParameters again) := by
  refine (check h _).bindEq fun _ => .ite (arguments h hagain) ?_
  exact (bindingIdentifier h).bindEq fun _ => .pure rfl

theorem arrowBody : Self code code' (Grammar.arrowBody again) :=
  (check h _).bindEq fun _ => .ite (block h hagain) (hagain .assignment)

theorem arrow : Self code code' (Grammar.arrow again) := by
  refine (peek h _).bind fun e e' he => ?_
  refine (arrowParameters h hagain).bindEq fun parameters => ?_
  refine (expect h _).bind fun _ _ _ => ?_
  exact (arrowBody h hagain).bindEq fun body => finish h _ he.samePlace

theorem assignment : Self code code' (Grammar.assignment again) := by
  refine (atArrow h).bindEq fun _ => .ite (arrow h hagain) ?_
  refine (peek h _).bind fun e e' he => ?_
  refine (conditional h hagain).bindEq fun target => ?_
  refine (current? h).bind ?_
  rintro _ _ (hsame | _)
  · dsimp only
    rw [hsame.1]
    refine .ite ?_ (.pure rfl)
    refine bump.bindEq fun _ => ?_
    exact (hagain .assignment).bindEq fun value => finish h _ he.samePlace
  · exact .pure rfl

theorem sequenceTail : ∀ n expressions,
    Self code code' (Grammar.sequenceTail again expressions n) := by
  intro n
  induction n with
  | zero =>
      intro expressions
      exact .pure rfl
  | succ n ih =>
      intro expressions
      refine (eat h ",").bindEq fun _ => .ite ?_ (.pure rfl)
      exact (hagain .assignment).bindEq fun _ => ih _

theorem expression : Self code code' (Grammar.expression again) := by
  refine (peek h _).bind fun e e' he => ?_
  refine (assignment h hagain).bindEq fun head => ?_
  refine (check h ",").bindEq fun _ => .ite ?_ (.pure rfl)
  refine (left h).bindEq fun n => ?_
  exact (sequenceTail h hagain n [head]).bindEq fun _ => finish h _ he.samePlace

/-! ## Statements -/

theorem expressionStatement : Self code code' (Grammar.expressionStatement again) := by
  refine (peek h _).bind fun e e' he => ?_
  refine (expression h hagain).bindEq fun inner => ?_
  refine (eat h ";").bindEq fun _ => ?_
  exact (lastRead h).bind fun _ _ hlast =>
    node ⟨rfl, .some he.samePlace, hlast, rfl, rfl, rfl⟩

theorem initializer : Self code code' (Grammar.initializer again) := by
  refine (eat h "=").bindEq fun _ => .ite ?_ (.pure rfl)
  exact (hagain .assignment).bindEq fun _ => .pure rfl

theorem declarator : Self code code' (Grammar.declarator again) := by
  refine (peek h _).bind fun e e' he => ?_
  refine (bindingIdentifier h).bindEq fun name => ?_
  exact (initializer h hagain).bindEq fun value => finish h _ he.samePlace

theorem declaratorTail : ∀ n declarators,
    Self code code' (Grammar.declaratorTail again declarators n) := by
  intro n
  induction n with
  | zero =>
      intro declarators
      exact .pure rfl
  | succ n ih =>
      intro declarators
      refine (eat h ",").bindEq fun _ => .ite ?_ (.pure rfl)
      exact (declarator h hagain).bindEq fun _ => ih _

theorem variableDeclaration : Self code code' (Grammar.variableDeclaration again) := by
  refine (peek h _).bind fun e e' he => ?_
  refine bump.bindEq fun _ => ?_
  refine (declarator h hagain).bindEq fun head => ?_
  refine (left h).bindEq fun n => ?_
  refine (declaratorTail h hagain n [head]).bindEq fun declarators => ?_
  exact (eat h ";").bindEq fun _ => finish h _ he.samePlace

theorem returnValue : Self code code' (Grammar.returnValue again) := by
  refine (atEnd h).bindEq fun _ => .ite (.pure rfl) ?_
  refine (check h _).bindEq fun _ => .ite (.pure rfl) ?_
  refine (check h _).bindEq fun _ => .ite (.pure rfl) ?_
  exact (hagain .expression).bindEq fun _ => .pure rfl

theorem returnStatement : Self code code' (Grammar.returnStatement again) := by
  refine (expect h _).bind fun start start' hstart => ?_
  refine (returnValue h hagain).bindEq fun value => ?_
  exact (eat h ";").bindEq fun _ => finish h _ hstart

theorem elseBranch : Self code code' (Grammar.elseBranch again) := by
  refine (eat h "else").bindEq fun _ => .ite ?_ (.pure rfl)
  exact (hagain .statement).bindEq fun _ => .pure rfl

theorem ifStatement : Self code code' (Grammar.ifStatement again) := by
  refine (expect h _).bind fun start start' hstart => ?_
  refine (expect h _).bind fun _ _ _ => ?_
  refine (hagain .expression).bindEq fun test => ?_
  refine (expect h _).bind fun _ _ _ => ?_
  refine (hagain .statement).bindEq fun consequent => ?_
  exact (elseBranch h hagain).bindEq fun alternate => finish h _ hstart

theorem statement : Self code code' (Grammar.statement again) := by
  refine (peek h _).bind ?_
  rintro ⟨_, t⟩ ⟨_, _⟩ ⟨rfl, -⟩
  dsimp only
  split
  · exact variableDeclaration h hagain
  · exact variableDeclaration h hagain
  · exact variableDeclaration h hagain
  · exact function h hagain _
  · exact returnStatement h hagain
  · exact ifStatement h hagain
  · exact block h hagain
  · exact leaf h _ _
  · exact expressionStatement h hagain

/-! ## Whole programs -/

theorem round (goal : Goal) : Self code code' (Grammar.round again goal) := by
  cases goal with
  | statement    => exact statement h hagain
  | expression   => exact expression h hagain
  | assignment   => exact assignment h hagain
  | binary least => exact binary h hagain least
  | unary        => exact unary h hagain
  | construction => exact construction h hagain

omit hagain

theorem upTo : ∀ n goal, Self code code' (Grammar.upTo n goal) := by
  intro n
  induction n with
  | zero => exact fun _ => unexpected _ _
  | succ n ih => exact round h ih

theorem programBody (hagain : ∀ goal, Self code code' (again goal)) : ∀ n body,
    Self code code' (Grammar.programBody again body n) := by
  intro n
  induction n with
  | zero =>
      intro body
      exact .pure rfl
  | succ n ih =>
      intro body
      refine (atEnd h).bindEq fun _ => .ite (.pure rfl) ?_
      exact (hagain .statement).bindEq fun _ => ih _

theorem program : Self code code' Grammar.program := by
  refine (left h).bindEq fun n => ?_
  refine (programBody h (upTo h n) n []).bindEq fun body => ?_
  exact (wholeSpan h).bind fun _ _ hspan => node ⟨rfl, hspan.1, hspan.2, rfl, rfl, rfl⟩

end Operands
end Parser.Parallel

/-- **Alike codes have alike trees.** -/
theorem Tree.ofCode_alike {code code' : Code} {t : Tree} (h : code.Alike code')
    (ht : Tree.ofCode code = .ok t) :
    ∃ t', Tree.ofCode code' = .ok t' ∧ t.Alike code code' t' := by
  unfold Tree.ofCode at ht
  split at ht
  · next root s hrun =>
      cases ht
      have hstart : ParseState.Alike code code' {} {} := ⟨rfl, rfl, fun _ => .none⟩
      obtain ⟨root', s', hrun', rfl, hs⟩ :=
        Parser.Parallel.program h _ _ root s hstart hrun
      exact ⟨⟨s'.arena, root⟩, by rw [Tree.ofCode, hrun'], rfl, hs.arena⟩
  · cases ht

end ScriptSpacing
