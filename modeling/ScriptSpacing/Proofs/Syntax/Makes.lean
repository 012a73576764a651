import ScriptSpacing.Proofs.Syntax.Closers
import ScriptSpacing.Proofs.Syntax.Trace

/-!
# `Proofs.Syntax.Makes` — runs that succeed, and where they stop

`Makes code run p ar q R` says that from the position `p` and the arena `ar` the parser `run` succeeds at `q`,
keeps the nodes there are and yields what `R` holds of. Each primitive has its step lemma, so that a
production is followed from one step to the next. `Builds code run p q out` is the case of one node with the
shape `out`, whatever was in the arena before.

How far a production reads is decided by the token that follows. `Token.rank` orders tokens by the least
production that goes on at them: a production stops in front of every token of a higher rank.
-/

namespace ScriptSpacing

theorem Arena.Extends.refl (ar : Arena) : ar.Extends ar := fun _ _ hn => hn

theorem Arena.Extends.trans {ar ar' ar'' : Arena} (h' : ar''.Extends ar') (h : ar'.Extends ar) :
    ar''.Extends ar := fun id n hn => h' id n (h id n hn)

namespace Parser

/-- **The parser succeeds**, from the position `p` and the arena `ar` to the position `q`. -/
def Makes {α : Type} (code : Code) (run : Parser α) (p : Nat) (ar : Arena) (q : Nat)
    (R : Arena → α → Prop) : Prop :=
  ∃ a ar', run code ⟨p, ar⟩ = .ok (a, ⟨q, ar'⟩) ∧ ar'.Extends ar ∧ R ar' a

namespace Makes

variable {α β : Type} {code : Code} {run : Parser α} {f : α → Parser β} {ar : Arena} {p q r : Nat}
  {R : Arena → α → Prop} {R' : Arena → β → Prop}

theorem pure {a : α} (h : R ar a) : Makes code (pure a) p ar p R := ⟨a, ar, rfl, .refl ar, h⟩

/-- **One run after the other.** -/
theorem bind (h : Makes code run p ar r R)
    (hf : ∀ a ar', ar'.Extends ar → R ar' a → Makes code (f a) r ar' q R') :
    Makes code (run >>= f) p ar q R' := by
  obtain ⟨a, ar', hrun, hext, ha⟩ := h
  obtain ⟨b, ar'', hrun', hext', hb⟩ := hf a ar' hext ha
  exact ⟨b, ar'', bind_eq_ok.mpr ⟨a, _, hrun, hrun'⟩, hext'.trans hext, hb⟩

/-- A step that allocates nothing. -/
theorem step {a : α} (h : run code ⟨p, ar⟩ = .ok (a, ⟨r, ar⟩)) (hf : Makes code (f a) r ar q R') :
    Makes code (run >>= f) p ar q R' := by
  obtain ⟨b, ar', hrun, hext, hb⟩ := hf
  exact ⟨b, ar', bind_eq_ok.mpr ⟨a, _, h, hrun⟩, hext, hb⟩

/-! ## Primitives -/

section Steps

variable {i : TokenId} {t : Token} {s : String} {w : Wanted}

theorem peek {f : TokenId × Token → Parser β} (hat : code.at? p = some (i, t))
    (hf : Makes code (f (i, t)) p ar q R') : Makes code (peek w >>= f) p ar q R' :=
  .step (peek_eq_ok.mpr ⟨hat, rfl⟩) hf

theorem current {f : Option (TokenId × Token) → Parser β} (hf : Makes code (f (code.at? p)) p ar q R') :
    Makes code (current? >>= f) p ar q R' := .step rfl hf

theorem left {f : Nat → Parser β} (hf : Makes code (f (code.size - p)) p ar q R') :
    Makes code (left >>= f) p ar q R' := .step rfl hf

theorem bump {f : Unit → Parser β} (hf : Makes code (f ()) (p + 1) ar q R') :
    Makes code (bump >>= f) p ar q R' := .step rfl hf

theorem check {b : Bool} {f : Bool → Parser β} (h : code.is p s = b)
    (hf : Makes code (f b) p ar q R') : Makes code (check s >>= f) p ar q R' := by
  subst h
  exact .step rfl hf

theorem eat_true {f : Bool → Parser β} (h : code.is p s = true)
    (hf : Makes code (f true) (p + 1) ar q R') : Makes code (eat s >>= f) p ar q R' := by
  refine .step ?_ hf
  rw [eat_apply, h]
  rfl

theorem eat_false {f : Bool → Parser β} (h : code.is p s = false)
    (hf : Makes code (f false) p ar q R') : Makes code (eat s >>= f) p ar q R' := by
  refine .step ?_ hf
  rw [eat_apply, h]
  rfl

theorem expect {f : TokenId → Parser β} (hat : code.at? p = some (i, t)) (htext : t.text = s)
    (hf : Makes code (f i) (p + 1) ar q R') : Makes code (expect s >>= f) p ar q R' := by
  refine .step (expect_eq_ok.mpr ⟨?_, ?_, rfl⟩) hf
  · simp [Code.is, hat, Token.is, htext]
  · show (code.at? p).map (·.1) = some i
    rw [hat]
    rfl

end Steps

end Makes
end Parser

namespace Grammar
open ScriptSpacing.Parser

/-! ## Making nodes -/

section Nodes

variable {code : Code} {ar : Arena} {i : TokenId} {t : Token} {kind : Node.Kind} {ids : List NodeId}
  {outs : List Outline} {p q : Nat}

/-- The last token in front of a position behind the first. -/
theorem lastRead_of_lt (hlt : p < q) :
    lastRead code ⟨q, ar⟩ = .ok ((code.at? (q - 1)).map (·.1), ⟨q, ar⟩) := by
  obtain ⟨n, rfl⟩ := Nat.exists_eq_succ_of_ne_zero (Nat.ne_zero_of_lt hlt)
  rfl

/-- A node that was read from `p` up to `q`, above nodes that have shapes. -/
theorem makes_node (hbelow : Depicts ar code ids outs) :
    Makes code (node (Node.spanning code kind ids p q)) q ar q
      fun ar' id => Depicts ar' code [id] [.branch kind outs] := by
  have hext := ar.extends_push (Node.spanning code kind ids p q)
  exact ⟨ar.fresh, _, rfl, hext,
    .branch (Arena.get?_push_fresh _ _) (hbelow.mono hext) .nil⟩

theorem spanning_of_at? (hat : code.at? p = some (i, t)) (hkind : kind ∉ linkingKinds) :
    Node.spanning code kind ids p q =
      { kind, first := some i, last := (code.at? (q - 1)).map (·.1), children := ids } := by
  simp only [linkingKinds, List.mem_cons, List.not_mem_nil, or_false, not_or] at hkind
  rw [Node.spanning, hat, if_neg hkind.1, if_neg (not_or.mpr hkind.2)]
  rfl

theorem makes_finish (hat : code.at? p = some (i, t)) (hlt : p < q)
    (hbelow : Depicts ar code ids outs) (hkind : kind ∉ linkingKinds) :
    Makes code (finish kind i ids) q ar q
      fun ar' id => Depicts ar' code [id] [.branch kind outs] := by
  refine .step (lastRead_of_lt hlt) ?_
  rw [← spanning_of_at? hat hkind]
  exact makes_node hbelow

theorem makes_finishCall {callee : NodeId} {args : List NodeId} (hat : code.at? p = some (i, t))
    (hlt : p < q) (hkind : kind = .callExpression ∨ kind = .newExpression)
    (hbelow : Depicts ar code (callee :: args) outs) :
    Makes code (finishCall kind i callee args) q ar q
      fun ar' id => Depicts ar' code [id] [.branch kind outs] := by
  have hexpr : kind ≠ .expressionStatement := by
    rintro rfl
    rcases hkind with h | h <;> cases h
  have hspan : Node.spanning code kind (callee :: args) p q =
      { kind, first := some i, last := (code.at? (q - 1)).map (·.1), callee := some callee,
        children := callee :: args } := by
    rw [Node.spanning, hat, if_neg hexpr, if_pos hkind]
    rfl
  refine .step (lastRead_of_lt hlt) ?_
  rw [← hspan]
  exact makes_node hbelow

theorem makes_leaf {w : Wanted} (hat : code.at? p = some (i, t)) (hkind : kind ∉ linkingKinds) :
    Makes code (leaf kind w) p ar (p + 1) fun ar' id => Depicts ar' code [id] [.leaf kind t] := by
  refine .peek hat (.bump (.step (lastRead_of_lt (Nat.lt_succ_self p)) ?_))
  rw [← spanning_of_at? hat hkind]
  have hext := ar.extends_push (Node.spanning code kind [] p (p + 1))
  exact ⟨ar.fresh, _, rfl, hext, .leaf hat (Arena.get?_push_fresh _ _) .nil⟩

end Nodes

/-- **The parser builds one node** of the shape `out` from `p` up to `q`, whatever the arena holds. -/
def Builds (code : Code) (run : Parser NodeId) (p q : Nat) (out : Outline) : Prop :=
  ∀ ar, Makes code run p ar q fun ar' id => Depicts ar' code [id] [out]

/-- The parser builds nodes of the shapes `outs`. -/
def BuildsAll (code : Code) (run : Parser (List NodeId)) (p q : Nat) (outs : List Outline) : Prop :=
  ∀ ar, Makes code run p ar q fun ar' ids => Depicts ar' code ids outs

end Grammar

/-! ## Where a production stops -/

open Grammar

/-- **The rank of a token**: the least production that goes on at it. An operand goes on at a member, a call
    and an arrow, a unary expression at an update, then operations, conditionals, assignments and sequences in
    their order; at any other token no expression goes on. -/
def Token.rank (t : Token) : Nat :=
  if t.text ∈ ["(", "?.", ".", "[", "=>"] then 0
  else if isUpdateOperator t then 1
  else if (binaryOperator? t).isSome then 2
  else if t.is "?" then 3
  else if isAssignmentOperator t then 4
  else if t.is "," then 5
  else 6

/-- The rank of the token at a position. -/
def Code.rank (code : Code) (p : Nat) : Nat := ((code.at? p).map (·.2.rank)).getD 6

namespace Token

variable {t : Token}

theorem rank_le (t : Token) : t.rank ≤ 6 := by
  unfold rank
  split_ifs
  all_goals decide

/-- A token that is no operator in front of an operand. -/
structure NoOperator (t : Token) : Prop where
  sign   : isUnaryOperator t = false
  update : isUpdateOperator t = false

theorem noOperator_of_text (h : t.text ∈ ["(", "[", "\x7b", "new", "this"]) : t.NoOperator := by
  simp only [List.mem_cons, List.not_mem_nil, or_false] at h
  constructor
  · rcases h with h | h | h | h | h <;> simp [isUnaryOperator, h]
  · rcases h with h | h | h | h | h <;> simp [isUpdateOperator, Token.is, h]

/-! ### Tokens that go on -/

theorem rank_of_suffix (h : t.text ∈ ["(", "?.", ".", "[", "=>"]) : t.rank = 0 := if_pos h

theorem rank_of_isUpdateOperator (h : isUpdateOperator t = true) : t.rank = 1 := by
  have htext : t.text ∉ ["(", "?.", ".", "[", "=>"] := by
    rw [isUpdateOperator, Bool.or_eq_true, is_eq_true, is_eq_true] at h
    rcases h with h | h <;> rw [h] <;> decide
  rw [rank, if_neg htext, if_pos h]

theorem rank_of_binaryOperator? {level : Nat} {kind : Node.Kind}
    (h : binaryOperator? t = some (level, kind)) : t.rank = 2 := by
  have htext : t.text ∉ ["(", "?.", ".", "[", "=>", "++", "--"] := by
    intro hmem
    simp only [List.mem_cons, List.not_mem_nil, or_false] at hmem
    rcases hmem with hs | hs | hs | hs | hs | hs | hs <;> simp [binaryOperator?, hs] at h
  have hsuffix : t.text ∉ ["(", "?.", ".", "[", "=>"] := by
    intro hmem
    exact htext (List.mem_append_left ["++", "--"] hmem)
  have hupdate : ¬isUpdateOperator t = true := by
    rw [isUpdateOperator, Bool.or_eq_true, is_eq_true, is_eq_true]
    rintro (hs | hs) <;> rw [hs] at htext <;> exact absurd htext (by decide)
  rw [rank, if_neg hsuffix, if_neg hupdate, h]
  rfl

theorem rank_of_isAssignmentOperator (h : isAssignmentOperator t = true) : t.rank = 4 := by
  have hall : assignmentOperators.all (fun s => (⟨.punctuator, s⟩ : Token).rank == 4) = true := by
    decide
  obtain ⟨kind, s⟩ := t
  simp only [isAssignmentOperator, Bool.and_eq_true, decide_eq_true_eq, List.contains_iff_mem] at h
  obtain ⟨rfl, hs⟩ := h
  exact eq_of_beq (List.all_eq_true.mp hall s hs)

/-- The ranks of the other tokens that end an expression or go on with one. -/
theorem rank_of_text {s : String} {n : Nat} (h : t.text = s)
    (hs : (s, n) ∈ [("?", 3), (",", 5), (")", 6), ("]", 6), ("\x7d", 6), (":", 6), (";", 6)]) :
    t.rank = n := by
  simp only [List.mem_cons, List.not_mem_nil, or_false, Prod.mk.injEq] at hs
  rcases hs with ⟨rfl, rfl⟩ | ⟨rfl, rfl⟩ | ⟨rfl, rfl⟩ | ⟨rfl, rfl⟩ | ⟨rfl, rfl⟩ | ⟨rfl, rfl⟩ |
      ⟨rfl, rfl⟩ <;>
    simp [rank, h, isUpdateOperator, Token.is, binaryOperator?, isAssignmentOperator,
      assignmentOperators]

end Token

namespace Code

variable {code : Code} {e : TokenId × Token} {s : String} {q : Nat}

theorem rank_of_at? (h : code.at? q = some e) : code.rank q = e.2.rank := by
  rw [rank, h]
  rfl

theorem rank_le (code : Code) (q : Nat) : code.rank q ≤ 6 := by
  unfold rank
  cases code.at? q with
  | none => exact Nat.le_refl 6
  | some e => exact e.2.rank_le

theorem is_of_at? (h : code.at? q = some e) : code.is q s = e.2.is s := by
  rw [is, h]
  rfl

theorem is_eq_true_of_at? {i : TokenId} {t : Token} (h : code.at? q = some (i, t))
    (htext : t.text = s) : code.is q s = true := by
  rw [is_of_at? h]
  exact Token.is_eq_true.mpr htext

theorem is_eq_false_of_at? {i : TokenId} {t : Token} (h : code.at? q = some (i, t))
    (hne : t.text ≠ s) : code.is q s = false := by
  rw [is_of_at? h]
  exact beq_false_of_ne hne

/-- The text of a punctuator that stands at a position. -/
theorem is_of_punctuator (h : ∃ e, code.at? q = some e ∧ e.2 = .punctuator s) : code.is q s = true := by
  obtain ⟨⟨i, t⟩, he, htok⟩ := h
  obtain rfl : t = .punctuator s := htok
  exact is_eq_true_of_at? he rfl

/-- Where there is a text, there is another only if the two are the same. -/
theorem is_eq_false {s' : String} (h : code.is q s = true) (hne : s ≠ s') : code.is q s' = false := by
  rw [is, Option.any_eq_true] at h
  obtain ⟨e, he, htext⟩ := h
  rw [← Token.is_eq_true.mp htext] at hne
  exact is_eq_false_of_at? he hne

theorem rank_of_is {n : Nat} (h : code.is q s = true)
    (hs : (s, n) ∈ [("?", 3), (",", 5), (")", 6), ("]", 6), ("\x7d", 6), (":", 6), (";", 6)]) :
    code.rank q = n := by
  rw [is, Option.any_eq_true] at h
  obtain ⟨e, he, htext⟩ := h
  rw [rank_of_at? he]
  exact Token.rank_of_text (Token.is_eq_true.mp htext) hs

/-! ### Productions that stop -/

/-- A text of a lower rank does not stand at a position. -/
theorem is_eq_false_of_rank (hs : ∀ t : Token, t.text = s → t.rank < code.rank q) :
    code.is q s = false := by
  by_contra his
  rw [Bool.not_eq_false, is, Option.any_eq_true] at his
  obtain ⟨e, he, htext⟩ := his
  have hlt := hs e.2 (Token.is_eq_true.mp htext)
  rw [rank_of_at? he] at hlt
  exact Nat.lt_irrefl _ hlt

/-- No call, no member and no arrow stands at a position. -/
structure NoSuffix (code : Code) (q : Nat) : Prop where
  call     : code.is q "(" = false
  optional : code.is q "?." = false
  named    : code.is q "." = false
  computed : code.is q "[" = false
  arrow    : code.is q "=>" = false

theorem no_suffix (h : 0 < code.rank q) : code.NoSuffix q := by
  have hnot : ∀ s ∈ ["(", "?.", ".", "[", "=>"], code.is q s = false := by
    intro s hs
    apply is_eq_false_of_rank
    rintro t rfl
    rwa [Token.rank_of_suffix hs]
  constructor <;> exact hnot _ (by simp)

theorem no_update (h : 1 < code.rank q) (he : code.at? q = some e) : isUpdateOperator e.2 = false := by
  by_contra hupdate
  rw [rank_of_at? he, Token.rank_of_isUpdateOperator (by simpa using hupdate)] at h
  exact Nat.lt_irrefl _ h

theorem no_operation (h : 2 < code.rank q) (he : code.at? q = some e) : binaryOperator? e.2 = none := by
  cases hop : binaryOperator? e.2 with
  | none => rfl
  | some op =>
      rw [rank_of_at? he, Token.rank_of_binaryOperator? hop] at h
      exact absurd h (Nat.lt_irrefl _)

theorem no_conditional (h : 3 < code.rank q) : code.is q "?" = false := by
  apply is_eq_false_of_rank
  intro t ht
  rwa [Token.rank_of_text (n := 3) ht (by decide)]

theorem no_assignment (h : 4 < code.rank q) (he : code.at? q = some e) :
    isAssignmentOperator e.2 = false := by
  by_contra hassign
  rw [rank_of_at? he, Token.rank_of_isAssignmentOperator (by simpa using hassign)] at h
  exact Nat.lt_irrefl _ h

theorem no_sequence (h : 5 < code.rank q) : code.is q "," = false := by
  apply is_eq_false_of_rank
  intro t ht
  rwa [Token.rank_of_text (n := 5) ht (by decide)]

end Code

end ScriptSpacing
