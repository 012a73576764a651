import ScriptSpacing.Proofs.Syntax.Soundness.Expression
import ScriptSpacing.Syntax.Parse

/-!
# `Proofs.Syntax.Soundness.Statement` — statements and programs are read as the grammar says

The productions of `Syntax.Grammar.Statement`, in its order, and then the knot: `upTo` is sound by induction
on the number of rounds, so a program is a list of statements that takes every token (`Tree.sound_ofCode`),
and every node of its tree but the root records how it was read.
-/

namespace ScriptSpacing
namespace Grammar
open Parser

variable {code : Code} {again : Grammar} {st st' : ParseState} {id : NodeId}

/-! ## Statements -/

theorem expressionStatement_trace (hag : Sound code again)
    (h : expressionStatement again code st = .ok (id, st')) :
    Trace code st [.part .statement] [id] st' := by
  obtain ⟨e, s, hpeek, h⟩ := bind_eq_ok.mp h
  obtain ⟨he, rfl⟩ := peek_eq_ok.mp hpeek
  obtain ⟨inner, s₁, hinner, h⟩ := bind_eq_ok.mp h
  obtain ⟨b, s₂, hsemi, h⟩ := bind_eq_ok.mp h
  obtain ⟨ps, hps, htsemi⟩ := Trace.eat_optional hsemi
  have ht := (expression_trace hag hinner).trans htsemi
  have hrule : Rule .statement .expressionStatement ([.part .expression] ++ ps) :=
    .expressionStatement hps
  obtain ⟨last, s₃, hlast, h⟩ := bind_eq_ok.mp h
  rw [ht.lastRead_eq hrule.ne_nil] at hlast
  cases hlast
  cases h
  have hnode := ht.node hrule
  rwa [Node.spanning, start_of_at? he, if_pos rfl, if_neg (by decide)] at hnode

theorem initializer_trace (hag : Sound code again) {ids : List NodeId}
    (h : initializer again code st = .ok (ids, st')) :
    ∃ ps, Optional [.text "=", .part .assignment] ps ∧ Trace code st ps ids st' := by
  rcases Trace.eat_bind h with ⟨hequals, h⟩ | h
  · obtain ⟨value, s, hvalue, h⟩ := bind_eq_ok.mp h
    cases h
    exact ⟨_, .present, (Trace.bump_text hequals).trans (hag.trace hvalue)⟩
  · cases h
    exact ⟨_, .absent, .refl _⟩

theorem declarator_trace (hag : Sound code again) (h : declarator again code st = .ok (id, st')) :
    Trace code st [.part .declarator] [id] st' := by
  obtain ⟨e, s, hpeek, h⟩ := bind_eq_ok.mp h
  obtain ⟨he, rfl⟩ := peek_eq_ok.mp hpeek
  obtain ⟨name, s₁, hname, h⟩ := bind_eq_ok.mp h
  obtain ⟨value, s₂, hvalue, h⟩ := bind_eq_ok.mp h
  obtain ⟨ps, hps, htvalue⟩ := initializer_trace hag hvalue
  exact ((bindingIdentifier_trace hname).trans htvalue).finish (.declarator hps) (start_of_at? he)
    (by decide) h

theorem declaratorTail_trace (hag : Sound code again) :
    ∀ {n : Nat} {declarators result : List NodeId} {st st' : ParseState},
      declaratorTail again declarators n code st = .ok (result, st') →
      ∃ ps new, Tail .declarator ps ∧ result.reverse = declarators.reverse ++ new ∧
        Trace code st ps new st' := by
  intro n
  induction n with
  | zero =>
      intro declarators result st st' h
      cases h
      exact ⟨[], [], .nil, by simp, .refl _⟩
  | succ n ih =>
      intro declarators result st st' h
      rcases Trace.eat_bind h with ⟨hcomma, h⟩ | h
      · obtain ⟨id, s, hrun, h⟩ := bind_eq_ok.mp h
        obtain ⟨ps, new, hps, hresult, hrest⟩ := ih h
        exact ⟨_, id :: new, .cons hps, by simp [hresult],
          ((Trace.bump_text hcomma).trans (declarator_trace hag hrun)).trans hrest⟩
      · cases h
        exact ⟨[], [], .nil, by simp, .refl _⟩

theorem variableDeclaration_trace (hag : Sound code again) {e : TokenId × Token}
    (he : code.at? st.pos = some e) (hword : e.2.text ∈ ["var", "let", "const"])
    (h : variableDeclaration again code st = .ok (id, st')) :
    Trace code st [.part .statement] [id] st' := by
  obtain ⟨e', s, hpeek, h⟩ := bind_eq_ok.mp h
  obtain ⟨he', rfl⟩ := peek_eq_ok.mp hpeek
  have htword : Trace code st [.text e.2.text] [] { st with pos := st.pos + 1 } :=
    .bump he (Token.is_eq_true.mpr rfl)
  obtain ⟨-, s₁, ⟨⟩, h⟩ := bind_eq_ok.mp h
  obtain ⟨head, s₂, hhead, h⟩ := bind_eq_ok.mp h
  have hthead := htword.trans (declarator_trace hag hhead)
  obtain ⟨n, _, ⟨⟩, h⟩ := bind_eq_ok.mp h
  obtain ⟨declarators, s₃, htail, h⟩ := bind_eq_ok.mp h
  obtain ⟨ps, new, hps, hresult, httail⟩ := declaratorTail_trace hag htail
  obtain ⟨b, s₄, hsemi, h⟩ := bind_eq_ok.mp h
  obtain ⟨semi, hsm, htsemi⟩ := Trace.eat_optional hsemi
  have ht := (hthead.trans httail).trans htsemi
  rw [List.append_nil] at ht
  rw [hresult] at h
  exact ht.finish (.variableDeclaration hword hps hsm) (start_of_at? he') (by decide) h

theorem returnValue_trace (hag : Sound code again) {ids : List NodeId}
    (h : returnValue again code st = .ok (ids, st')) :
    ∃ ps, Optional [.part .expression] ps ∧ Trace code st ps ids st' := by
  obtain ⟨b, _, ⟨⟩, h⟩ := bind_eq_ok.mp h
  split at h
  · cases h
    exact ⟨_, .absent, .refl _⟩
  obtain ⟨b, _, ⟨⟩, h⟩ := bind_eq_ok.mp h
  split at h
  · cases h
    exact ⟨_, .absent, .refl _⟩
  obtain ⟨b, _, ⟨⟩, h⟩ := bind_eq_ok.mp h
  split at h
  · cases h
    exact ⟨_, .absent, .refl _⟩
  · obtain ⟨value, s, hvalue, h⟩ := bind_eq_ok.mp h
    cases h
    exact ⟨_, .present, hag.trace hvalue⟩

theorem returnStatement_trace (hag : Sound code again)
    (h : returnStatement again code st = .ok (id, st')) :
    Trace code st [.part .statement] [id] st' := by
  obtain ⟨start, s, hword, h⟩ := bind_eq_ok.mp h
  obtain ⟨htword, hstart⟩ := Trace.expect hword
  obtain ⟨value, s₁, hvalue, h⟩ := bind_eq_ok.mp h
  obtain ⟨ps, hps, htvalue⟩ := returnValue_trace hag hvalue
  obtain ⟨b, s₂, hsemi, h⟩ := bind_eq_ok.mp h
  obtain ⟨semi, hsm, htsemi⟩ := Trace.eat_optional hsemi
  have ht := (htword.trans htvalue).trans htsemi
  rw [List.append_nil] at ht
  exact ht.finish (.returnStatement hps hsm) hstart (by decide) h

theorem elseBranch_trace (hag : Sound code again) {ids : List NodeId}
    (h : elseBranch again code st = .ok (ids, st')) :
    ∃ ps, Optional [.text "else", .part .statement] ps ∧ Trace code st ps ids st' := by
  rcases Trace.eat_bind h with ⟨helse, h⟩ | h
  · obtain ⟨alternate, s, halternate, h⟩ := bind_eq_ok.mp h
    cases h
    exact ⟨_, .present, (Trace.bump_text helse).trans (hag.trace halternate)⟩
  · cases h
    exact ⟨_, .absent, .refl _⟩

theorem ifStatement_trace (hag : Sound code again) (h : ifStatement again code st = .ok (id, st')) :
    Trace code st [.part .statement] [id] st' := by
  obtain ⟨start, s, hword, h⟩ := bind_eq_ok.mp h
  obtain ⟨htword, hstart⟩ := Trace.expect hword
  obtain ⟨_, s₁, hopen, h⟩ := bind_eq_ok.mp h
  obtain ⟨htopen, -⟩ := Trace.expect hopen
  obtain ⟨test, s₂, htest, h⟩ := bind_eq_ok.mp h
  have httest := (htword.token htopen).trans (hag.trace htest)
  obtain ⟨_, s₃, hclose, h⟩ := bind_eq_ok.mp h
  obtain ⟨htclose, -⟩ := Trace.expect hclose
  obtain ⟨consequent, s₄, hconsequent, h⟩ := bind_eq_ok.mp h
  have htconsequent := (httest.token htclose).trans (hag.trace hconsequent)
  obtain ⟨alternate, s₅, halternate, h⟩ := bind_eq_ok.mp h
  obtain ⟨ps, hps, htalternate⟩ := elseBranch_trace hag halternate
  exact (htconsequent.trans htalternate).finish (.ifStatement hps) hstart (by decide) h

/-- What `p` reads from one state on is the part `g`. -/
def ReadsFrom (code : Code) (st : ParseState) (g : Part) (p : Parser NodeId) : Prop :=
  ∀ id st', p code st = .ok (id, st') → Trace code st [.part g] [id] st'

theorem statement_trace (hag : Sound code again) (h : statement again code st = .ok (id, st')) :
    Trace code st [.part .statement] [id] st' := by
  obtain ⟨⟨start, t⟩, s, hpeek, h⟩ := bind_eq_ok.mp h
  obtain ⟨he, rfl⟩ := peek_eq_ok.mp hpeek
  -- the goal is stated of the parser, so that the `match` on the text can be split
  refine (?_ : ReadsFrom code st .statement _) id st' h
  dsimp only
  split
  · next htext => exact fun _ _ h => variableDeclaration_trace hag he (by simp [htext]) h
  · next htext => exact fun _ _ h => variableDeclaration_trace hag he (by simp [htext]) h
  · next htext => exact fun _ _ h => variableDeclaration_trace hag he (by simp [htext]) h
  · exact fun _ _ h => functionDeclaration_trace hag h
  · exact fun _ _ h => returnStatement_trace hag h
  · exact fun _ _ h => ifStatement_trace hag h
  · exact fun _ _ h => (block_trace hag h).lift .block
  · next htext =>
      exact fun _ _ h => .leaf .emptyStatement he (Token.is_eq_true.mpr htext) (by decide) h
  · exact fun _ _ h => expressionStatement_trace hag h

/-! ## Whole programs -/

theorem sound_round (hag : Sound code again) : Sound code (round again) := by
  intro goal st id st' h
  cases goal with
  | statement =>
      refine ⟨statement_trace hag h, ?_⟩
      rintro least ⟨⟩
  | expression =>
      refine ⟨expression_trace hag h, ?_⟩
      rintro least ⟨⟩
  | assignment =>
      refine ⟨assignment_trace hag h, ?_⟩
      rintro least ⟨⟩
  | binary least =>
      obtain ⟨ht, hends⟩ := binary_trace hag h
      refine ⟨ht, ?_⟩
      rintro _ ⟨⟩
      exact hends
  | unary =>
      refine ⟨unary_trace hag h, ?_⟩
      rintro least ⟨⟩
  | construction =>
      refine ⟨construction_trace hag h, ?_⟩
      rintro least ⟨⟩

/-- **The grammar is sound**, however many rounds it is given. -/
theorem sound_upTo (code : Code) (n : Nat) : Sound code (upTo n) := by
  induction n with
  | zero =>
      intro goal st id st' h
      exact absurd h unexpected_ne_ok
  | succ n ih => exact sound_round ih

theorem programBody_trace (hag : Sound code again) :
    ∀ {n : Nat} {body result : List NodeId} {st st' : ParseState}, code.size - st.pos ≤ n →
      programBody again body n code st = .ok (result, st') →
      ∃ k new, result.reverse = body.reverse ++ new ∧ code.size ≤ st'.pos ∧
        Trace code st (List.replicate k (.part .statement)) new st' := by
  intro n
  induction n with
  | zero =>
      intro body result st st' hn h
      cases h
      exact ⟨0, [], by simp, by omega, .refl _⟩
  | succ n ih =>
      intro body result st st' hn h
      obtain ⟨b, _, ⟨⟩, h⟩ := bind_eq_ok.mp h
      split at h
      · next hend =>
          cases h
          exact ⟨0, [], by simp, of_decide_eq_true hend, .refl _⟩
      obtain ⟨id, s, hrun, h⟩ := bind_eq_ok.mp h
      have ht := hag.trace hrun
      have hlt : st.pos + 1 ≤ s.pos := ht.reads.add_length_le
      obtain ⟨k, new, hresult, hsize, hrest⟩ := ih (by omega) h
      exact ⟨k + 1, id :: new, by simp [hresult], hsize, ht.trans hrest⟩

/-- The node of a program: its span is all of the code. -/
def programNode (code : Code) (body : List NodeId) : Node where
  kind     := .program
  first    := (code.at? 0).map (·.1)
  last     := (code.at? (code.size - 1)).map (·.1)
  children := body

end Grammar

namespace Tree
open Grammar Parser

/-- **A tree is a reading of all code tokens**: its root is a program of statements that take every token,
    every other node records how it was read, and the handles count the nodes in post-order. -/
structure Sound (code : Code) (t : Tree) : Prop where
  program : ∃ k body, Reads t.arena code (List.replicate k (.part .statement)) 0 body code.size ∧
    t.arena.get? t.root = some (programNode code body)
  nodes : ∀ id n, t.arena.get? id = some n → id = t.root ∨ Owned t.arena code n
  listed : t.arena.Postorder [t.root] (List.range t.arena.size)

/-- **Every tree that is made is sound.** -/
theorem sound_ofCode {code : Code} {t : Tree} (h : ofCode code = .ok t) : t.Sound code := by
  unfold ofCode at h
  split at h
  · next root s hrun =>
      cases h
      obtain ⟨n, _, ⟨⟩, hrun⟩ := bind_eq_ok.mp hrun
      obtain ⟨body, s₁, hbody, hrun⟩ := bind_eq_ok.mp hrun
      obtain ⟨k, new, hnew, hsize, ht⟩ :=
        programBody_trace (sound_upTo code _) (by simp) hbody
      obtain ⟨span, _, ⟨⟩, hrun⟩ := bind_eq_ok.mp hrun
      cases hrun
      have hpos : s₁.pos = code.size := Nat.le_antisymm (ht.reads.le_size (Nat.zero_le _)) hsize
      have hext := s₁.arena.extends_push (programNode code new)
      have hnode : (⟨.program, (code.at? 0).map (·.1), (code.at? (code.size - 1)).map (·.1), none,
          none, body.reverse⟩ : Node) = programNode code new := by
        rw [hnew]
        rfl
      rw [hnode]
      have hroot := Arena.get?_push_fresh s₁.arena (programNode code new)
      refine ⟨⟨k, new, hpos ▸ ht.reads.mono hext, hroot⟩, ?_, ?_⟩
      · intro id n hn
        rcases Arena.get?_push_cases hn with ⟨hid, -⟩ | hold
        · exact .inl hid
        -- the arena was empty at the start
        rcases ht.grown id n hold with hnil | howned
        · simp [Arena.get?] at hnil
        · exact .inr (howned.mono hext)
      · obtain ⟨m, hm, hlist⟩ := ht.listed
        have hempty : ({} : ParseState).arena.size = 0 := rfl
        have hfresh : s₁.arena.fresh = m := by rw [hempty, Nat.zero_add] at hm; exact hm
        rw [hempty, ← List.range_eq_range'] at hlist
        rw [Arena.size_push, hm, hempty, Nat.zero_add, List.range_succ, ← hfresh]
        exact .cons hroot (hfresh ▸ hlist.mono hext) .nil
  · cases h

end Tree
end ScriptSpacing
