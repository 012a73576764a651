import ScriptSpacing.Proofs.Syntax.Derivation
import ScriptSpacing.Proofs.Syntax.Forest

/-!
# `Proofs.Syntax.Trace` — what a parser has read between two states

`Trace code st ps ids st'` says that between two states of a parser the tokens were read as the symbols
`ps` with the nodes `ids`, and that every node allocated meanwhile records how it was read and lies under one
of `ids`, in post-order. Traces compose
(`Trace.trans`), each primitive of the parser adds its own symbol, and allocating a node turns the trace of
a rule's symbols into the trace of one part (`Trace.finish`).
-/

namespace ScriptSpacing
namespace Grammar
open Parser

/-- **What was read between two states**, and that the nodes allocated meanwhile are in order. -/
structure Trace (code : Code) (st : ParseState) (ps : List Symbol) (ids : List NodeId)
    (st' : ParseState) : Prop where
  kept  : st'.arena.Extends st.arena
  grown : ∀ id n, st'.arena.get? id = some n → st.arena.get? id = some n ∨
    Owned st'.arena code n
  listed : ∃ k, st'.arena.size = st.arena.size + k ∧
    st'.arena.Postorder ids (List.range' st.arena.size k)
  reads : Reads st'.arena code ps st.pos ids st'.pos

/-- The kinds of nodes that link to one of their children. -/
def linkingKinds : List Node.Kind := [.expressionStatement, .callExpression, .newExpression]

namespace Trace

variable {code : Code} {st s st' : ParseState} {ps ps' : List Symbol} {ids ids' : List NodeId}
  {g g' : Part} {id : NodeId}

theorem refl (st : ParseState) : Trace code st [] [] st :=
  ⟨fun _ _ h => h, fun _ _ h => .inl h, ⟨0, rfl, .nil⟩, .nil _⟩

theorem trans (h : Trace code st ps ids s) (h' : Trace code s ps' ids' st') :
    Trace code st (ps ++ ps') (ids ++ ids') st' where
  kept := fun id n hn => h'.kept id n (h.kept id n hn)
  grown := by
    intro id n hn
    rcases h'.grown id n hn with hs | howned
    · exact (h.grown id n hs).imp_right fun ho => ho.mono h'.kept
    · exact .inr howned
  listed := by
    obtain ⟨k, hk, hlist⟩ := h.listed
    obtain ⟨k', hk', hlist'⟩ := h'.listed
    refine ⟨k + k', by omega, ?_⟩
    rw [← List.range'_append_1, ← hk]
    exact (hlist.mono h'.kept).append hlist'
  reads := (h.reads.mono h'.kept).append h'.reads

/-- A trace followed by a token, which adds no node. -/
theorem token {t : Terminal} (h : Trace code st ps ids s)
    (h' : Trace code s [.token t] [] st') : Trace code st (ps ++ [.token t]) ids st' := by
  simpa using h.trans h'

theorem lift (h : Trace code st [.part g'] [id] st') (hcov : g.Covers g') :
    Trace code st [.part g] [id] st' :=
  ⟨h.kept, h.grown, h.listed, .lift hcov h.reads⟩

/-! ## Primitives -/

theorem bump {t : Terminal} {e : TokenId × Token} (he : code.at? st.pos = some e)
    (hacc : t.accepts e.2 = true) :
    Trace code st [.token t] [] { st with pos := st.pos + 1 } :=
  ⟨fun _ _ h => h, fun _ _ h => .inl h, ⟨0, rfl, .nil⟩, .token he hacc (.nil _)⟩

/-- A token found by its text. -/
theorem bump_text {text : String} (h : code.is st.pos text = true) :
    Trace code st [.text text] [] { st with pos := st.pos + 1 } := by
  obtain ⟨e, he, htext⟩ := Option.any_eq_true _ _ |>.mp h
  exact bump he htext

theorem expect {text : String} {start : TokenId} (h : expect text code st = .ok (start, st')) :
    Trace code st [.text text] [] st' ∧ (code.at? st.pos).map (·.1) = some start := by
  obtain ⟨htext, hstart, rfl⟩ := expect_eq_ok.mp h
  exact ⟨bump_text htext, hstart⟩

/-- After `eat`, what follows goes on behind the token or in its place. -/
theorem eat_bind {α : Type} {text : String} {k : Bool → Parser α} {r : α × ParseState}
    (h : (eat text >>= k) code st = .ok r) :
    (code.is st.pos text = true ∧ k true code { st with pos := st.pos + 1 } = .ok r) ∨
      k false code st = .ok r := by
  obtain ⟨b, s, heat, hk⟩ := bind_eq_ok.mp h
  rw [eat_apply] at heat
  cases htext : code.is st.pos text with
  | true =>
      rw [htext] at heat
      cases heat
      exact .inl ⟨rfl, hk⟩
  | false =>
      rw [htext] at heat
      cases heat
      exact .inr hk

/-- A token that may be missing. -/
theorem eat_optional {text : String} {b : Bool} (h : eat text code st = .ok (b, st')) :
    ∃ ps, Optional [.text text] ps ∧ Trace code st ps [] st' := by
  have hpure : (eat text >>= pure) code st = .ok (b, st') := bind_eq_ok.mpr ⟨b, st', h, rfl⟩
  rcases eat_bind hpure with ⟨htext, hrest⟩ | hrest
  · cases hrest
    exact ⟨_, .present, bump_text htext⟩
  · cases hrest
    exact ⟨_, .absent, refl _⟩

/-! ## Allocating -/

/-- **The symbols of a rule become a node.** -/
theorem node {kind : Node.Kind} (h : Trace code st ps ids s) (hrule : Rule g kind ps) :
    Trace code st [.part g] [s.arena.fresh]
      { s with arena := s.arena.push (Node.spanning code kind ids st.pos s.pos) } := by
  have hext := s.arena.extends_push (Node.spanning code kind ids st.pos s.pos)
  have hbody := h.reads.mono hext
  have hnode := Arena.get?_push_fresh s.arena (Node.spanning code kind ids st.pos s.pos)
  refine ⟨fun id n hn => hext id n (h.kept id n hn), ?_, ?_, .node hrule hbody hnode (.nil _)⟩
  · intro id n hn
    rcases Arena.get?_push_cases hn with ⟨-, rfl⟩ | hold
    · exact .inr ⟨g, kind, ps, ids, st.pos, s.pos, hrule, hbody, rfl⟩
    · exact (h.grown id n hold).imp_right fun ho => ho.mono hext
  · -- the node comes behind all that was allocated for its symbols
    obtain ⟨k, hk, hlist⟩ := h.listed
    refine ⟨k + 1, by rw [Arena.size_push]; omega, ?_⟩
    rw [List.range'_1_concat, ← hk]
    exact .cons hnode (hlist.mono hext) .nil

/-- What was read last is in front of the position, once anything was read. -/
theorem lastRead_eq (h : Trace code st ps ids s) (hne : ps ≠ []) :
    lastRead code s = .ok ((code.at? (s.pos - 1)).map (·.1), s) := by
  have hlt := h.reads.add_length_le
  have := List.length_pos_iff.mpr hne
  unfold lastRead
  split
  · omega
  · next i hi => rw [hi]; rfl

/-- `finish` allocates the node of a rule for a kind without links. -/
theorem finish {kind : Node.Kind} {start : TokenId} (h : Trace code st ps ids s)
    (hrule : Rule g kind ps) (hstart : (code.at? st.pos).map (·.1) = some start)
    (hplain : kind ∉ linkingKinds) (hrun : finish kind start ids code s = .ok (id, st')) :
    Trace code st [.part g] [id] st' := by
  simp only [linkingKinds, List.mem_cons, List.not_mem_nil, or_false, not_or] at hplain
  obtain ⟨last, s₁, hlast, hnode⟩ := bind_eq_ok.mp hrun
  rw [h.lastRead_eq hrule.ne_nil] at hlast
  cases hlast
  cases hnode
  have := h.node hrule
  rwa [Node.spanning, hstart, if_neg hplain.1, if_neg (not_or.mpr hplain.2)] at this

/-- `finishCall` allocates the node of a call, which links to the first of its children. -/
theorem finishCall {kind : Node.Kind} {start : TokenId} {callee : NodeId} {args : List NodeId}
    (h : Trace code st ps (callee :: args) s) (hrule : Rule g kind ps)
    (hstart : (code.at? st.pos).map (·.1) = some start)
    (hcall : kind = .callExpression ∨ kind = .newExpression)
    (hrun : finishCall kind start callee args code s = .ok (id, st')) :
    Trace code st [.part g] [id] st' := by
  obtain ⟨last, s₁, hlast, hnode⟩ := bind_eq_ok.mp hrun
  rw [h.lastRead_eq hrule.ne_nil] at hlast
  cases hlast
  cases hnode
  have hexpr : kind ≠ .expressionStatement := by
    rintro rfl
    rcases hcall with h | h <;> cases h
  have := h.node hrule
  rwa [Node.spanning, hstart, if_neg hexpr, if_pos hcall] at this

/-- A single token as a node. -/
theorem leaf {kind : Node.Kind} {w : Wanted} {t : Terminal} {e : TokenId × Token}
    (hrule : Rule g kind [.token t]) (he : code.at? st.pos = some e)
    (hacc : t.accepts e.2 = true) (hplain : kind ∉ linkingKinds)
    (hrun : leaf kind w code st = .ok (id, st')) : Trace code st [.part g] [id] st' := by
  obtain ⟨e', s₁, hpeek, hrun⟩ := bind_eq_ok.mp hrun
  obtain ⟨he', rfl⟩ := peek_eq_ok.mp hpeek
  obtain ⟨-, s₂, ⟨⟩, hrun⟩ := bind_eq_ok.mp hrun
  exact (bump he hacc).finish hrule (by rw [he']; rfl) hplain hrun

end Trace
end Grammar
end ScriptSpacing
