import ScriptSpacing.Proofs.Syntax.Soundness.Statement
import ScriptSpacing.Proofs.Token.Holds

/-!
# `Proofs.Syntax.Yield` — the tokens that a node stands for

`Reads` speaks of positions. `Yields ar ps ids es` says the same of the tokens themselves: the list `es` is a
yield of the symbols `ps`, whose parts are the nodes `ids`. A token yields itself. A node yields what the
symbols of its rule yield, one after the other, and its span is that and nothing else (`Node.covering`). A
part in brackets yields the brackets too, which no span takes in.

A tree that is made from a chain yields the code tokens of the chain, each of them in one place
(`Tree.ofChain_yields`).
-/

namespace ScriptSpacing

/-! ## The tokens between two positions -/

/-- The code tokens from the position `p` up to `q`. -/
def Code.slice (code : Code) (p q : Nat) : List Linked := (code.tokens.toList.drop p).take (q - p)

namespace Code

variable {code : Code} {p q r i : Nat} {e : Linked}

@[simp] theorem slice_self (code : Code) (p : Nat) : code.slice p p = [] := by
  simp [slice]

/-- The code tokens up to a position, and those behind it. -/
theorem slice_append (hp : p ≤ r) (hq : r ≤ q) :
    code.slice p r ++ code.slice r q = code.slice p q := by
  have hlen : q - p = (r - p) + (q - r) := by omega
  have hdrop : p + (r - p) = r := by omega
  rw [slice, slice, slice, hlen, List.take_add, List.drop_drop, hdrop]

theorem slice_succ (h : code.at? p = some e) : code.slice p (p + 1) = [e] := by
  have hget : code.tokens.toList[p]? = some e := by simpa [at?] using h
  obtain ⟨hlt, hget⟩ := List.getElem?_eq_some_iff.mp hget
  rw [slice, List.drop_eq_getElem_cons hlt, hget, Nat.add_sub_cancel_left, List.take_succ_cons,
    List.take_zero]

/-- The code token at `p` is the first of a slice that begins there. -/
theorem slice_cons (h : code.at? p = some e) (hlt : p < q) :
    code.slice p q = e :: code.slice (p + 1) q := by
  rw [← slice_append (Nat.le_succ p) hlt, slice_succ h]
  rfl

theorem slice_zero_size (code : Code) : code.slice 0 code.size = code.tokens.toList := by
  rw [slice, List.drop_zero, Nat.sub_zero, size, ← Array.length_toList, List.take_length]

theorem getElem?_slice (code : Code) (p q i : Nat) :
    (code.slice p q)[i]? = if i < q - p then code.at? (p + i) else none := by
  simp [slice, at?, List.getElem?_take, List.getElem?_drop]

theorem length_slice (hq : q ≤ code.size) : (code.slice p q).length = q - p := by
  rw [size, ← Array.length_toList] at hq
  rw [slice, List.length_take, List.length_drop]
  omega

/-- The ends of a slice. -/
theorem head?_slice (hlt : p < q) : (code.slice p q).head? = code.at? p := by
  rw [List.head?_eq_getElem?, getElem?_slice, if_pos (by omega), Nat.add_zero]

theorem getLast?_slice (hlt : p < q) (hq : q ≤ code.size) :
    (code.slice p q).getLast? = code.at? (q - 1) := by
  rw [List.getLast?_eq_getElem?, length_slice hq, getElem?_slice, if_pos (by omega)]
  congr 1
  omega

end Code

/-! ## Yields -/

/-- The node of a kind with the parts `children`, whose span is the tokens `own`. -/
def Node.covering (kind : Node.Kind) (children : List NodeId) (own : List Linked) : Node where
  kind       := kind
  first      := own.head?.map (·.1)
  last       := own.getLast?.map (·.1)
  expression := if kind = .expressionStatement then children.head? else none
  callee     := if kind = .callExpression ∨ kind = .newExpression then children.head? else none
  children   := children

namespace Grammar

/-- **The tokens `es` are a yield of the symbols `ps`**, whose parts are the nodes `ids`. -/
inductive Yields (ar : Arena) : List Symbol → List NodeId → List Linked → Prop where
  | nil : Yields ar [] [] []
  | token {t : Terminal} {e : Linked} {ps : List Symbol} {ids : List NodeId} {es : List Linked} :
      t.accepts e.2 = true → Yields ar ps ids es → Yields ar (.token t :: ps) ids (e :: es)
  /-- what the symbols of a rule yield is the span of their node -/
  | node {g : Part} {kind : Node.Kind} {body ps : List Symbol} {id : NodeId}
      {children ids : List NodeId} {own es : List Linked} :
      Rule g kind body → Yields ar body children own →
      ar.get? id = some (Node.covering kind children own) → Yields ar ps ids es →
      Yields ar (.part g :: ps) (id :: ids) (own ++ es)
  /-- brackets that leave no node are outside the span of what they enclose -/
  | wrap {g g' : Part} {opener closer : String} {a b : Linked} {ps : List Symbol} {id : NodeId}
      {ids : List NodeId} {inner es : List Linked} :
      g.Wraps opener g' closer → a.2.is opener = true → Yields ar [.part g'] [id] inner →
      b.2.is closer = true → Yields ar ps ids es →
      Yields ar (.part g :: ps) (id :: ids) (a :: inner ++ b :: es)
  | lift {g g' : Part} {ps : List Symbol} {ids : List NodeId} {es : List Linked} :
      g.Covers g' → Yields ar (.part g' :: ps) ids es → Yields ar (.part g :: ps) ids es

variable {ar : Arena} {code : Code} {ps : List Symbol} {ids : List NodeId} {p q : Nat}

/-- Something is read only in front of the end of the code. -/
theorem Reads.lt_size (h : Reads ar code ps p ids q) (hne : ps ≠ []) : p < code.size := by
  induction h with
  | nil => exact absurd rfl hne
  | token hat _ _ _ => exact Code.lt_size_of_at? hat
  | node hrule _ _ _ ihbody _ => exact ihbody hrule.ne_nil
  | wrap _ hopen _ _ _ _ _ => exact Code.lt_size_of_is hopen
  | lift _ _ ih => exact ih (List.cons_ne_nil _ _)

/-- A span between two positions is made of the tokens there. -/
theorem spanning_eq_covering (kind : Node.Kind) (children : List NodeId) (hlt : p < q)
    (hq : q ≤ code.size) :
    Node.spanning code kind children p q = Node.covering kind children (code.slice p q) := by
  rw [Node.spanning, Node.covering, Code.head?_slice hlt, Code.getLast?_slice hlt hq]

/-- **What is read between two positions is a yield**: the tokens there, one after the other. -/
theorem Reads.yields (h : Reads ar code ps p ids q) (hq : q ≤ code.size) :
    Yields ar ps ids (code.slice p q) := by
  induction h with
  | nil p =>
      rw [Code.slice_self]
      exact .nil
  | token hat hacc hrest ih =>
      rw [Code.slice_cons hat hrest.le]
      exact .token hacc (ih hq)
  | @node g kind body ps id children ids p r q hrule hbody hnode hrest ihbody ih =>
      have hlen := List.length_pos_iff.mpr hrule.ne_nil
      have hlt := hbody.add_length_le
      have hr : r ≤ code.size := Nat.le_trans hrest.le hq
      rw [← Code.slice_append hbody.le hrest.le]
      rw [spanning_eq_covering kind children (by omega) hr] at hnode
      exact .node hrule (ihbody hr) hnode (ih hq)
  | @wrap g g' opener closer ps id ids p r q hwrap hopen hinner hclose hrest ihinner ih =>
      obtain ⟨a, ha, hopener⟩ := (Option.any_eq_true _ _).mp hopen
      obtain ⟨b, hb, hcloser⟩ := (Option.any_eq_true _ _).mp hclose
      have hr := Nat.le_trans hrest.le hq
      have hle := hinner.le
      have hle' := hrest.le
      rw [Code.slice_cons ha (by omega), ← Code.slice_append hle (show r ≤ q by omega),
        Code.slice_cons hb hle']
      exact .wrap hwrap hopener (ihinner (by omega)) hcloser (ih hq)
  | lift hcov _ ih => exact .lift hcov (ih hq)

end Grammar

namespace Tree
open Grammar

/-- **The tokens of a tree**: they are a yield of its root, a program of statements, and the span of every
    other node is a part of them that its own symbols yield. -/
structure Yields (t : Tree) (tokens : List Linked) : Prop where
  program : ∃ n body, t.arena.get? t.root = some (Node.covering .program body tokens) ∧
    Grammar.Yields t.arena (List.replicate n (.part .statement)) body tokens
  nodes : ∀ id n, t.arena.get? id = some n → id = t.root ∨
    ∃ g kind body children before own after, Grammar.Rule g kind body ∧
      Grammar.Yields t.arena body children own ∧ n = Node.covering kind children own ∧
      tokens = before ++ own ++ after

/-- The node of a program covers all of the code. -/
theorem programNode_eq_covering (code : Code) (body : List NodeId) :
    programNode code body = Node.covering .program body code.tokens.toList := by
  have hfirst : code.tokens.toList.head? = code.at? 0 := by
    simp [List.head?_eq_getElem?, Code.at?]
  have hlast : code.tokens.toList.getLast? = code.at? (code.size - 1) := by
    simp [List.getLast?_eq_getElem?, Code.at?, Code.size]
  rw [programNode, Node.covering, hfirst, hlast]
  rfl

/-- **A sound tree yields its code.** -/
theorem Sound.yields {code : Code} {t : Tree} (h : t.Sound code) : t.Yields code.tokens.toList where
  program := by
    obtain ⟨n, body, hbody, hroot⟩ := h.program
    have hyields := hbody.yields (Nat.le_refl _)
    rw [Code.slice_zero_size] at hyields
    rw [programNode_eq_covering] at hroot
    exact ⟨n, body, hroot, hyields⟩
  nodes := by
    intro id n hn
    rcases h.nodes id n hn with hid | ⟨g, kind, body, children, p, q, hrule, hbody, rfl⟩
    · exact .inl hid
    · right
      have hlen := List.length_pos_iff.mpr hrule.ne_nil
      have hlt := hbody.add_length_le
      have hq := hbody.le_size (Nat.le_of_lt (hbody.lt_size hrule.ne_nil))
      refine ⟨g, kind, body, children, code.slice 0 p, code.slice p q, code.slice q code.size, hrule,
        hbody.yields hq, spanning_eq_covering kind children (by omega) hq, ?_⟩
      rw [Code.slice_append (Nat.zero_le p) hbody.le, Code.slice_append (Nat.zero_le q) hq,
        Code.slice_zero_size]

/-- **Every code token of a chain is accounted for once.** The code tokens of a chain that is read as a tree
    are a yield of the root of the tree, and the span of each of its nodes is the part of them that the
    symbols of the node yield. -/
theorem ofChain_yields {ch : Chain} {t : Tree} (h : ofChain ch = .ok t) :
    t.Yields (ch.entries.filter (·.2.isCode)) := by
  have hyields := (sound_ofCode h).yields
  rwa [Code.ofChain, Code.ofEntries, List.toList_toArray] at hyields

/-- What is decided of a tree once it is made. -/
theorem exists_ofChain (ch : Chain) (P : Tree → Prop) [DecidablePred P]
    (h : (ofChain ch).toOption.any (fun t => decide (P t)) = true) :
    ∃ t, ofChain ch = .ok t ∧ P t := by
  cases hread : ofChain ch with
  | error e =>
      rw [hread] at h
      cases h
  | ok t =>
      rw [hread] at h
      exact ⟨t, rfl, of_decide_eq_true h⟩

/-- An array with a hole and a trailing comma: its span is without the parentheses around it. -/
theorem ofChain_yields_hole :
    ∃ ch t, ch = Chain.ofList [⟨.punctuator, "("⟩, ⟨.whiteSpace, " "⟩, ⟨.punctuator, "["⟩,
        ⟨.punctuator, ","⟩, ⟨.identifier, "a"⟩, ⟨.punctuator, ","⟩, ⟨.punctuator, "]"⟩,
        ⟨.punctuator, ")"⟩] ∧
      ofChain ch = .ok t ∧
      t.arena.get? 1 = some ⟨.arrayExpression, some 2, some 6, none, none, [0]⟩ ∧
      t.Yields (ch.entries.filter (·.2.isCode)) := by
  obtain ⟨t, ht, hnode⟩ := exists_ofChain (Chain.ofList [⟨.punctuator, "("⟩, ⟨.whiteSpace, " "⟩,
      ⟨.punctuator, "["⟩, ⟨.punctuator, ","⟩, ⟨.identifier, "a"⟩, ⟨.punctuator, ","⟩,
      ⟨.punctuator, "]"⟩, ⟨.punctuator, ")"⟩])
    (fun t => t.arena.get? 1 = some ⟨.arrayExpression, some 2, some 6, none, none, [0]⟩)
    (by decide +kernel)
  exact ⟨_, t, rfl, ht, hnode, ofChain_yields ht⟩

end Tree
end ScriptSpacing
