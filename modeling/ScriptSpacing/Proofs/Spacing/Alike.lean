import Mathlib.Data.List.Forall2
import ScriptSpacing.Proofs.Spacing.Apply
import ScriptSpacing.Proofs.Spacing.Locate
import ScriptSpacing.Proofs.Syntax.Alike
import ScriptSpacing.Spacing.Pass

/-!
# `Proofs.Spacing.Alike` — alike trees are spaced alike

Two chains that hold the same solid tokens, under whatever handles and with whatever whitespace, have alike
codes, so their trees are alike. Everything the pass decides is then decided alike: which nodes it visits
(`preorder_eq`), which of them take space (`takesSpace_eq`), at which positions their parentheses stand
(`Pair.find?_rel`), and which gaps that limits (`Directive.mark?_same`).
-/

namespace ScriptSpacing

/-! ## Nodes -/

/-- Different positions have different handles. -/
def Code.Distinct (code : Code) : Prop :=
  ∀ i j a b, code.at? i = some a → code.at? j = some b → a.1 = b.1 → i = j

section Nodes

variable {code code' : Code} {ar ar' : Arena}

theorem Code.SamePlace.eq_iff (hd : code.Distinct) (hd' : code'.Distinct) {a b a' b' : TokenId}
    (ha : code.SamePlace code' a a') (hb : code.SamePlace code' b b') : a = b ↔ a' = b' := by
  obtain ⟨i, e, e', hi, hi', rfl, rfl⟩ := ha
  obtain ⟨j, f, f', hj, hj', rfl, rfl⟩ := hb
  constructor
  · intro h
    obtain rfl := hd i j e f hi hj h
    rw [hi'] at hj'
    cases hj'
    rfl
  · intro h
    obtain rfl := hd' i j e' f' hi' hj' h
    rw [hi] at hj
    cases hj
    rfl

/-- Handles that may be missing are equal where those of the same places are. -/
theorem Code.SamePlace.rel_eq_iff (hd : code.Distinct) (hd' : code'.Distinct)
    {a b a' b' : Option TokenId} (ha : Option.Rel (code.SamePlace code') a a')
    (hb : Option.Rel (code.SamePlace code') b b') : a = b ↔ a' = b' := by
  cases ha with
  | none => cases hb <;> simp
  | some ha =>
      cases hb with
      | none => simp
      | some hb => simpa using ha.eq_iff hd hd' hb

theorem Code.SamePlace.symm {a b : TokenId} (h : code.SamePlace code' a b) :
    code'.SamePlace code b a := by
  obtain ⟨i, e, e', he, he', ha, hb⟩ := h
  exact ⟨i, e', e, he', he, hb, ha⟩

theorem Node.Alike.symm {n n' : Node} (h : n.Alike code code' n') : n'.Alike code' code n := by
  have hrel : ∀ {a b : Option TokenId}, Option.Rel (code.SamePlace code') a b →
      Option.Rel (code'.SamePlace code) b a := by
    rintro a b (hab | _)
    · exact .some hab.symm
    · exact .none
  exact ⟨h.kind.symm, hrel h.first, hrel h.last, h.expression.symm, h.callee.symm, h.children.symm⟩

theorem Arena.Alike.kind_eq (h : ar.Alike code code' ar') (id : NodeId) :
    (ar.get? id).map (·.kind) = (ar'.get? id).map (·.kind) := by
  have hnode := h.nodes id
  revert hnode
  generalize ar.get? id = o, ar'.get? id = o'
  rintro (hn | _)
  · exact congrArg some hn.kind
  · rfl

theorem Arena.Alike.callsFunction_eq (h : ar.Alike code code' ar') {n n' : Node}
    (hn : n.Alike code code' n') : ar.callsFunction n = ar'.callsFunction n' := by
  have hany : ∀ o : Option Node, o.any (·.kind = .functionExpression) =
      (o.map (·.kind)).any (· = .functionExpression) := by
    intro o
    cases o <;> rfl
  rw [callsFunction, callsFunction, hany, hany, hn.callee]
  cases n'.callee with
  | none => rfl
  | some c => rw [Option.bind_some, Option.bind_some, h.kind_eq]

/-- **The same nodes take space.** -/
theorem Arena.Alike.takesSpace_eq (h : ar.Alike code code' ar') (hd : code.Distinct)
    (hd' : code'.Distinct) (id : NodeId) : ar.takesSpace id = ar'.takesSpace id := by
  have hstatement : ∀ {n n' : Node}, n.Alike code code' n' →
      ar.statementTakesSpace n = ar'.statementTakesSpace n' := by
    intro n n' hn
    rw [statementTakesSpace, statementTakesSpace, hn.expression]
    cases n'.expression with
    | none => rfl
    | some x =>
        have hinner := h.nodes x
        revert hinner
        rw [Option.bind_some, Option.bind_some]
        generalize ar.get? x = o, ar'.get? x = o'
        rintro (hm | _)
        · have hfirst := Code.SamePlace.rel_eq_iff hd hd' hn.first hm.first
          simp only [h.callsFunction_eq hm, ne_eq, hfirst]
        · rfl
  have hnode := h.nodes id
  revert hnode
  rw [takesSpace, takesSpace]
  generalize ar.get? id = o, ar'.get? id = o'
  rintro (hn | _)
  · simp only [hn.kind, hstatement hn]
  · rfl

theorem Arena.Alike.map_children_eq (h : ar.Alike code code' ar') :
    ar.nodes.toList.map (·.children) = ar'.nodes.toList.map (·.children) := by
  apply List.ext_getElem?
  intro i
  have hnode := h.nodes i
  revert hnode
  simp only [Arena.get?, List.getElem?_map, Array.getElem?_toList]
  generalize ar.nodes[i]? = o, ar'.nodes[i]? = o'
  rintro (hn | _)
  · exact congrArg some hn.children
  · rfl

/-- **The same nodes are visited.** -/
theorem Arena.Alike.preorder_eq (h : ar.Alike code code' ar') (root : NodeId) :
    ar.preorder root = ar'.preorder root := by
  -- the walk looks at the children alone, and its count at how many there are
  have hwalk : ∀ n pending visited, ar.walk n pending visited = ar'.walk n pending visited := by
    intro n
    induction n with
    | zero => exact fun _ _ => rfl
    | succ n ih =>
        intro pending visited
        cases pending with
        | nil => rfl
        | cons id pending =>
            have hnode := h.nodes id
            revert hnode
            simp only [walk]
            generalize ar.get? id = o, ar'.get? id = o'
            rintro (hn | _)
            · simp only [hn.children, ih]
            · exact ih _ _
  have hfoldl : ∀ ar : Arena, ar.width =
      (ar.nodes.toList.map (·.children)).foldl (fun w c => max w c.length) 0 := by
    intro ar
    rw [width, ← Array.foldl_toList, List.foldl_map]
  have hbudget : ar.budget = ar'.budget := by
    rw [budget, budget, h.size, hfoldl, hfoldl, h.map_children_eq]
  rw [preorder, preorder, hwalk, hbudget]

end Nodes

/-! ## Positions -/

namespace Code.Alike

variable {code code' : Code} {i j k m : Nat} {kind : Node.Kind}

theorem symm (h : code.Alike code') : code'.Alike code :=
  ⟨fun i => (h.tokens i).symm, h.closers.symm⟩

theorem depth_eq (h : code.Alike code') (p : Nat) : code.depth p = code'.depth p := by
  have hlist : code.tokens.toList.map (·.2) = code'.tokens.toList.map (·.2) := by
    apply List.ext_getElem?
    intro i
    simpa [at?] using h.tokens i
  have hdepth : ∀ c : Code, c.depth p =
      (((c.tokens.toList.map (·.2)).take p).map Chain.depthStep).sum := by
    intro c
    rw [depth, ← List.map_take, List.map_map]
    rfl
  rw [hdepth, hdepth, hlist]

theorem closes (h : code.Alike code') (hc : code.Closes k m) : code'.Closes k m where
  opener := h.is_eq k "(" ▸ hc.opener
  lt     := hc.lt
  inside := h.size_eq ▸ hc.inside
  level  := by rw [← h.depth_eq, ← h.depth_eq]; exact hc.level
  first  := by
    intro q hk hm
    rw [← h.depth_eq, ← h.depth_eq]
    exact hc.first q hk hm

theorem encloses (h : code.Alike code') (he : code.Encloses kind i j k m) :
    code'.Encloses kind i j k m where
  place  := h.is_eq i "(" ▸ he.place
  closes := h.closes he.closes
  ending := he.ending

end Code.Alike

/-- Two pairs at the same positions of their codes. -/
structure Pair.Same (code code' : Code) (p p' : Pair) : Prop where
  opening : code.SamePlace code' p.opening p'.opening
  closing : code.SamePlace code' p.closing p'.closing

section Pairs

variable {ch ch' : Chain} {es es' : List Linked} {ar ar' : Arena}

theorem Chain.Holds.distinct (h : Chain.Holds ch es) : (Code.ofChain ch).Distinct :=
  fun _ _ _ _ hi hj => (h.at?_inj hi hj).mp

/-- A pair found in one chain stands at the same positions of the other. -/
theorem Pair.ofNode?_same (h : Chain.Holds ch es) (h' : Chain.Holds ch' es')
    (hes : Chain.PlainTrivia es) (hes' : Chain.PlainTrivia es')
    (hcode : (Code.ofChain ch).Alike (Code.ofChain ch')) {n n' : Node}
    (hn : n.Alike (Code.ofChain ch) (Code.ofChain ch') n') {p : Pair} (hp : ofNode? ch n = some p) :
    ∃ p', ofNode? ch' n' = some p' ∧ p.Same (Code.ofChain ch) (Code.ofChain ch') p' := by
  obtain ⟨first, hfirst, hp⟩ := Option.bind_eq_some_iff.mp hp
  obtain ⟨last, hlast, hp⟩ := Option.bind_eq_some_iff.mp hp
  have hrfirst := hn.first
  have hrlast := hn.last
  rw [hfirst] at hrfirst
  rw [hlast] at hrlast
  cases hf' : n'.first with
  | none => rw [hf'] at hrfirst; cases hrfirst
  | some first' =>
  cases hl' : n'.last with
  | none => rw [hl'] at hrlast; cases hrlast
  | some last' =>
  rw [hf'] at hrfirst
  rw [hl'] at hrlast
  obtain ⟨⟨i, a, a', hi, hi', rfl, rfl⟩⟩ := hrfirst
  obtain ⟨⟨j, b, b', hj, hj', rfl, rfl⟩⟩ := hrlast
  obtain ⟨k, m, c, d, hc, hd, rfl, hencloses⟩ := (around?_eq_some_iff h hes hi hj).mp hp
  obtain ⟨c', hc'⟩ := Code.exists_at? (hcode.size_eq ▸ Code.lt_size_of_at? hc)
  obtain ⟨d', hd'⟩ := Code.exists_at? (hcode.size_eq ▸ Code.lt_size_of_at? hd)
  have hencloses' := hcode.encloses hencloses
  rw [hn.kind] at hencloses'
  have hp' := (around?_eq_some_iff h' hes' hi' hj').mpr
    ⟨k, m, c', d', hc', hd', rfl, hencloses'⟩
  refine ⟨⟨c'.1, d'.1⟩, ?_, ⟨k, c, c', hc, hc', rfl, rfl⟩, ⟨m, d, d', hd, hd', rfl, rfl⟩⟩
  rw [ofNode?, hf', hl']
  exact hp'

/-- **The same pairs are found**, node by node. -/
theorem Pair.find?_rel (h : Chain.Holds ch es) (h' : Chain.Holds ch' es')
    (hes : Chain.PlainTrivia es) (hes' : Chain.PlainTrivia es')
    (hcode : (Code.ofChain ch).Alike (Code.ofChain ch'))
    (har : ar.Alike (Code.ofChain ch) (Code.ofChain ch') ar') (id : NodeId) :
    Option.Rel (Pair.Same (Code.ofChain ch) (Code.ofChain ch')) (find? ch ar id)
      (find? ch' ar' id) := by
  have hnode := har.nodes id
  rw [find?, find?, har.takesSpace_eq h.distinct h'.distinct, locate?, locate?]
  split
  · revert hnode
    generalize ar.get? id = o, ar'.get? id = o'
    -- a pair in one chain is a pair in the other, in both directions
    rintro (@⟨n, n', hn⟩ | _)
    · rw [Option.bind_some, Option.bind_some]
      cases hp : ofNode? ch n with
      | some p =>
          obtain ⟨p', hp', hsame⟩ := ofNode?_same h h' hes hes' hcode hn hp
          rw [hp']
          exact .some hsame
      | none =>
          cases hp' : ofNode? ch' n' with
          | none => exact .none
          | some p' =>
              obtain ⟨p, hsome, -⟩ := ofNode?_same h' h hes' hes hcode.symm hn.symm hp'
              rw [hp] at hsome
              cases hsome
    · exact .none
  · exact .none

/-- The pairs of the pass, in order. -/
theorem Chain.pairsOf_forall₂ (h : Chain.Holds ch es) (h' : Chain.Holds ch' es')
    (hes : Chain.PlainTrivia es) (hes' : Chain.PlainTrivia es')
    (hcode : (Code.ofChain ch).Alike (Code.ofChain ch'))
    (har : ar.Alike (Code.ofChain ch) (Code.ofChain ch') ar') (nodes : List NodeId) :
    List.Forall₂ (Pair.Same (Code.ofChain ch) (Code.ofChain ch')) (ch.pairsOf ar nodes)
      (ch'.pairsOf ar' nodes) := by
  induction nodes with
  | nil => exact .nil
  | cons id nodes ih =>
      have hfind := Pair.find?_rel h h' hes hes' hcode har id
      rw [pairsOf, pairsOf, List.filterMap_cons, List.filterMap_cons]
      revert hfind
      generalize Pair.find? ch ar id = o, Pair.find? ch' ar' id = o'
      rintro (hsame | _)
      · exact .cons hsame ih
      · exact ih

end Pairs

/-! ## Gaps -/

/-- The `k`-th code tokens of two lists with the same tokens stand at the same index. -/
theorem Linked.findIdx?_same : ∀ {us us' : List Linked} {k : Nat} {c c' : Linked},
    us.map (·.2) = us'.map (·.2) → (us.map (·.1)).Nodup → (us'.map (·.1)).Nodup →
    (us.filter (·.2.isCode))[k]? = some c → (us'.filter (·.2.isCode))[k]? = some c' →
    us.findIdx? (·.1 == c.1) = us'.findIdx? (·.1 == c'.1)
  | [], _, _, _, _, _, _, _, hc, _ => by simp at hc
  | _ :: _, [], _, _, _, htokens, _, _, _, _ => by simp at htokens
  | e :: us, e' :: us', k, c, c', htokens, hnd, hnd', hc, hc' => by
    simp only [List.map_cons, List.cons.injEq] at htokens
    obtain ⟨htoken, htokens⟩ := htokens
    simp only [List.map_cons, List.nodup_cons] at hnd hnd'
    have hrest : ∀ {k : Nat}, (us.filter (·.2.isCode))[k]? = some c →
        (us'.filter (·.2.isCode))[k]? = some c' →
        (e :: us).findIdx? (·.1 == c.1) = (e' :: us').findIdx? (·.1 == c'.1) := by
      intro k hk hk'
      have hne : ∀ {e c : Linked} {us : List Linked}, e.1 ∉ us.map (·.1) →
          (us.filter (·.2.isCode))[k]? = some c → (e.1 == c.1) = false := by
        intro e c us hnot hk
        have hmem : c ∈ us := List.mem_of_mem_filter (List.mem_of_getElem? hk)
        exact beq_eq_false_iff_ne.mpr fun heq => hnot (heq ▸ List.mem_map_of_mem hmem)
      rw [List.findIdx?_cons, List.findIdx?_cons, hne hnd.1 hk, hne hnd'.1 hk',
        findIdx?_same htokens hnd.2 hnd'.2 hk hk']
    cases hcode : e.2.isCode with
    | false =>
        rw [List.filter_cons_of_neg (by simp [hcode])] at hc
        rw [List.filter_cons_of_neg (by simp [← htoken, hcode])] at hc'
        exact hrest hc hc'
    | true =>
        rw [Chain.filter_code_cons hcode] at hc
        rw [Chain.filter_code_cons (htoken ▸ hcode)] at hc'
        cases k with
        | succ k => exact hrest hc hc'
        | zero =>
            cases hc
            cases hc'
            simp [List.findIdx?_cons]

/-- A directive on the same token has the same gap. -/
theorem Directive.mark?_same {us us' : List Linked} {a b : TokenId}
    (htokens : us.map (·.2) = us'.map (·.2))
    (hidx : us.findIdx? (·.1 == a) = us'.findIdx? (·.1 == b)) (side : Side) (rule : Rule) :
    mark? us ⟨a, side, rule⟩ = mark? us' ⟨b, side, rule⟩ := by
  have hany : ∀ i : Nat, (us[i]?).any (!·.2.isLineBreak) = (us'[i]?).any (!·.2.isLineBreak) := by
    intro i
    have hmap : ∀ o : Option Linked, o.any (!·.2.isLineBreak) =
        (o.map (·.2)).any (!·.isLineBreak) := by
      intro o
      cases o <;> rfl
    rw [hmap, hmap, ← List.getElem?_map, ← List.getElem?_map, htokens]
  simp only [mark?, gap?, hidx, hany]

end ScriptSpacing
