import Mathlib.Data.List.Pairwise
import Mathlib.Logic.ExistsUnique
import ScriptSpacing.Proofs.Syntax.Forest
import ScriptSpacing.Proofs.Syntax.Yield

/-!
# `Proofs.Syntax.Postorder` — the handles of a tree count its nodes in post-order

A parser allocates a node when its last token is read, behind everything that was allocated for its symbols
(`Trace.node`), so the whole arena is the tree of its last node, listed in post-order (`Tree.Sound.listed`).
Everything else that is asked of the numbering follows from this one list: its handles are all different and
ascend, and each link is counted in it once.
-/

namespace ScriptSpacing

/-! ## Pre-order visits every node once -/

namespace Arena

variable {ar : Arena} {id root : NodeId} {n : Node}

/-- No node has more children than the arena is wide. -/
theorem length_children_le_width (h : ar.get? id = some n) : n.children.length ≤ ar.width := by
  have hfold : ∀ (l : List Node) (w : Nat),
      w ≤ l.foldl (fun w n => max w n.children.length) w ∧
      ∀ n ∈ l, n.children.length ≤ l.foldl (fun w n => max w n.children.length) w := by
    intro l
    induction l with
    | nil => exact fun w => ⟨Nat.le_refl w, fun n hn => by cases hn⟩
    | cons m l ih =>
        intro w
        obtain ⟨hstart, hrest⟩ := ih (max w m.children.length)
        refine ⟨Nat.le_trans (Nat.le_max_left _ _) hstart, fun n hn => ?_⟩
        rcases List.mem_cons.mp hn with rfl | hn
        · exact Nat.le_trans (Nat.le_max_right _ _) hstart
        · exact hrest n hn
  have hmem : n ∈ ar.nodes.toList := by
    rw [get?, ← Array.getElem?_toList] at h
    exact List.mem_of_getElem? h
  rw [width, ← Array.foldl_toList]
  exact (hfold _ 0).2 n hmem

theorem walk_nil (ar : Arena) (k : Nat) (visited : List NodeId) :
    ar.walk k [] visited = visited.reverse := by
  cases k <;> rfl

namespace Postorder

/-- **The budget of a traversal is enough for a tree.** -/
theorem size_le_budget (h : ar.Postorder [root] (List.range ar.size)) : ar.size ≤ ar.budget := by
  show ar.size ≤ (ar.width + 1) ^ ar.size
  by_cases hwidth : ar.width = 0
  · -- no node has children, so the root is alone
    have hnone : ∀ id, ar.childrenOf id = [] := by
      intro id
      cases hget : ar.get? id with
      | none => rw [childrenOf, hget]; rfl
      | some n =>
          have hle := length_children_le_width hget
          rw [childrenOf_eq hget]
          exact List.length_eq_zero_iff.mp (by omega)
    have hlen := h.perm_children.length_eq
    rw [List.flatMap_eq_nil_iff.mpr fun id _ => hnone id, List.length_range] at hlen
    rw [hwidth, hlen]
    exact Nat.le_refl 1
  · calc ar.size ≤ 2 ^ ar.size := Nat.le_of_lt Nat.lt_two_pow_self
      _ ≤ (ar.width + 1) ^ ar.size := Nat.pow_le_pow_left (by omega) _

/-- **A traversal of a tree lists it in pre-order**, every handle once. -/
theorem preorder_listed (h : ar.Postorder [root] (List.range ar.size)) :
    ar.Preorder [root] (ar.preorder root) ∧ (ar.preorder root).Perm (List.range ar.size) := by
  obtain ⟨order, hlisted, horder⟩ := h.exists_preorder
  have hlen : order.length = ar.size := by rw [horder.length_eq, List.length_range]
  obtain ⟨k, hk⟩ := Nat.exists_eq_add_of_le (hlen ▸ h.size_le_budget)
  have hrun := hlisted.walk_eq k [] []
  rw [← hk, List.append_nil, List.append_nil, walk_nil, List.reverse_reverse] at hrun
  rw [preorder, hrun]
  exact ⟨hlisted, horder⟩

theorem preorder_perm (h : ar.Postorder [root] (List.range ar.size)) :
    (ar.preorder root).Perm (List.range ar.size) := h.preorder_listed.2

/-- The children of all listed nodes, one list behind the other, are all different, and none of them is the
    handle at the top. -/
theorem nodup_children {l : List NodeId} (h : ar.Postorder [root] l) (hl : l.Nodup) :
    root ∉ l.flatMap ar.childrenOf ∧ (l.flatMap ar.childrenOf).Nodup :=
  List.nodup_cons.mp (h.perm_children.nodup_iff.mp hl)

end Postorder
end Arena

/-! ## Trees -/

open Grammar in
/-- The links of a node that records how it was read are its first child. -/
theorem Grammar.Owned.link_mem {ar : Arena} {code : Code} {n : Node} (h : Owned ar code n)
    {c : NodeId} (hlink : n.expression = some c ∨ n.callee = some c) : c ∈ n.children := by
  obtain ⟨g, kind, body, children, p, q, -, -, rfl⟩ := h
  simp only [Node.spanning] at hlink ⊢
  rcases hlink with hlink | hlink
  all_goals
    split at hlink
    · exact List.mem_of_mem_head? hlink
    · cases hlink

namespace Tree

/-- **A tree whose handles count its nodes in post-order**: so every node but the root has one parent, which
    has a greater handle, and a traversal meets every node once. -/
structure Postordered (t : Tree) : Prop where
  /-- the nodes under the root, in post-order, are the handles from zero on -/
  listed  : ∀ l, t.arena.Postorder [t.root] l ↔ l = List.range t.arena.size
  parent  : ∀ id, id < t.arena.size → id ≠ t.root → ∃! p, id ∈ t.arena.childrenOf p
  /-- no node is twice a child of the same one -/
  once    : ∀ p, (t.arena.childrenOf p).Nodup
  top     : ∀ p, t.root ∉ t.arena.childrenOf p
  ascends : ∀ p, ∀ c ∈ t.arena.childrenOf p, c < p
  visited : (t.arena.preorder t.root).Perm (List.range t.arena.size)
  /-- a link of a node names one of its children -/
  linked  : ∀ id n, t.arena.get? id = some n →
    ∀ c, n.expression = some c ∨ n.callee = some c → c ∈ n.children

/-- **The arena of a tree is the tree in post-order.** -/
theorem ofChain_postordered {ch : Chain} {t : Tree} (h : ofChain ch = .ok t) : t.Postordered := by
  have hsound := sound_ofCode h
  have hlisted := hsound.listed
  obtain ⟨htop, hnodup⟩ := hlisted.nodup_children List.nodup_range
  obtain ⟨honce, hdisjoint⟩ := List.nodup_flatMap.mp hnodup
  have hin : ∀ {p c}, c ∈ t.arena.childrenOf p → p ∈ List.range t.arena.size :=
    fun hc => List.mem_range.mpr (Arena.lt_size_of_mem_childrenOf hc)
  refine ⟨fun l => ⟨fun hl => hl.unique hlisted, fun hl => hl ▸ hlisted⟩, ?_, ?_, ?_, ?_,
    hlisted.preorder_perm, ?_⟩
  · intro id hid hroot
    have hmem := hlisted.perm_children.mem_iff.mp (List.mem_range.mpr hid)
    rcases List.mem_cons.mp hmem with rfl | hmem
    · exact absurd rfl hroot
    obtain ⟨p, hp, hchild⟩ := List.mem_flatMap.mp hmem
    refine ⟨p, hchild, fun p' hchild' => ?_⟩
    by_contra hne
    have : Std.Symm (Function.onFun List.Disjoint t.arena.childrenOf) := ⟨fun _ _ h _ hx hx' => h hx' hx⟩
    exact hdisjoint.forall (hin hchild') hp hne hchild' hchild
  · intro p
    by_cases hp : p ∈ List.range t.arena.size
    · exact honce p hp
    · exact List.eq_nil_iff_forall_not_mem.mpr (fun c hc => hp (hin hc)) ▸ List.nodup_nil
  · exact fun p hchild => htop (List.mem_flatMap.mpr ⟨p, hin hchild, hchild⟩)
  · exact fun p c hc => hlisted.child_lt List.pairwise_lt_range (hin hc) hc
  · intro id n hn c hlink
    rcases hsound.nodes id n hn with rfl | howned
    · obtain ⟨k, body, -, hroot⟩ := hsound.program
      cases hn.symm.trans hroot
      rcases hlink with hlink | hlink <;> cases hlink
    · exact howned.link_mem hlink

/-- A call: its callee and arguments come before it, the one in parentheses too. -/
theorem ofChain_postordered_call :
    ∃ ch t, ch = Chain.ofList [⟨.identifier, "f"⟩, ⟨.punctuator, "("⟩, ⟨.identifier, "a"⟩,
        ⟨.punctuator, ","⟩, ⟨.whiteSpace, " "⟩, ⟨.punctuator, "("⟩, ⟨.identifier, "b"⟩,
        ⟨.punctuator, ")"⟩, ⟨.punctuator, ")"⟩] ∧
      ofChain ch = .ok t ∧
      t.arena.get? 3 = some ⟨.callExpression, some 0, some 8, none, some 0, [0, 1, 2]⟩ ∧
      t.Postordered := by
  obtain ⟨t, ht, hnode⟩ := exists_ofChain (Chain.ofList [⟨.identifier, "f"⟩, ⟨.punctuator, "("⟩,
      ⟨.identifier, "a"⟩, ⟨.punctuator, ","⟩, ⟨.whiteSpace, " "⟩, ⟨.punctuator, "("⟩,
      ⟨.identifier, "b"⟩, ⟨.punctuator, ")"⟩, ⟨.punctuator, ")"⟩])
    (fun t => t.arena.get? 3 = some ⟨.callExpression, some 0, some 8, none, some 0, [0, 1, 2]⟩)
    (by decide +kernel)
  exact ⟨_, t, rfl, ht, hnode, ofChain_postordered ht⟩

end Tree
end ScriptSpacing
