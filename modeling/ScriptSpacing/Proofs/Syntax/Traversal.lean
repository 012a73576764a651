import Mathlib.Algebra.Ring.Nat
import Mathlib.Data.Finset.Card
import Mathlib.Logic.Relation
import ScriptSpacing.Proofs.Syntax.Postorder

/-!
# `Proofs.Syntax.Traversal` — the traversal with a stack, beside the recursive one

`Arena.preorder` keeps the handles that are still to be visited on a stack; `Arena.under` is the recursion that
this stands for: a node, then what is under its children in order. Where no node is below itself both are
defined for every handle, also in an arena that was never a tree: children may be shared, and then what is under
them is listed once for each path, and may be no nodes at all, and then they contribute nothing.

The recursion ends since a node has more nodes below it than any of its children (`rank_lt`). The traversal ends
for the same reason, but takes as many turns as there are paths: with at most `w` children to a node, at most
`(w + 1) ^ rank` turns (`exists_runs`), which its budget covers. Each turn is told by `Turn`, and whatever else
is pending stays on the stack below, so a run over a handle can be put in front of a run over the next
(`Runs.trans`).
-/

namespace ScriptSpacing
namespace Arena

variable {ar : Arena} {id c root : NodeId} {n : Node}

/-! ## Arenas without cycles -/

/-- One handle names the other as a child. -/
def Names (ar : Arena) (id c : NodeId) : Prop := c ∈ ar.childrenOf id

/-- **No handle is below itself.** -/
def Acyclic (ar : Arena) : Prop := ∀ id, ¬Relation.TransGen ar.Names id id

open Classical in
/-- The nodes of the arena at a handle and below it. -/
noncomputable def below (ar : Arena) (id : NodeId) : Finset NodeId :=
  (Finset.range ar.size).filter fun j => Relation.ReflTransGen ar.Names id j

/-- How many nodes there are at a handle and below it. -/
noncomputable def rank (ar : Arena) (id : NodeId) : Nat := (ar.below id).card

theorem mem_below_iff {j : NodeId} :
    j ∈ ar.below id ↔ j < ar.size ∧ Relation.ReflTransGen ar.Names id j := by
  simp [below]

theorem rank_le_size (ar : Arena) (id : NodeId) : ar.rank id ≤ ar.size := by
  have h := Finset.card_le_card (Finset.filter_subset (· ∈ ar.below id) (Finset.range ar.size))
  rw [Finset.card_range] at h
  refine Nat.le_trans (Finset.card_le_card fun j hj => ?_) h
  exact Finset.mem_filter.mpr ⟨Finset.mem_range.mpr (mem_below_iff.mp hj).1, hj⟩

/-- **A child has fewer nodes below it**: its parent is not among them. -/
theorem Acyclic.rank_lt (h : ar.Acyclic) (hc : c ∈ ar.childrenOf id) : ar.rank c < ar.rank id := by
  refine Finset.card_lt_card ((Finset.ssubset_iff_of_subset fun j hj => ?_).mpr ⟨id, ?_, ?_⟩)
  · obtain ⟨hsize, hreach⟩ := mem_below_iff.mp hj
    exact mem_below_iff.mpr ⟨hsize, hreach.head hc⟩
  · exact mem_below_iff.mpr ⟨lt_size_of_mem_childrenOf hc, .refl⟩
  · exact fun hid => h id (.head' hc (mem_below_iff.mp hid).2)

/-- An arena has no cycles when every child that is a node was allocated before its parent. -/
theorem acyclic_of_lt
    (h : ∀ id, id < ar.size → ∀ c ∈ ar.childrenOf id, c < id ∨ ar.size ≤ c) : ar.Acyclic := by
  -- handles that are no nodes have no children, so a path that goes on descends
  have hstep : ∀ {i j k : NodeId}, ar.Names i j → ar.Names j k → j < i := by
    intro i j k hij hjk
    rcases h i (lt_size_of_mem_childrenOf hij) j hij with hlt | hge
    · exact hlt
    · exact absurd (lt_size_of_mem_childrenOf hjk) (Nat.not_lt.mpr hge)
  have hdescends : ∀ {i j k : NodeId}, Relation.TransGen ar.Names i j → ar.Names j k → j < i := by
    intro i j k hij hjk
    induction hij generalizing k with
    | single hone => exact hstep hone hjk
    | tail _ hlast ih => exact Nat.lt_trans (hstep hlast hjk) (ih hlast)
  intro id hcycle
  obtain ⟨first, hfirst, -⟩ := Relation.TransGen.head'_iff.mp hcycle
  exact Nat.lt_irrefl _ (hdescends hcycle hfirst)

/-! ## The recursion -/

/-- **The handles under a handle, by recursion**: a node, then what is under its children in order; nothing for a
    handle that is no node. -/
def under (ar : Arena) (h : ar.Acyclic) (id : NodeId) : List NodeId :=
  match _hget : ar.get? id with
  | none => []
  | some n => id :: n.children.attach.flatMap fun c => ar.under h c.1
termination_by ar.rank id
decreasing_by exact h.rank_lt (by rw [childrenOf_eq _hget]; exact c.2)

theorem under_of_none (h : ar.Acyclic) (hget : ar.get? id = none) : ar.under h id = [] := by
  rw [under]
  split
  · rfl
  · next hsome => cases hget.symm.trans hsome

theorem under_of_some (h : ar.Acyclic) (hget : ar.get? id = some n) :
    ar.under h id = id :: n.children.flatMap (ar.under h) := by
  rw [under]
  split
  · next hnone => cases hget.symm.trans hnone
  · next hsome =>
      cases hget.symm.trans hsome
      rw [List.cons_inj_right, ← List.flatMap_map, List.attach_map_subtype_val]

/-! ## Turns of the traversal -/

/-- **One turn of the traversal**, on the stack of pending handles and the handles visited, last one first. -/
inductive Turn (ar : Arena) : List NodeId × List NodeId → List NodeId × List NodeId → Prop where
  /-- a node is visited, and its children are pending -/
  | visit {id : NodeId} {n : Node} {pending visited : List NodeId} :
      ar.get? id = some n → Turn ar (id :: pending, visited) (n.children ++ pending, id :: visited)
  /-- a handle that is no node is dropped -/
  | drop {id : NodeId} {pending visited : List NodeId} :
      ar.get? id = none → Turn ar (id :: pending, visited) (pending, visited)

/-- A number of turns, one after the other. -/
inductive Runs (ar : Arena) : Nat → List NodeId × List NodeId → List NodeId × List NodeId → Prop where
  | refl (s : List NodeId × List NodeId) : Runs ar 0 s s
  | turn {t : Nat} {s s' s'' : List NodeId × List NodeId} :
      ar.Turn s s' → Runs ar t s' s'' → Runs ar (t + 1) s s''

variable {s s' s'' : List NodeId × List NodeId} {t u : Nat}

/-- A turn is decided by the state. -/
theorem Turn.unique (h : ar.Turn s s') (h' : ar.Turn s s'') : s' = s'' := by
  cases h with
  | visit hget =>
      cases h' with
      | visit hget' => cases hget.symm.trans hget'; rfl
      | drop hget'  => cases hget.symm.trans hget'
  | drop hget =>
      cases h' with
      | visit hget' => cases hget.symm.trans hget'
      | drop        => rfl

/-- **A step of the budget is a turn.** -/
theorem Turn.walk_eq (h : ar.Turn s s') (k : Nat) : ar.walk (k + 1) s.1 s.2 = ar.walk k s'.1 s'.2 := by
  cases h with
  | visit hget => rw [walk, hget]
  | drop hget  => rw [walk, hget]

namespace Runs

theorem trans (h : ar.Runs t s s') (h' : ar.Runs u s' s'') : ar.Runs (t + u) s s'' := by
  induction h with
  | refl s => rwa [Nat.zero_add]
  | turn hturn _ ih =>
      rw [Nat.add_right_comm]
      exact .turn hturn (ih h')

theorem walk_eq (h : ar.Runs t s s') (k : Nat) : ar.walk (t + k) s.1 s.2 = ar.walk k s'.1 s'.2 := by
  induction h with
  | refl s => rw [Nat.zero_add]
  | turn hturn _ ih => rw [Nat.add_right_comm, hturn.walk_eq, ih]

/-- **No run goes on where the stack is empty**, so none is longer than one that empties it. -/
theorem le_of_empty {visited : List NodeId} (h : ar.Runs t s ([], visited)) (h' : ar.Runs u s s') :
    u ≤ t := by
  induction h' generalizing t with
  | refl s => exact Nat.zero_le t
  | turn hturn _ ih =>
      cases h with
      | refl => cases hturn
      | turn hturn' hrest =>
          cases hturn.unique hturn'
          exact Nat.succ_le_succ (ih hrest)

end Runs

/-! ## The traversal lists what the recursion lists -/

/-- A run over some handles, from a run over each. -/
theorem exists_runs_flatMap {bound : Nat} {f : NodeId → List NodeId} {ids : List NodeId}
    (h : ∀ id ∈ ids, ∀ pending visited, ∃ t, t ≤ bound ∧
      ar.Runs t (id :: pending, visited) (pending, (f id).reverse ++ visited))
    (pending visited : List NodeId) :
    ∃ t, t ≤ ids.length * bound ∧
      ar.Runs t (ids ++ pending, visited) (pending, (ids.flatMap f).reverse ++ visited) := by
  induction ids generalizing visited with
  | nil => exact ⟨0, Nat.zero_le _, .refl _⟩
  | cons id ids ih =>
      obtain ⟨t, ht, hfirst⟩ := h id List.mem_cons_self (ids ++ pending) visited
      obtain ⟨u, hu, hrest⟩ := ih (fun id hid => h id (List.mem_cons_of_mem _ hid)) ((f id).reverse ++ visited)
      refine ⟨t + u, ?_, ?_⟩
      · rw [List.length_cons, Nat.succ_mul, Nat.add_comm]
        exact Nat.add_le_add hu ht
      · rw [List.flatMap_cons, List.reverse_append, List.append_assoc]
        exact hfirst.trans hrest

/-- **The traversal takes a handle off its stack and visits what is under it**, in a number of turns that is
    bounded by the nodes below. -/
theorem Acyclic.exists_runs (h : ar.Acyclic) (id : NodeId) (pending visited : List NodeId) :
    ∃ t, t ≤ (ar.width + 1) ^ ar.rank id ∧
      ar.Runs t (id :: pending, visited) (pending, (ar.under h id).reverse ++ visited) := by
  induction hrank : ar.rank id using Nat.strong_induction_on generalizing id pending visited with
  | _ r ih =>
  subst hrank
  cases hget : ar.get? id with
  | none =>
      rw [under_of_none h hget]
      exact ⟨1, Nat.one_le_pow _ _ (Nat.succ_pos _), .turn (.drop hget) (.refl _)⟩
  | some n =>
      -- a child has at least one node less below it, so its turns are bounded by the next lower power
      have hpos : 0 < ar.rank id :=
        Finset.card_pos.mpr ⟨id, mem_below_iff.mpr ⟨lt_size_of_get? hget, .refl⟩⟩
      obtain ⟨r, hr⟩ : ∃ r, ar.rank id = r + 1 := ⟨_, (Nat.succ_pred_eq_of_pos hpos).symm⟩
      have hchildren : ∀ c ∈ n.children, ∀ pending visited, ∃ t, t ≤ (ar.width + 1) ^ r ∧
          ar.Runs t (c :: pending, visited) (pending, (ar.under h c).reverse ++ visited) := by
        intro c hc pending visited
        have hlt := h.rank_lt (childrenOf_eq hget ▸ hc)
        obtain ⟨t, ht, hruns⟩ := ih _ hlt c pending visited rfl
        exact ⟨t, Nat.le_trans ht (Nat.pow_le_pow_right (Nat.succ_pos _) (by omega)), hruns⟩
      obtain ⟨t, ht, hruns⟩ := exists_runs_flatMap hchildren pending (id :: visited)
      refine ⟨t + 1, ?_, ?_⟩
      · have hwidth := Nat.mul_le_mul_right ((ar.width + 1) ^ r) (length_children_le_width hget)
        have hone : 1 ≤ (ar.width + 1) ^ r := Nat.one_le_pow _ _ (Nat.succ_pos _)
        calc t + 1 ≤ ar.width * (ar.width + 1) ^ r + (ar.width + 1) ^ r :=
              Nat.add_le_add (Nat.le_trans ht hwidth) hone
          _ = (ar.width + 1) ^ ar.rank id := by rw [hr, Nat.pow_succ', Nat.succ_mul]
      · rw [under_of_some h hget, List.reverse_cons, List.append_assoc]
        exact .turn (.visit hget) hruns

/-- **The traversal with a stack is the recursive one**, in every arena without cycles and from every handle: its
    turns come to an end, with an empty stack and within the budget, and what it lists is the node followed by
    what is listed for its children in order, with nothing for a handle that is no node. A node that is shared is
    listed once for each path. -/
theorem preorder_eq_under (h : ar.Acyclic) (root : NodeId) :
    (∃ t, t ≤ ar.budget ∧ ar.Runs t ([root], []) ([], (ar.under h root).reverse) ∧
      ∀ u s, ar.Runs u ([root], []) s → u ≤ t) ∧
    ar.preorder root = ar.under h root := by
  obtain ⟨t, ht, hruns⟩ := h.exists_runs root [] []
  rw [List.append_nil] at hruns
  have hbudget : t ≤ ar.budget :=
    Nat.le_trans ht (Nat.pow_le_pow_right (Nat.succ_pos _) (rank_le_size ar root))
  refine ⟨⟨t, hbudget, hruns, fun u s hrun => hruns.le_of_empty hrun⟩, ?_⟩
  have hwalk := hruns.walk_eq (ar.budget - t)
  rw [Nat.add_sub_cancel' hbudget] at hwalk
  rw [preorder, hwalk, walk_nil, List.reverse_reverse]

/-- A node with a child that two others share, and a handle that is no node: what is shared is listed for each
    path to it. -/
theorem preorder_eq_under_shared :
    ∃ (ar : Arena) (h : ar.Acyclic), ar.childrenOf 2 = [1, 0, 1] ∧ ar.childrenOf 1 = [0, 7, 0] ∧
      ar.get? 7 = none ∧ ar.under h 2 = [2, 1, 0, 0, 0, 1, 0, 0] := by
  have h : (Arena.mk #[⟨.identifier, none, none, none, none, []⟩,
      ⟨.sequenceExpression, none, none, none, none, [0, 7, 0]⟩,
      ⟨.program, none, none, none, none, [1, 0, 1]⟩]).Acyclic := acyclic_of_lt (by decide)
  refine ⟨_, h, by decide, by decide, by decide, ?_⟩
  rw [← (preorder_eq_under h 2).2]
  decide

end Arena
end ScriptSpacing
