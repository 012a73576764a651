import Mathlib.Data.List.Nodup
import Mathlib.Data.List.Perm.Subperm
import Mathlib.Tactic.Tauto
import ScriptSpacing.Token.Chain

/-!
# `Proofs.Token.Links` — a chain is a list of handles

The links between the slots of a chain are one view of its order; the other is the plain list of its
handles. `Links ch S` says that the two agree: walking `ch` in either direction reads `S`. Every edit of
a chain is then an edit of a list. `splice` inserts, `remove` deletes, and a chain built from a list of
tokens links their positions.

The ends need no case of their own: a handle's neighbour is `R.head?` or `L.getLast?` of the part of `S`
on that side, and `none` at an end is what `join` takes for it.
-/

namespace ScriptSpacing
namespace Chain

/-! ## Two splits of one list -/

section Splits
variable {α : Type} {L R L' R' : List α} {a b : α}

/-- Where a member `b` of `L ++ R` stands. -/
theorem split_of_append_eq (h : L ++ R = L' ++ b :: R') :
    (∃ M, L = L' ++ b :: M ∧ R' = M ++ R) ∨ ∃ M, L' = L ++ M ∧ R = M ++ b :: R' := by
  rcases List.append_eq_append_iff.mp h with ⟨M, hL, hR⟩ | ⟨M, hL, hR⟩
  · exact .inr ⟨M, hL, hR⟩
  · cases M with
    | nil => exact .inr ⟨[], by simpa using hL.symm, by simpa using hR.symm⟩
    | cons c M =>
        injection hR with hb hR
        exact .inl ⟨M, by rw [hL, hb], hR⟩

/-- Where a member `b` of `L ++ a :: R` stands: at `a`, before it or after it. -/
theorem split_of_append_cons_eq (h : L ++ a :: R = L' ++ b :: R') :
    (L' = L ∧ b = a ∧ R' = R) ∨ (∃ M, L = L' ++ b :: M ∧ R' = M ++ a :: R) ∨
      ∃ M, L' = L ++ a :: M ∧ R = M ++ b :: R' := by
  rcases split_of_append_eq h with hl | ⟨M, hL, hR⟩
  · exact .inr (.inl hl)
  · cases M with
    | nil =>
        injection hR with hb hR
        exact .inl ⟨by simpa using hL, hb.symm, hR.symm⟩
    | cons c M =>
        injection hR with hb hR
        subst hb
        exact .inr (.inr ⟨M, hL, hR⟩)

/-- What has something behind it in a list without repetition is not the last of it. -/
theorem getLast?_ne_of_nodup (h : (L ++ a :: b :: R).Nodup) :
    (L ++ a :: b :: R).getLast? ≠ some a := by
  intro hlast
  have hmem : a ∈ b :: R := List.mem_of_getLast? (by simpa using hlast)
  exact (List.nodup_cons.mp (List.nodup_append.mp h).2.1).1 hmem

/-- What has something in front of it in a list without repetition is not the first of it. -/
theorem head?_ne_of_nodup (h : (b :: L ++ a :: R).Nodup) : (b :: L ++ a :: R).head? ≠ some a := by
  intro hhead
  obtain rfl : b = a := by simpa using hhead
  exact (List.nodup_cons.mp h).1 (by simp)

end Splits

/-! ## What the primitives do to the links -/

theorem contains_lt {ch : Chain} {id : TokenId} (h : ch.contains id = true) : id < ch.fresh := by
  simp only [contains, Option.any_eq_true] at h
  obtain ⟨slot, hslot, -⟩ := h
  exact (Array.getElem?_eq_some_iff.mp hslot).1

@[simp] theorem contains_join (ch : Chain) (left right : Option TokenId) (id : TokenId) :
    (ch.join left right).contains id = ch.contains id := by
  cases left <;> cases right <;>
    simp only [contains, join, join.modifyAt, Array.getElem?_modify] <;>
    (repeat' split) <;> simp [Option.any_map, Function.comp_def]

/-- Joining sets the successor of its left side alone. -/
theorem next_join (ch : Chain) (left right : Option TokenId) (id : TokenId) :
    (ch.join left right).next id =
      if left = some id ∧ id < ch.fresh then right else ch.next id := by
  unfold next join fresh
  cases left with
  | none => cases right <;> simp only [join.modifyAt, Array.getElem?_modify] <;> grind
  | some l => cases right <;> simp only [join.modifyAt, Array.getElem?_modify] <;> grind

/-- Joining sets the predecessor of its right side alone. -/
theorem prev_join (ch : Chain) (left right : Option TokenId) (id : TokenId) :
    (ch.join left right).prev id =
      if right = some id ∧ id < ch.fresh then left else ch.prev id := by
  unfold prev join fresh
  cases left with
  | none => cases right <;> simp only [join.modifyAt, Array.getElem?_modify] <;> grind
  | some l => cases right <;> simp only [join.modifyAt, Array.getElem?_modify] <;> grind

theorem contains_alloc (ch : Chain) (t : Token) (id : TokenId) :
    (ch.alloc t).contains id = true ↔ id = ch.fresh ∨ ch.contains id = true := by
  simp only [contains, alloc, fresh, Array.getElem?_push]
  grind

@[simp] theorem next_alloc (ch : Chain) (t : Token) (id : TokenId) :
    (ch.alloc t).next id = ch.next id := by
  simp only [next, alloc, Array.getElem?_push]
  grind

@[simp] theorem prev_alloc (ch : Chain) (t : Token) (id : TokenId) :
    (ch.alloc t).prev id = ch.prev id := by
  simp only [prev, alloc, Array.getElem?_push]
  grind

theorem get?_alloc (ch : Chain) (t : Token) (id : TokenId) :
    (ch.alloc t).get? id = if id = ch.fresh then some t else ch.get? id := by
  simp only [get?, alloc, fresh, Array.getElem?_push]
  grind

@[simp] theorem contains_setText (ch : Chain) (id : TokenId) (text : String) (x : TokenId) :
    (ch.setText id text).contains x = ch.contains x := by
  simp only [contains, setText, Array.getElem?_modify]
  split <;> simp [Option.any_map]

@[simp] theorem next_setText (ch : Chain) (id : TokenId) (text : String) (x : TokenId) :
    (ch.setText id text).next x = ch.next x := by
  simp only [next, setText, Array.getElem?_modify]
  split <;> simp [Option.bind_map, Function.comp_def]

@[simp] theorem prev_setText (ch : Chain) (id : TokenId) (text : String) (x : TokenId) :
    (ch.setText id text).prev x = ch.prev x := by
  simp only [prev, setText, Array.getElem?_modify]
  split <;> simp [Option.bind_map, Function.comp_def]

/-- Rewriting changes the text of one token and nothing else of it. -/
theorem get?_setText (ch : Chain) (id : TokenId) (text : String) (x : TokenId) :
    (ch.setText id text).get? x =
      if id = x then (ch.get? x).map (fun t => { t with text := text }) else ch.get? x := by
  simp only [get?, setText, Array.getElem?_modify]
  split <;> simp [Option.map_map, Function.comp_def]

/-! ## The sequence of a chain -/

/-- **`ch` links exactly the handles of `S`, in this order.** -/
structure Links (ch : Chain) (S : List TokenId) : Prop where
  nodup   : S.Nodup
  first   : ch.first = S.head?
  last    : ch.last = S.getLast?
  live    : ch.live = S.length
  mem     : ∀ id, ch.contains id = true ↔ id ∈ S
  next    : ∀ L id R, S = L ++ id :: R → ch.next id = R.head?
  prev    : ∀ L id R, S = L ++ id :: R → ch.prev id = L.getLast?
  outside : ∀ id, id ∉ S → ch.next id = none ∧ ch.prev id = none

namespace Links

variable {ch : Chain} {S L R : List TokenId} {id : TokenId}

theorem lt (h : Links ch S) (hid : id ∈ S) : id < ch.fresh := contains_lt ((h.mem id).mpr hid)

theorem fresh_not_mem (h : Links ch S) : ch.fresh ∉ S := fun hmem => Nat.lt_irrefl _ (h.lt hmem)

/-- The handles of a chain are among its slots, each once. -/
theorem length_le (h : Links ch S) : S.length ≤ ch.slots.size := by
  have hsub : S ⊆ List.range ch.slots.size := fun id hid => List.mem_range.mpr (h.lt hid)
  simpa using (List.subperm_of_subset h.nodup hsub).length_le

theorem empty : Links Chain.empty [] where
  nodup   := List.nodup_nil
  first   := rfl
  last    := rfl
  live    := rfl
  mem     := by simp [contains, Chain.empty]
  next    := by simp
  prev    := by simp
  outside := by simp [Chain.next, Chain.prev, Chain.empty]

/-! ### Splicing is insertion -/

/-- A handle linked in is the successor of its left neighbour and takes over its right one. -/
theorem next_splice (right : Option TokenId) (t : Token) {left : Option TokenId}
    (hlt : ∀ i, left = some i → i < ch.fresh) (id : TokenId) :
    (ch.splice left t right).next id =
      if id = ch.fresh then right else if left = some id then some ch.fresh else ch.next id := by
  simp only [splice, next_join, next_alloc, fresh_join, fresh_alloc]
  grind

/-- A handle linked in is the predecessor of its right neighbour and takes over its left one. -/
theorem prev_splice (left : Option TokenId) (t : Token) {right : Option TokenId}
    (hrt : ∀ i, right = some i → i < ch.fresh) (id : TokenId) :
    (ch.splice left t right).prev id =
      if id = ch.fresh then left else if right = some id then some ch.fresh else ch.prev id := by
  simp only [splice, prev_join, prev_alloc, fresh_join, fresh_alloc]
  grind

theorem contains_splice {left right : Option TokenId} {t : Token} :
    (ch.splice left t right).contains id = true ↔ id = ch.fresh ∨ ch.contains id = true := by
  simp only [splice, contains_join, contains_alloc]

theorem get?_splice {left right : Option TokenId} {t : Token} :
    (ch.splice left t right).get? id = if id = ch.fresh then some t else ch.get? id := by
  simp only [splice, get?_join, get?_alloc]

/-- Left neighbours and right neighbours of a splice are linked handles. -/
theorem lt_of_getLast? (h : Links ch (L ++ R)) : ∀ i, L.getLast? = some i → i < ch.fresh :=
  fun _ hi => h.lt (List.mem_append_left _ (List.mem_of_getLast? hi))

theorem lt_of_head? (h : Links ch (L ++ R)) : ∀ i, R.head? = some i → i < ch.fresh :=
  fun _ hi => h.lt (List.mem_append_right _ (List.mem_of_head? hi))

/-- Successors after a splice: of the new handle, of those in front of it, of those behind it. -/
theorem next_splice_eq (h : Links ch (L ++ R)) (t : Token) {L' R' : List TokenId}
    (hS : L ++ ch.fresh :: R = L' ++ id :: R') :
    (ch.splice L.getLast? t R.head?).next id = R'.head? := by
  have hne : id ∈ L ++ R → id ≠ ch.fresh := fun hmem he => h.fresh_not_mem (he ▸ hmem)
  rw [next_splice R.head? t h.lt_of_getLast?]
  rcases split_of_append_cons_eq hS with ⟨rfl, rfl, rfl⟩ | ⟨M, rfl, rfl⟩ | ⟨M, rfl, rfl⟩
  · rw [if_pos rfl]
  -- directly in front of the new handle, or further in front
  · rw [if_neg (hne (by simp))]
    cases M with
    | nil => simp
    | cons m M =>
        rw [if_neg (getLast?_ne_of_nodup (List.nodup_append.mp h.nodup).1),
          h.next L' id (m :: M ++ R) (by simp)]
        rfl
  · have hnot : L.getLast? ≠ some id := fun hlast =>
      (List.nodup_append.mp h.nodup).2.2 _ (List.mem_of_getLast? hlast) _ (by simp) rfl
    rw [if_neg (hne (by simp)), if_neg hnot, h.next (L ++ M) id R' (by simp)]

/-- Predecessors after a splice. -/
theorem prev_splice_eq (h : Links ch (L ++ R)) (t : Token) {L' R' : List TokenId}
    (hS : L ++ ch.fresh :: R = L' ++ id :: R') :
    (ch.splice L.getLast? t R.head?).prev id = L'.getLast? := by
  have hne : id ∈ L ++ R → id ≠ ch.fresh := fun hmem he => h.fresh_not_mem (he ▸ hmem)
  rw [prev_splice L.getLast? t h.lt_of_head?]
  rcases split_of_append_cons_eq hS with ⟨rfl, rfl, rfl⟩ | ⟨M, rfl, rfl⟩ | ⟨M, rfl, rfl⟩
  · rw [if_pos rfl]
  · have hnot : R.head? ≠ some id := fun hhead =>
      (List.nodup_append.mp h.nodup).2.2 _ (by simp) _ (List.mem_of_head? hhead) rfl
    rw [if_neg (hne (by simp)), if_neg hnot, h.prev L' id (M ++ R) (by simp)]
  · rw [if_neg (hne (by simp))]
    cases M with
    | nil => simp
    | cons m M =>
        rw [if_neg (head?_ne_of_nodup (List.nodup_append.mp h.nodup).2.1),
          h.prev (L ++ m :: M) id R' (by simp)]
        simp [List.getLast?_append, List.getLast?_cons_cons]

/-- **Splicing inserts**: between the last handle of `L` and the first of `R` goes the new one. -/
theorem splice (h : Links ch (L ++ R)) (t : Token) :
    Links (ch.splice L.getLast? t R.head?) (L ++ ch.fresh :: R) where
  nodup := by
    have hfresh := h.fresh_not_mem
    have hnd := h.nodup
    simp only [List.nodup_append, List.nodup_cons, List.mem_append, List.mem_cons] at hnd hfresh ⊢
    grind
  first := by
    simp only [Chain.splice, join]
    cases L <;> simp [alloc, h.first]
  last := by
    simp only [Chain.splice, join]
    cases R with
    | nil => simp
    | cons r R => simp [alloc, h.last]
  live := by
    have hlive := h.live
    simp only [List.length_append, List.length_cons] at hlive ⊢
    simp only [Chain.splice, join, alloc]
    omega
  mem := by
    intro id
    rw [contains_splice, h.mem]
    simp only [List.mem_append, List.mem_cons]
    tauto
  next := fun _ _ _ hS => h.next_splice_eq t hS
  prev := fun _ _ _ hS => h.prev_splice_eq t hS
  outside := by
    intro id hid
    simp only [List.mem_append, List.mem_cons, not_or] at hid
    have hout := h.outside id (by simp [hid.1, hid.2.2])
    rw [next_splice R.head? t h.lt_of_getLast?, prev_splice L.getLast? t h.lt_of_head?,
      if_neg hid.2.1, if_neg hid.2.1, if_neg (fun hl => hid.1 (List.mem_of_getLast? hl)),
      if_neg (fun hr => hid.2.2 (List.mem_of_head? hr))]
    exact hout

/-- **Pushing appends.** -/
theorem push (h : Links ch S) (t : Token) : Links (ch.push t) (S ++ [ch.fresh]) := by
  have := splice (L := S) (R := []) (by simpa using h) t
  rwa [← h.last] at this

/-- **Inserting after a handle** puts the new one behind it. -/
theorem insertAfter (h : Links ch (L ++ id :: R)) (t : Token) :
    Links (ch.insertAfter id t) (L ++ id :: ch.fresh :: R) := by
  have := splice (L := L ++ [id]) (R := R) (by simpa using h) t
  simpa [Chain.insertAfter, h.next L id R rfl] using this

/-- **Inserting before a handle** puts the new one in front of it. -/
theorem insertBefore (h : Links ch (L ++ id :: R)) (t : Token) :
    Links (ch.insertBefore id t) (L ++ ch.fresh :: id :: R) := by
  have := splice (L := L) (R := id :: R) h t
  simpa [Chain.insertBefore, h.prev L id R rfl] using this

theorem get?_insertAfter {anchor : TokenId} {t : Token} :
    (ch.insertAfter anchor t).get? id = if id = ch.fresh then some t else ch.get? id :=
  get?_splice

theorem get?_insertBefore {anchor : TokenId} {t : Token} :
    (ch.insertBefore anchor t).get? id = if id = ch.fresh then some t else ch.get? id :=
  get?_splice

/-! ### Removing is deletion -/

/-- Taking a handle out makes its neighbours each other's and leaves it without any. -/
theorem next_remove (hid : ch.contains id = true) (hlt : ∀ i, ch.prev id = some i → i < ch.fresh)
    (x : TokenId) :
    (ch.remove id).next x =
      if x = id then none else if ch.prev id = some x then ch.next id else ch.next x := by
  have hjoin := next_join ch (ch.prev id) (ch.next id) x
  simp only [remove, if_pos hid]
  simp only [Chain.next, Array.getElem?_modify] at hjoin ⊢
  grind

theorem prev_remove (hid : ch.contains id = true) (hlt : ∀ i, ch.next id = some i → i < ch.fresh)
    (x : TokenId) :
    (ch.remove id).prev x =
      if x = id then none else if ch.next id = some x then ch.prev id else ch.prev x := by
  have hjoin := prev_join ch (ch.prev id) (ch.next id) x
  simp only [remove, if_pos hid]
  simp only [Chain.prev, Array.getElem?_modify] at hjoin ⊢
  grind

theorem contains_remove (hid : ch.contains id = true) (x : TokenId) :
    (ch.remove id).contains x = true ↔ x ≠ id ∧ ch.contains x = true := by
  have hjoin := contains_join ch (ch.prev id) (ch.next id) x
  simp only [remove, if_pos hid]
  rw [← hjoin]
  simp only [contains, Array.getElem?_modify]
  grind

/-- The links of the handles that stay, as the sequence tells them. -/
theorem next_remove_eq_ite (h : Links ch (L ++ id :: R)) (x : TokenId) :
    (ch.remove id).next x =
      if x = id then none else if L.getLast? = some x then R.head? else ch.next x := by
  have hprev := h.prev L id R rfl
  rw [next_remove ((h.mem id).mpr (by simp)) fun i hi => h.lt_of_getLast? i (hprev ▸ hi), hprev,
    h.next L id R rfl]

theorem prev_remove_eq_ite (h : Links ch (L ++ id :: R)) (x : TokenId) :
    (ch.remove id).prev x =
      if x = id then none else if R.head? = some x then L.getLast? else ch.prev x := by
  have hnext := h.next L id R rfl
  have hlt : ∀ i, R.head? = some i → i < ch.fresh := fun i hi =>
    h.lt (List.mem_append_right _ (List.mem_cons_of_mem _ (List.mem_of_head? hi)))
  rw [prev_remove ((h.mem id).mpr (by simp)) fun i hi => hlt i (hnext ▸ hi), hnext,
    h.prev L id R rfl]

/-- What is left does not contain the handle taken out. -/
theorem ne_of_mem_remove (h : Links ch (L ++ id :: R)) {x : TokenId} (hx : x ∈ L ++ R) : x ≠ id := by
  have hnd := List.nodup_append.mp h.nodup
  rintro rfl
  rcases List.mem_append.mp hx with hm | hm
  · exact hnd.2.2 x hm x (by simp) rfl
  · exact (List.nodup_cons.mp hnd.2.1).1 hm

theorem nodup_remove (h : Links ch (L ++ id :: R)) : (L ++ R).Nodup := by
  have hnd := h.nodup
  rw [List.nodup_append, List.nodup_cons] at hnd
  exact List.nodup_append.mpr
    ⟨hnd.1, hnd.2.1.2, fun a ha b hb => hnd.2.2 a ha b (List.mem_cons_of_mem _ hb)⟩

/-- Successors after a removal. -/
theorem next_remove_eq (h : Links ch (L ++ id :: R)) {x : TokenId} {L' R' : List TokenId}
    (hS : L ++ R = L' ++ x :: R') : (ch.remove id).next x = R'.head? := by
  have hnd := h.nodup_remove
  rw [h.next_remove_eq_ite, if_neg (h.ne_of_mem_remove (hS ▸ by simp))]
  rcases split_of_append_eq hS with ⟨M, rfl, rfl⟩ | ⟨M, rfl, rfl⟩
  · cases M with
    | nil => simp
    | cons m M =>
        rw [if_neg (getLast?_ne_of_nodup (List.nodup_append.mp hnd).1),
          h.next L' x (m :: M ++ id :: R) (by simp)]
        rfl
  · have hnot : L.getLast? ≠ some x := fun hlast =>
      (List.nodup_append.mp hnd).2.2 x (List.mem_of_getLast? hlast) x (by simp) rfl
    rw [if_neg hnot, h.next (L ++ id :: M) x R' (by simp)]

/-- Predecessors after a removal. -/
theorem prev_remove_eq (h : Links ch (L ++ id :: R)) {x : TokenId} {L' R' : List TokenId}
    (hS : L ++ R = L' ++ x :: R') : (ch.remove id).prev x = L'.getLast? := by
  have hnd := h.nodup_remove
  rw [h.prev_remove_eq_ite, if_neg (h.ne_of_mem_remove (hS ▸ by simp))]
  rcases split_of_append_eq hS with ⟨M, rfl, rfl⟩ | ⟨M, rfl, rfl⟩
  · have hnot : R.head? ≠ some x := fun hhead =>
      (List.nodup_append.mp hnd).2.2 x (by simp) x (List.mem_of_head? hhead) rfl
    rw [if_neg hnot, h.prev L' x (M ++ id :: R) (by simp)]
  · cases M with
    | nil => simp
    | cons m M =>
        rw [if_neg (head?_ne_of_nodup (List.nodup_append.mp hnd).2.1),
          h.prev (L ++ id :: m :: M) x R' (by simp)]
        simp [List.getLast?_append, List.getLast?_cons_cons]

/-- **Removing deletes**, and the rest keeps its order. -/
theorem remove (h : Links ch (L ++ id :: R)) : Links (ch.remove id) (L ++ R) where
  nodup := h.nodup_remove
  first := by
    have hid : ch.contains id = true := (h.mem id).mpr (by simp)
    simp only [Chain.remove, if_pos hid, join, h.next L id R rfl, h.prev L id R rfl, h.first]
    cases L <;> simp
  last := by
    have hid : ch.contains id = true := (h.mem id).mpr (by simp)
    simp only [Chain.remove, if_pos hid, join, h.next L id R rfl, h.prev L id R rfl, h.last]
    cases R with
    | nil => simp
    | cons r R => simp [List.getLast?_append, List.getLast?_cons_cons]
  live := by
    have hid : ch.contains id = true := (h.mem id).mpr (by simp)
    have hlive := h.live
    simp only [List.length_append, List.length_cons] at hlive ⊢
    simp only [Chain.remove, if_pos hid, join]
    omega
  mem := by
    intro x
    rw [contains_remove ((h.mem id).mpr (by simp)), h.mem]
    constructor
    · rintro ⟨hne, hx⟩
      simp only [List.mem_append, List.mem_cons] at hx ⊢
      tauto
    · intro hx
      refine ⟨h.ne_of_mem_remove hx, ?_⟩
      simp only [List.mem_append, List.mem_cons] at hx ⊢
      tauto
  next := fun _ _ _ hS => h.next_remove_eq hS
  prev := fun _ _ _ hS => h.prev_remove_eq hS
  outside := by
    intro x hx
    rw [h.next_remove_eq_ite, h.prev_remove_eq_ite]
    by_cases hxid : x = id
    · rw [if_pos hxid, if_pos hxid]
      exact ⟨rfl, rfl⟩
    · simp only [List.mem_append, not_or] at hx
      rw [if_neg hxid, if_neg hxid, if_neg (fun hl => hx.1 (List.mem_of_getLast? hl)),
        if_neg (fun hr => hx.2 (List.mem_of_head? hr))]
      exact h.outside x (by simp [hx.1, hx.2, hxid])

/-- Removing what is not linked changes nothing. -/
theorem remove_of_not_mem (h : Links ch S) (hid : id ∉ S) : ch.remove id = ch := by
  rw [Chain.remove, if_neg (fun hc => hid ((h.mem id).mp hc))]

/-! ### Rewriting keeps the sequence -/

theorem setText (h : Links ch S) (id : TokenId) (text : String) :
    Links (ch.setText id text) S where
  nodup   := h.nodup
  first   := h.first
  last    := h.last
  live    := h.live
  mem     := fun x => by rw [contains_setText, h.mem]
  next    := fun L x R hS => by rw [next_setText, h.next L x R hS]
  prev    := fun L x R hS => by rw [prev_setText, h.prev L x R hS]
  outside := fun x hx => by
    rw [next_setText, prev_setText]
    exact h.outside x hx

end Links
end Chain
end ScriptSpacing
