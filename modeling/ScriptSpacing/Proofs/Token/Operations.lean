import Mathlib.Data.List.InsertIdx
import ScriptSpacing.Proofs.Token.Holds

/-!
# `Proofs.Token.Operations` — the history of a chain

A chain comes about by operations, in any order. Beside it runs a plain list: an `Arrangement` has the tokens
that were allocated, by handle, and the handles that are linked, in order, and every operation does to it what
it says: appending, inserting next to the anchor, erasing. `Tracks ch q` says that a chain agrees with an
arrangement. One operation keeps it (`Tracks.step?`), so a history does (`Tracks.run?`).

What a chain shows is then read off the list: its walks in either direction, its ends, its members, its
searches and its text, and the token of every handle, linked or not (`Chain.Shows`, `shows_run?`).
-/

namespace ScriptSpacing

/-! ## Operations -/

namespace Chain

/-- An operation on a chain. -/
inductive Operation where
  | push (t : Token)
  | insertBefore (anchor : TokenId) (t : Token)
  | insertAfter (anchor : TokenId) (t : Token)
  | remove (id : TokenId)
  | setText (id : TokenId) (text : String)
  /-- begins anew with the chain of a list -/
  | collect (ts : List Token)
deriving Repr, DecidableEq, Inhabited

/-- The chain after an operation; an anchor has to be linked. -/
def step? (ch : Chain) : Operation → Option Chain
  | .push t                => some (ch.push t)
  | .insertBefore anchor t => if ch.contains anchor then some (ch.insertBefore anchor t) else none
  | .insertAfter anchor t  => if ch.contains anchor then some (ch.insertAfter anchor t) else none
  | .remove id             => some (ch.remove id)
  | .setText id text       => some (ch.setText id text)
  | .collect ts            => some (ofList ts)

/-- The chain after some operations. -/
def run? (ch : Chain) (ops : List Operation) : Option Chain := ops.foldlM step? ch

end Chain

/-- The tokens allocated, by handle, and the handles that are linked, in order. -/
structure Arrangement where
  tokens : List Token := []
  order  : List TokenId := []
deriving Repr, DecidableEq, Inhabited

namespace Arrangement
open Chain (Operation)

/-- Allocates a token and puts its handle at an index of the order. -/
def insertAt (q : Arrangement) (i : Nat) (t : Token) : Arrangement :=
  ⟨q.tokens ++ [t], q.order.insertIdx i q.tokens.length⟩

/-- The arrangement after an operation. -/
def step? (q : Arrangement) : Operation → Option Arrangement
  | .push t => some ⟨q.tokens ++ [t], q.order ++ [q.tokens.length]⟩
  | .insertBefore anchor t =>
    if anchor ∈ q.order then some (q.insertAt (q.order.idxOf anchor) t) else none
  | .insertAfter anchor t =>
    if anchor ∈ q.order then some (q.insertAt (q.order.idxOf anchor + 1) t) else none
  | .remove id => some { q with order := q.order.erase id }
  | .setText id text =>
    some { q with tokens := q.tokens.modify id (fun t => { t with text := text }) }
  | .collect ts => some ⟨ts, List.range ts.length⟩

/-- The arrangement after some operations. -/
def run? (q : Arrangement) (ops : List Operation) : Option Arrangement := ops.foldlM step? q

/-- The linked handles with their tokens. -/
def entries (q : Arrangement) : List Linked :=
  q.order.filterMap fun id => q.tokens[id]?.map (id, ·)

/-- Whether the token of a handle satisfies `p`. -/
def test (q : Arrangement) (p : Token → Bool) (id : TokenId) : Bool := q.tokens[id]?.any p

end Arrangement

namespace Chain

/-- **What a chain shows** of an arrangement. -/
structure Shows (ch : Chain) (q : Arrangement) : Prop where
  nodup     : q.order.Nodup
  /-- a walk to the right, from any handle on, reads the rest of the order -/
  forwards  : ∀ L R, q.order = L ++ R → ∀ n, R.length ≤ n → follow ch.next n R.head? = R
  /-- a walk to the left, from any handle on, reads what is in front -/
  backwards : ∀ L R, q.order = L ++ R → ∀ n, L.length ≤ n →
    follow ch.prev n L.getLast? = L.reverse
  first     : ch.first = q.order.head?
  last      : ch.last = q.order.getLast?
  contains  : ∀ id, ch.contains id = true ↔ id ∈ q.order
  length    : ch.length = q.order.length
  next      : ∀ L id R, q.order = L ++ id :: R → ch.next id = R.head?
  prev      : ∀ L id R, q.order = L ++ id :: R → ch.prev id = L.getLast?
  outside   : ∀ id, id ∉ q.order → ch.next id = none ∧ ch.prev id = none
  ids       : ch.ids = q.order
  entries   : ch.entries = q.entries
  source    : ch.source = Token.source (q.entries.map (·.2))
  idsFrom   : ∀ L id R, q.order = L ++ id :: R → ch.idsFrom id = id :: R
  findNext  : ∀ p L id R, q.order = L ++ id :: R → ch.findNext? id p = R.find? (q.test p)
  findPrev  : ∀ p L id R, q.order = L ++ id :: R → ch.findPrev? id p = L.reverse.find? (q.test p)
  /-- nothing is found or read from a handle that is not linked -/
  detached  : ∀ p id, id ∉ q.order →
    ch.idsFrom id = [] ∧ ch.findNext? id p = none ∧ ch.findPrev? id p = none
  get       : ∀ id, ch.get? id = q.tokens[id]?

/-- **`ch` agrees with the arrangement `q`**: it links the handles of its order, and has its tokens. -/
structure Tracks (ch : Chain) (q : Arrangement) : Prop where
  links : Links ch q.order
  fresh : ch.fresh = q.tokens.length
  get   : ∀ id, ch.get? id = q.tokens[id]?

/-! ## Related results, inserting at an index -/

section Lists
variable {α β γ δ : Type} {r r' : α → β → Prop} {s : γ → δ → Prop}

/-- Related results go on to related results. -/
theorem rel_bind {f : α → Option γ} {g : β → Option δ} :
    ∀ {a : Option α} {b : Option β}, Option.Rel r a b →
      (∀ x y, r x y → Option.Rel s (f x) (g y)) → Option.Rel s (a >>= f) (b >>= g)
  | _, _, .none, _    => .none
  | _, _, .some hr, h => h _ _ hr

theorem rel_imp (himp : ∀ x y, r x y → r' x y) :
    ∀ {a : Option α} {b : Option β}, Option.Rel r a b → Option.Rel r' a b
  | _, _, .none    => .none
  | _, _, .some hr => .some (himp _ _ hr)

/-- Behind as many elements as an index says, an element goes in between. -/
theorem insertIdx_length_append (L R : List α) (a : α) :
    (L ++ R).insertIdx L.length a = L ++ a :: R := by
  induction L with
  | nil => exact List.insertIdx_zero
  | cons b L ih =>
      rw [List.cons_append, List.length_cons, List.insertIdx_succ_cons, ih]
      rfl

end Lists

namespace Tracks

variable {ch : Chain} {q : Arrangement} {L R : List TokenId} {anchor id : TokenId} {t : Token}

/-- The place of an anchor is behind the handles in front of it. -/
theorem exists_split (hmem : anchor ∈ q.order) :
    ∃ L R, q.order = L ++ anchor :: R ∧ q.order.idxOf anchor = L.length := by
  obtain ⟨L, R, hsplit, hnot⟩ := List.eq_append_cons_of_mem hmem
  refine ⟨L, R, hsplit, ?_⟩
  rw [hsplit, List.idxOf_append_of_notMem hnot, List.idxOf_cons_self, Nat.add_zero]

/-- The tokens after one was allocated. -/
theorem get_append (h : Tracks ch q) (t : Token) (id : Nat) :
    (if id = ch.fresh then some t else ch.get? id) = (q.tokens ++ [t])[id]? := by
  rw [h.get, h.fresh, List.getElem?_append]
  by_cases hlt : id < q.tokens.length
  · rw [if_neg (Nat.ne_of_lt hlt), if_pos hlt]
  · rw [if_neg hlt]
    by_cases heq : id = q.tokens.length
    · rw [if_pos heq, heq, Nat.sub_self]
      rfl
    · rw [if_neg heq, List.getElem?_eq_none_iff.mpr (by omega), eq_comm, List.getElem?_eq_none_iff,
        List.length_singleton]
      omega

theorem fresh_append (h : Tracks ch q) (before after : Option TokenId) (t : Token) :
    (ch.splice before t after).fresh = (q.tokens ++ [t]).length := by
  rw [fresh_splice, h.fresh, List.length_append, List.length_singleton]

theorem empty : Tracks Chain.empty {} where
  links := Links.empty
  fresh := rfl
  get   := fun _ => rfl

/-! ## One operation -/

theorem push (h : Tracks ch q) (t : Token) :
    Tracks (ch.push t) ⟨q.tokens ++ [t], q.order ++ [q.tokens.length]⟩ where
  links := h.fresh ▸ h.links.push t
  fresh := h.fresh_append ch.last none t
  get := fun id => Links.get?_splice.trans (h.get_append t id)

theorem insertBefore (h : Tracks ch q) (hmem : anchor ∈ q.order) (t : Token) :
    Tracks (ch.insertBefore anchor t) (q.insertAt (q.order.idxOf anchor) t) := by
  obtain ⟨L, R, hsplit, hidx⟩ := exists_split hmem
  refine ⟨?_, h.fresh_append _ _ t, fun id => Links.get?_insertBefore.trans (h.get_append t id)⟩
  show Links _ (q.order.insertIdx (q.order.idxOf anchor) q.tokens.length)
  rw [hidx, hsplit, insertIdx_length_append, ← h.fresh]
  exact (hsplit ▸ h.links).insertBefore t

theorem insertAfter (h : Tracks ch q) (hmem : anchor ∈ q.order) (t : Token) :
    Tracks (ch.insertAfter anchor t) (q.insertAt (q.order.idxOf anchor + 1) t) := by
  obtain ⟨L, R, hsplit, hidx⟩ := exists_split hmem
  refine ⟨?_, h.fresh_append _ _ t, fun id => Links.get?_insertAfter.trans (h.get_append t id)⟩
  show Links _ (q.order.insertIdx (q.order.idxOf anchor + 1) q.tokens.length)
  have hbehind := insertIdx_length_append (L ++ [anchor]) R q.tokens.length
  simp only [List.append_assoc, List.singleton_append, List.length_append,
    List.length_singleton] at hbehind
  rw [hidx, hsplit, hbehind, ← h.fresh]
  exact (hsplit ▸ h.links).insertAfter t

theorem remove (h : Tracks ch q) (id : TokenId) :
    Tracks (ch.remove id) { q with order := q.order.erase id } where
  links := by
    show Links (ch.remove id) (q.order.erase id)
    by_cases hmem : id ∈ q.order
    · obtain ⟨L, R, hsplit, hnot⟩ := List.eq_append_cons_of_mem hmem
      rw [hsplit, List.erase_append_right _ hnot, List.erase_cons_head]
      exact (hsplit ▸ h.links).remove
    · rw [h.links.remove_of_not_mem hmem, List.erase_of_not_mem hmem]
      exact h.links
  fresh := (fresh_remove ch id).trans h.fresh
  get   := fun other => (get?_remove ch id other).trans (h.get other)

theorem setText (h : Tracks ch q) (id : TokenId) (text : String) :
    Tracks (ch.setText id text)
      { q with tokens := q.tokens.modify id (fun t => { t with text := text }) } where
  links := h.links.setText id text
  fresh := by
    show _ = (q.tokens.modify id _).length
    rw [fresh_setText, h.fresh, List.length_modify]
  get := by
    intro other
    show _ = (q.tokens.modify id _)[other]?
    rw [get?_setText, h.get, List.getElem?_modify]
    by_cases heq : id = other
    · rw [if_pos heq]
      simp [heq]
    · rw [if_neg heq]
      simp [heq]

theorem collect (ts : List Token) : Tracks (ofList ts) ⟨ts, List.range ts.length⟩ where
  links := by
    have h := (holds_ofList ts).links
    have hrange : (Token.numbered ts).map (·.1) = List.range ts.length := by
      simp [Token.numbered, Function.comp_def, List.range_eq_range']
    rwa [hrange] at h
  fresh := fresh_ofList ts
  get := by
    intro (id : Nat)
    show _ = ts[id]?
    by_cases hlt : id < ts.length
    · have hentry : (id, ts[id]) ∈ Token.numbered ts := by
        apply List.mem_of_getElem? (i := id)
        rw [Token.getElem?_numbered, List.getElem?_eq_getElem hlt]
        rfl
      rw [(holds_ofList ts).tokens _ hentry, List.getElem?_eq_getElem hlt]
    · have hsize : (ofList ts).slots.size = ts.length := fresh_ofList ts
      rw [List.getElem?_eq_none_iff.mpr (by omega), get?, Array.getElem?_eq_none (by omega)]
      rfl

/-- An operation next to an anchor is allowed of both or of none. -/
theorem rel_of_linked (h : Tracks ch q) {ch' : Chain} {q' : Arrangement}
    (hstep : anchor ∈ q.order → Tracks ch' q') :
    Option.Rel Tracks (if ch.contains anchor then some ch' else none)
      (if anchor ∈ q.order then some q' else none) := by
  by_cases hmem : anchor ∈ q.order
  · rw [if_pos hmem, if_pos ((h.links.mem anchor).mpr hmem)]
    exact .some (hstep hmem)
  · rw [if_neg hmem, if_neg (fun hc => hmem ((h.links.mem anchor).mp hc))]
    exact .none

/-- **An operation keeps a chain and an arrangement in agreement**, also on whether it is allowed. -/
theorem step? (h : Tracks ch q) (op : Operation) :
    Option.Rel Tracks (ch.step? op) (q.step? op) := by
  cases op with
  | push t => exact .some (h.push t)
  | insertBefore anchor t => exact h.rel_of_linked fun hmem => h.insertBefore hmem t
  | insertAfter anchor t => exact h.rel_of_linked fun hmem => h.insertAfter hmem t
  | remove id => exact .some (h.remove id)
  | setText id text => exact .some (h.setText id text)
  | collect ts => exact .some (collect ts)

/-- **A history keeps them in agreement.** -/
theorem run? : ∀ (ops : List Operation) {ch : Chain} {q : Arrangement}, Tracks ch q →
    Option.Rel Tracks (ch.run? ops) (q.run? ops)
  | [], _, _, h => .some h
  | op :: ops, ch, q, h => by
    unfold Chain.run? Arrangement.run?
    rw [List.foldlM_cons, List.foldlM_cons]
    exact rel_bind (h.step? op) (fun _ _ h' => run? ops h')

/-! ## What is shown -/

theorem entriesOf_eq (h : Tracks ch q) : ch.entriesOf q.order = q.entries := by
  unfold entriesOf Arrangement.entries
  apply List.filterMap_congr
  intro id _
  rw [h.get]

theorem test_eq (h : Tracks ch q) (p : Token → Bool) : ch.test p = q.test p := by
  funext id
  rw [test, Arrangement.test, h.get]

/-- **A chain shows the arrangement that it agrees with.** -/
theorem shows (h : Tracks ch q) : Shows ch q := by
  have hentries : ch.entries = q.entries := by
    rw [Chain.entries, h.links.ids_eq, h.entriesOf_eq]
  have hlen := h.links.length_le
  have hforwards : ∀ L R, q.order = L ++ R → ∀ n, R.length ≤ n →
      follow ch.next n R.head? = R := by
    intro L R hsplit n hn
    exact follow_eq (hsplit ▸ h.links).trail_next hn
  have hbackwards : ∀ L R, q.order = L ++ R → ∀ n, L.length ≤ n →
      follow ch.prev n L.getLast? = L.reverse := by
    intro L R hsplit n hn
    rw [← List.head?_reverse]
    exact follow_eq (hsplit ▸ h.links).trail_prev (by rwa [List.length_reverse])
  exact {
    nodup := h.links.nodup
    forwards := hforwards
    backwards := hbackwards
    first := h.links.first
    last := h.links.last
    contains := h.links.mem
    length := h.links.live
    next := h.links.next
    prev := h.links.prev
    outside := h.links.outside
    ids := h.links.ids_eq
    entries := hentries
    source := by rw [Chain.source, toList, hentries]
    idsFrom := by
      intro L id R hsplit
      have hmem : id ∈ q.order := by rw [hsplit]; simp
      rw [Chain.idsFrom, if_pos ((h.links.mem id).mpr hmem)]
      rw [hsplit, List.length_append] at hlen
      exact hforwards L (id :: R) hsplit _ (by omega)
    findNext := by
      intro p L id R hsplit
      rw [hsplit, List.length_append, List.length_cons] at hlen
      rw [findNext?, seek_eq_find?, h.links.next L id R hsplit, h.test_eq,
        hforwards (L ++ [id]) R (by simp [hsplit]) _ (by omega)]
    findPrev := by
      intro p L id R hsplit
      rw [hsplit, List.length_append, List.length_cons] at hlen
      rw [findPrev?, seek_eq_find?, h.links.prev L id R hsplit, h.test_eq,
        hbackwards L (id :: R) hsplit _ (by omega)]
    detached := by
      intro p id hnot
      obtain ⟨hnext, hprev⟩ := h.links.outside id hnot
      refine ⟨?_, ?_, ?_⟩
      · rw [Chain.idsFrom, if_neg (fun hc => hnot ((h.links.mem id).mp hc))]
      · rw [findNext?, hnext]
        cases ch.slots.size <;> rfl
      · rw [findPrev?, hprev]
        cases ch.slots.size <;> rfl
    get := h.get }

/-- **What a chain holds is what its arrangement has.** -/
theorem holds (h : Tracks ch q) : Holds ch q.entries where
  links := by
    have hlt : ∀ id ∈ q.order, id < q.tokens.length := fun id hid => h.fresh ▸ h.links.lt hid
    have hmap : q.entries.map (·.1) = q.order := by
      rw [Arrangement.entries, List.map_filterMap]
      refine (List.filterMap_congr fun id hid => ?_).trans List.filterMap_some
      rw [List.getElem?_eq_getElem (hlt id hid)]
      rfl
    rw [hmap]
    exact h.links
  tokens := by
    intro e he
    obtain ⟨id, -, hid⟩ := List.mem_filterMap.mp he
    obtain ⟨t, ht, rfl⟩ := Option.map_eq_some_iff.mp hid
    exact (h.get id).trans ht

end Tracks

/-- **A chain with a history holds its entries.** -/
theorem holds_of_run? {ops : List Operation} {ch : Chain} (h : Chain.empty.run? ops = some ch) :
    Holds ch ch.entries := by
  have hrel := Tracks.run? ops Tracks.empty
  rw [h] at hrel
  cases hq : Arrangement.run? {} ops with
  | none =>
      rw [hq] at hrel
      cases hrel
  | some q =>
      rw [hq] at hrel
      cases hrel with
      | some htracks => rw [htracks.holds.entries_eq]; exact htracks.holds

/-- **After any operations a chain shows the arrangement that the same operations make of lists**, and an
    operation is allowed of both or of none. -/
theorem shows_run? (ops : List Operation) :
    Option.Rel Shows (Chain.empty.run? ops) (Arrangement.run? {} ops) :=
  rel_imp (fun _ _ h => h.shows) (Tracks.run? ops Tracks.empty)

/-- A token removed keeps its text, and may be given another. -/
example : Arrangement.run? {} [.push ⟨.identifier, "a"⟩, .insertBefore 0 ⟨.whiteSpace, " "⟩,
      .remove 0, .setText 0 "b", .remove 0] =
    some ⟨[⟨.identifier, "b"⟩, ⟨.whiteSpace, " "⟩], [1]⟩ := rfl

end Chain
end ScriptSpacing
