import Mathlib.Data.List.Induction
import Mathlib.Tactic.Tauto
import ScriptSpacing.Proofs.Token.Links

/-!
# `Proofs.Token.Holds` — a chain is a list of tokens under handles

`Holds ch es` adds the tokens to the sequence of a chain: `ch` links the entries `es`, each a handle with
its token. Every way of reading a chain is then a way of reading a list, and is stated so here: the walks
`ids`, `entries` and `source`, and the searches `findNext?` and `findPrev?` from an entry on. Every edit
of a chain is an edit of the list.

A walk counts down the slots of its chain. The count is never reached, since a walk meets no slot twice.
-/

namespace ScriptSpacing

/-- A linked token: a handle and its token. -/
abbrev Linked : Type := TokenId × Token

/-- A list of tokens with their positions as handles. -/
def Token.numbered (ts : List Token) : List Linked := ts.zipIdx.map fun (t, i) => (i, t)

namespace Token

@[simp] theorem map_snd_numbered (ts : List Token) : (numbered ts).map (·.2) = ts := by
  simp [numbered, Function.comp_def]

theorem getElem?_numbered (ts : List Token) (i : Nat) :
    (numbered ts)[i]? = ts[i]?.map (i, ·) := by
  simp [numbered, List.getElem?_zipIdx, Option.map_map, Function.comp_def]

/-- An entry of a numbered list is the token at its handle. -/
theorem getElem?_of_mem_numbered {ts : List Token} {e : Linked} (h : e ∈ numbered ts) :
    ts[e.1]? = some e.2 := by
  obtain ⟨i, hi⟩ := List.mem_iff_getElem?.mp h
  rw [getElem?_numbered] at hi
  obtain ⟨t, ht, rfl⟩ := Option.map_eq_some_iff.mp hi
  exact ht

theorem numbered_append_singleton (ts : List Token) (t : Token) :
    numbered (ts ++ [t]) = numbered ts ++ [(ts.length, t)] := by
  simp [numbered, List.zipIdx_append]

/-- A numbered list split at an entry. -/
theorem numbered_split {ts : List Token} {A B : List Linked} {e : Linked}
    (h : numbered ts = A ++ e :: B) :
    e.1 = A.length ∧ ts = A.map (·.2) ++ e.2 :: B.map (·.2) := by
  constructor
  · have hentry := getElem?_numbered ts A.length
    rw [h, List.getElem?_append_right (Nat.le_refl _), Nat.sub_self, List.getElem?_cons_zero] at hentry
    obtain ⟨t, -, ht⟩ := Option.map_eq_some_iff.mp hentry.symm
    rw [← ht]
  · rw [← map_snd_numbered ts, h, List.map_append, List.map_cons]

end Token

namespace Chain

/-! ## Walks -/

/-- Following `step` from the head of `W` on reads `W`. -/
def Trail (step : TokenId → Option TokenId) (W : List TokenId) : Prop :=
  ∀ A w B, W = A ++ w :: B → step w = B.head?

theorem Trail.tail {step : TokenId → Option TokenId} {w : TokenId} {W : List TokenId}
    (h : Trail step (w :: W)) : Trail step W := by
  intro A x B hW
  exact h (w :: A) x B (by rw [hW]; rfl)

theorem Trail.step_head {step : TokenId → Option TokenId} {w : TokenId} {W : List TokenId}
    (h : Trail step (w :: W)) : step w = W.head? := h [] w W rfl

/-- **A walk reads its trail**, when its count allows. -/
theorem follow_eq {step : TokenId → Option TokenId} :
    ∀ {W : List TokenId} {n : Nat}, Trail step W → W.length ≤ n → follow step n W.head? = W
  | [], n, _, _ => by cases n <;> rfl
  | w :: W, 0, _, hn => absurd hn (by simp)
  | w :: W, n + 1, h, hn => by
    show w :: follow step n (step w) = w :: W
    rw [h.step_head, follow_eq h.tail (by simpa using hn)]

namespace Links

variable {ch : Chain} {S L R : List TokenId} {id : TokenId}

theorem trail_next (h : Links ch (L ++ R)) : Trail ch.next R := by
  intro A w B hR
  exact h.next (L ++ A) w B (by rw [hR, List.append_assoc])

theorem trail_prev (h : Links ch (L ++ R)) : Trail ch.prev L.reverse := by
  intro A w B hL
  have hL' : L = B.reverse ++ w :: A.reverse := by
    have := congrArg List.reverse hL
    simpa using this
  rw [h.prev B.reverse w (A.reverse ++ R) (by simp [hL'])]
  simp

/-- **The handles of a chain are its sequence.** -/
theorem ids_eq (h : Links ch S) : ch.ids = S := by
  rw [ids, h.first]
  exact follow_eq (trail_next (L := []) h) h.length_le

end Links

/-! ## Entries -/

/-- **`ch` holds exactly the entries `es`, in this order.** -/
structure Holds (ch : Chain) (es : List Linked) : Prop where
  links  : Links ch (es.map (·.1))
  tokens : ∀ e ∈ es, ch.get? e.1 = some e.2

namespace Holds

variable {ch : Chain} {es A B : List Linked} {e : Linked}

theorem nodup (h : Holds ch es) : (es.map (·.1)).Nodup := h.links.nodup

theorem test_eq (h : Holds ch es) (he : e ∈ es) (p : Token → Bool) : ch.test p e.1 = p e.2 := by
  simp [test, h.tokens e he]

theorem contains (h : Holds ch es) (he : e ∈ es) : ch.contains e.1 = true :=
  (h.links.mem e.1).mpr (List.mem_map_of_mem he)

/-- A linked handle is that of an entry. -/
theorem split_of_contains {id : TokenId} (h : Holds ch es) (hid : ch.contains id = true) :
    ∃ A e B, es = A ++ e :: B ∧ e.1 = id := by
  obtain ⟨e, he, rfl⟩ := List.mem_map.mp ((h.links.mem id).mp hid)
  obtain ⟨A, B, rfl⟩ := List.append_of_mem he
  exact ⟨A, e, B, rfl, rfl⟩

/-- **The entries of a chain are what it holds.** -/
theorem entries_eq (h : Holds ch es) : ch.entries = es := by
  rw [entries, entriesOf, h.links.ids_eq, List.filterMap_map]
  have hentry : ∀ e ∈ es, (ch.get? e.1).map (e.1, ·) = some e := fun e he => by
    rw [h.tokens e he]; rfl
  exact (List.filterMap_congr hentry).trans List.filterMap_some

theorem toList_eq (h : Holds ch es) : ch.toList = es.map (·.2) := by rw [toList, h.entries_eq]

theorem source_eq (h : Holds ch es) : ch.source = Token.source (es.map (·.2)) := by
  rw [source, h.toList_eq]

/-- A search through some handles is a search through their entries. -/
theorem find?_map_fst (h : Holds ch es) (p : Token → Bool) :
    ∀ {W : List Linked}, (∀ e ∈ W, e ∈ es) →
      (W.map (·.1)).find? (ch.test p) = (W.find? (fun e => p e.2)).map (·.1)
  | [], _ => rfl
  | e :: W, hW => by
    have he := h.test_eq (hW e List.mem_cons_self) p
    have ih := find?_map_fst h p (fun x hx => hW x (List.mem_cons_of_mem _ hx))
    simp only [List.map_cons, List.find?_cons, he]
    cases p e.2
    · simpa using ih
    · rfl

/-- The nearest entry behind `e` that passes. -/
theorem findNext?_eq (h : Holds ch (A ++ e :: B)) (p : Token → Bool) :
    ch.findNext? e.1 p = (B.find? (fun x => p x.2)).map (·.1) := by
  have hl := h.links
  simp only [List.map_append, List.map_cons] at hl
  have htrail : Trail ch.next (B.map (·.1)) := by
    have := Links.trail_next (L := A.map (·.1) ++ [e.1]) (R := B.map (·.1)) (by simpa using hl)
    exact this
  have hlen := hl.length_le
  simp only [List.length_append, List.length_cons] at hlen
  rw [findNext?, seek_eq_find?, hl.next _ _ _ rfl, follow_eq htrail (by omega)]
  exact h.find?_map_fst p (fun x hx => by simp [hx])

/-- The nearest entry in front of `e` that passes. -/
theorem findPrev?_eq (h : Holds ch (A ++ e :: B)) (p : Token → Bool) :
    ch.findPrev? e.1 p = (A.reverse.find? (fun x => p x.2)).map (·.1) := by
  have hl := h.links
  simp only [List.map_append, List.map_cons] at hl
  have htrail : Trail ch.prev (A.map (·.1)).reverse := hl.trail_prev
  have hlen := hl.length_le
  simp only [List.length_append, List.length_cons] at hlen
  rw [findPrev?, seek_eq_find?, hl.prev _ _ _ rfl, ← List.head?_reverse,
    follow_eq htrail (by simp only [List.length_reverse]; omega), ← List.map_reverse]
  exact h.find?_map_fst p (fun x hx => by simp [List.mem_reverse.mp hx])

/-! ## Edits -/

/-- The tokens after a new one has been put in. -/
theorem tokens_insert {ch' : Chain} {t : Token} {es' : List Linked} (h : Holds ch es)
    (hget : ∀ id, ch'.get? id = if id = ch.fresh then some t else ch.get? id)
    (hes : ∀ f ∈ es', f = (ch.fresh, t) ∨ f ∈ es) : ∀ f ∈ es', ch'.get? f.1 = some f.2 := by
  intro f hf
  rw [hget]
  rcases hes f hf with rfl | hf
  · rw [if_pos rfl]
  · rw [if_neg (Nat.ne_of_lt (h.links.lt (List.mem_map_of_mem hf))), h.tokens f hf]

theorem push {t : Token} (h : Holds ch es) : Holds (ch.push t) (es ++ [(ch.fresh, t)]) where
  links := by simpa using h.links.push t
  tokens := by
    refine h.tokens_insert (fun _ => Links.get?_splice) fun f hf => ?_
    simpa [or_comm] using hf

theorem insertAfter (h : Holds ch (A ++ e :: B)) (t : Token) :
    Holds (ch.insertAfter e.1 t) (A ++ e :: (ch.fresh, t) :: B) where
  links := by
    have := h.links
    simp only [List.map_append, List.map_cons] at this ⊢
    exact this.insertAfter t
  tokens := by
    refine h.tokens_insert (fun _ => Links.get?_insertAfter) fun f hf => ?_
    simp only [List.mem_append, List.mem_cons] at hf ⊢
    tauto

theorem insertBefore (h : Holds ch (A ++ e :: B)) (t : Token) :
    Holds (ch.insertBefore e.1 t) (A ++ (ch.fresh, t) :: e :: B) where
  links := by
    have := h.links
    simp only [List.map_append, List.map_cons] at this ⊢
    exact this.insertBefore t
  tokens := by
    refine h.tokens_insert (fun _ => Links.get?_insertBefore) fun f hf => ?_
    simp only [List.mem_append, List.mem_cons] at hf ⊢
    tauto

theorem remove (h : Holds ch (A ++ e :: B)) : Holds (ch.remove e.1) (A ++ B) where
  links := by
    have := h.links
    simp only [List.map_append, List.map_cons] at this ⊢
    exact this.remove
  tokens := by
    intro f hf
    rw [get?_remove]
    exact h.tokens f (by simp only [List.mem_append, List.mem_cons] at hf ⊢; tauto)

theorem setText (h : Holds ch (A ++ e :: B)) (text : String) :
    Holds (ch.setText e.1 text) (A ++ (e.1, { e.2 with text := text }) :: B) where
  links := by
    have := h.links.setText e.1 text
    simpa using this
  tokens := by
    intro f hf
    have hnd := h.nodup
    simp only [List.map_append, List.map_cons, List.nodup_append, List.nodup_cons] at hnd
    rw [get?_setText]
    rcases List.mem_append.mp hf with hA | hB
    · have hne : e.1 ≠ f.1 := fun he =>
        hnd.2.2 f.1 (List.mem_map_of_mem hA) e.1 (by simp) he.symm
      rw [if_neg hne]
      exact h.tokens f (by simp [hA])
    · rcases List.mem_cons.mp hB with rfl | hB
      · rw [if_pos rfl, h.tokens e (by simp)]
        rfl
      · have hne : e.1 ≠ f.1 := fun he => hnd.2.1.1 (he ▸ List.mem_map_of_mem hB)
        rw [if_neg hne]
        exact h.tokens f (by simp [hB])

end Holds

/-! ## Building a chain from a list -/

theorem fresh_ofList (ts : List Token) : (ofList ts).fresh = ts.length := by
  unfold ofList
  induction ts using List.reverseRecOn with
  | nil => rfl
  | append_singleton ts t ih => simp [push, ih]

/-- **A chain built from a list holds the list**, each token under its position. -/
theorem holds_ofList (ts : List Token) : Holds (ofList ts) (Token.numbered ts) := by
  induction ts using List.reverseRecOn with
  | nil => exact ⟨Links.empty, by simp [Token.numbered]⟩
  | append_singleton ts t ih =>
      have hpush := ih.push (t := t)
      rw [fresh_ofList] at hpush
      rw [Token.numbered_append_singleton]
      simpa [ofList] using hpush

end Chain
end ScriptSpacing
