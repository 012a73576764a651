import Mathlib.Data.List.TakeWhile
import ScriptSpacing.Proofs.Token.Gaps
import ScriptSpacing.Proofs.Token.Holds
import ScriptSpacing.Spacing.Directive

/-!
# `Proofs.Spacing.Limit` — what one directive does

A directive on a linked token looks at the run of whitespace on one side of it and at the entry beyond that.
A line break there, or nothing, and the directive does nothing (`limit_eq`); otherwise the run becomes the
whitespace that was asked for, and every other entry stays (`exists_resized`).

On a solid token a directive is about the gap on that side. `limit_cases` says all that applying it can do:
nothing, or the gap becomes what was asked for. Which gap that is, and whether there is one, depends on the
solid entries alone (`gap?`), so it is the same before and after any directive.
-/

namespace ScriptSpacing

/-- The entries that are not whitespace. -/
def Linked.solids (es : List Linked) : List Linked := es.filter (·.2.isSolid)

namespace Linked

variable {es A B G : List Linked} {e x y : Linked}

/-- The solid entries hold the solid tokens. -/
theorem map_snd_solids (es : List Linked) : (solids es).map (·.2) = Token.solids (es.map (·.2)) := by
  rw [solids, Token.solids, List.filter_map]
  rfl

/-- Different solid entries have different handles. -/
theorem nodup_solids (h : (es.map (·.1)).Nodup) : ((solids es).map (·.1)).Nodup :=
  h.sublist (List.filter_sublist.map _)

theorem solids_append (A B : List Linked) : solids (A ++ B) = solids A ++ solids B :=
  List.filter_append A B

theorem solids_cons_of_isSolid (hx : x.2.isSolid = true) (B : List Linked) :
    solids (x :: B) = x :: solids B := List.filter_cons_of_pos hx

theorem solids_append_cons (hx : x.2.isSolid = true) (A B : List Linked) :
    solids (A ++ x :: B) = solids A ++ x :: solids B := by
  rw [solids_append, solids_cons_of_isSolid hx]

theorem solids_eq_nil (h : ∀ e ∈ G, e.2.isSolid = false) : solids G = [] :=
  List.filter_eq_nil_iff.mpr fun e he => by simp [h e he]

theorem solids_blank_append (hG : ∀ e ∈ G, e.2.isSolid = false) (hy : y.2.isSolid = true)
    (B : List Linked) : solids (G ++ y :: B) = y :: solids B := by
  rw [solids_append_cons hy, solids_eq_nil hG, List.nil_append]

theorem solids_append_blank (hx : x.2.isSolid = true) (hG : ∀ e ∈ G, e.2.isSolid = false)
    (A : List Linked) : solids (A ++ x :: G) = solids A ++ [x] := by
  rw [solids_append_cons hx, solids_eq_nil hG]

theorem length_solids (es : List Linked) :
    (solids es).length = (Token.solids (es.map (·.2))).length := by
  rw [← map_snd_solids, List.length_map]

/-- Whitespace between two entries is no part of the solid ones. -/
theorem solids_between (hG : ∀ e ∈ G, e.2.isSolid = false) (A B : List Linked) :
    solids (A ++ x :: (G ++ B)) = solids (A ++ [x]) ++ solids B := by
  rw [show A ++ x :: (G ++ B) = A ++ [x] ++ G ++ B by simp, solids_append, solids_append,
    solids_eq_nil hG, List.append_nil]

end Linked

namespace Chain

/-! ## Taking out several tokens -/

namespace Holds

variable {ch : Chain} {es A B G : List Linked} {e x y : Linked}

/-- Taking out a run of entries, front to back. -/
theorem removeAll : ∀ {K : List Linked} {ch : Chain},
    Holds ch (A ++ K ++ B) → Holds (ch.removeAll (K.map (·.1))) (A ++ B)
  | [], _, h => by simpa [Chain.removeAll] using h
  | k :: K, ch, h => by
    have hk : Holds (ch.remove k.1) (A ++ K ++ B) := by
      simpa using remove (A := A) (B := K ++ B) (by simpa using h)
    show Holds ((ch.remove k.1).removeAll (K.map (·.1))) (A ++ B)
    exact removeAll hk

/-- Taking out a run of entries, back to front. -/
theorem removeAll_reverse {K : List Linked} (h : Holds ch (A ++ K ++ B)) :
    Holds (ch.removeAll (K.map (·.1)).reverse) (A ++ B) := by
  induction K using List.reverseRecOn generalizing ch with
  | nil => simpa [Chain.removeAll] using h
  | append_singleton K k ih =>
      have hk : Holds (ch.remove k.1) (A ++ K ++ B) := by
        simpa using remove (A := A ++ K) (B := B) (by simpa using h)
      have := ih hk
      simpa [Chain.removeAll] using this

/-! ## The run beside a token -/

/-- Walking over whitespace reads the whitespace at the front of a trail, and what is behind it. -/
theorem blanksFrom_eq (h : Holds ch es) (side : Side) : ∀ {W : List Linked} {n : Nat},
    (∀ e ∈ W, e ∈ es) → Trail (ch.neighbour side) (W.map (·.1)) → W.length ≤ n →
      ch.blanksFrom side n (W.head?.map (·.1)) =
        ((W.takeWhile (·.2.isWhiteSpace)).map (·.1),
          (W.dropWhile (·.2.isWhiteSpace)).head?.map (·.1))
  | [], n, _, _, _ => by cases n <;> rfl
  | e :: W, 0, _, _, hn => absurd hn (by simp)
  | e :: W, n + 1, hW, ht, hn => by
    have hblank : ch.isWhiteSpace e.1 = e.2.isWhiteSpace :=
      h.test_eq (hW e List.mem_cons_self) _
    have hstep : ch.neighbour side e.1 = W.head?.map (·.1) := by
      rw [ht.step_head, List.head?_map]
    have ih := blanksFrom_eq h side (W := W) (n := n)
      (fun x hx => hW x (List.mem_cons_of_mem _ hx)) ht.tail (by simpa using hn)
    simp only [List.head?_cons, Option.map_some, blanksFrom, hblank, hstep, ih]
    cases hb : e.2.isWhiteSpace <;> simp [hb]

theorem blanks_after (h : Holds ch (A ++ e :: B)) :
    ch.blanks .after e.1 = ((B.takeWhile (·.2.isWhiteSpace)).map (·.1),
      (B.dropWhile (·.2.isWhiteSpace)).head?.map (·.1)) := by
  have hl := h.links
  simp only [List.map_append, List.map_cons] at hl
  have hlen := hl.length_le
  simp only [List.length_append, List.length_cons, List.length_map] at hlen
  have htrail : Trail ch.next (B.map (·.1)) :=
    Links.trail_next (L := A.map (·.1) ++ [e.1]) (by simpa using hl)
  have hnext : ch.neighbour .after e.1 = B.head?.map (·.1) := by
    rw [← List.head?_map]
    exact hl.next _ _ _ rfl
  rw [blanks, hnext]
  exact blanksFrom_eq h .after (fun x hx => by simp [hx]) htrail (by omega)

theorem blanks_before (h : Holds ch (A ++ e :: B)) :
    ch.blanks .before e.1 = ((A.reverse.takeWhile (·.2.isWhiteSpace)).map (·.1),
      (A.reverse.dropWhile (·.2.isWhiteSpace)).head?.map (·.1)) := by
  have hl := h.links
  simp only [List.map_append, List.map_cons] at hl
  have hlen := hl.length_le
  simp only [List.length_append, List.length_cons, List.length_map] at hlen
  have htrail : Trail ch.prev (A.reverse.map (·.1)) := by
    rw [List.map_reverse]
    exact hl.trail_prev
  have hprev : ch.neighbour .before e.1 = A.reverse.head?.map (·.1) := by
    rw [← List.head?_map, List.map_reverse, List.head?_reverse]
    exact hl.prev _ _ _ rfl
  rw [blanks, hprev]
  exact blanksFrom_eq h .before (fun x hx => by simp [List.mem_reverse.mp hx]) htrail
    (by simp only [List.length_reverse]; omega)

end Holds
end Chain

/-! ## The gap of a directive -/

namespace Linked

variable {A B G : List Linked} {e x y : Linked} {side : Side}

/-- The entries on one side of what stands between `A` and `B`, nearest first. -/
def beside (A B : List Linked) : Side → List Linked
  | .before => A.reverse
  | .after  => B

/-- The longest run of whitespace directly on one side, nearest first. -/
def run (A B : List Linked) (side : Side) : List Linked :=
  (beside A B side).takeWhile (·.2.isWhiteSpace)

/-- The entry at the far end of that run; there is none where the run ends at the edge of the chain. -/
def beyond (A B : List Linked) (side : Side) : Option Linked := (solids (beside A B side)).head?

/-- The first solid entry is what comes behind the whitespace. -/
theorem beyond_eq (A B : List Linked) (side : Side) :
    beyond A B side = ((beside A B side).dropWhile (·.2.isWhiteSpace)).head? := by
  rw [beyond, solids, List.head?_filter, List.find?_eq_head?_dropWhile_not]
  simp only [Token.isSolid, Bool.not_not]

theorem mem_of_mem_beside (h : x ∈ beside A B side) : x ∈ A ++ e :: B := by
  cases side with
  | before => simp [List.mem_reverse.mp h]
  | after => simp [show x ∈ B from h]

theorem mem_of_mem_run (h : x ∈ run A B side) : x ∈ A ++ e :: B :=
  mem_of_mem_beside ((List.takeWhile_sublist _).mem h)

theorem mem_of_beyond (h : beyond A B side = some x) : x ∈ A ++ e :: B :=
  mem_of_mem_beside (List.mem_of_mem_filter (List.mem_of_head? h))

theorem blank_of_mem_run (h : x ∈ run A B side) : x.2.isSolid = false := by
  have hblank := List.mem_takeWhile_imp h
  simpa [Token.isSolid] using hblank

theorem findIdx?_append_cons (h : ((A ++ x :: B).map (·.1)).Nodup) :
    (A ++ x :: B).findIdx? (·.1 == x.1) = some A.length := by
  have hA : A.findIdx? (·.1 == x.1) = none := by
    rw [List.findIdx?_eq_none_iff]
    intro a ha
    simp only [List.map_append, List.map_cons, List.nodup_append] at h
    exact beq_eq_false_iff_ne.mpr (h.2.2 a.1 (List.mem_map_of_mem ha) x.1 (by simp))
  rw [List.findIdx?_append, hA]
  simp [List.findIdx?_cons]

/-- Behind an entry comes whitespace to the end, or whitespace and a solid entry. -/
theorem blank_or_next (B : List Linked) : (∀ e ∈ B, e.2.isSolid = false) ∨
    ∃ G y B', B = G ++ y :: B' ∧ (∀ e ∈ G, e.2.isSolid = false) ∧ y.2.isSolid = true := by
  induction B with
  | nil => exact .inl (by simp)
  | cons b B ih =>
      cases hb : b.2.isSolid with
      | true => exact .inr ⟨[], b, B, rfl, by simp, hb⟩
      | false =>
          rcases ih with hall | ⟨G, y, B', rfl, hG, hy⟩
          · exact .inl (List.forall_mem_cons.mpr ⟨hb, hall⟩)
          · exact .inr ⟨b :: G, y, B', rfl, List.forall_mem_cons.mpr ⟨hb, hG⟩, hy⟩

/-- In front of an entry comes whitespace from the beginning on, or a solid entry and whitespace. -/
theorem blank_or_prev (A : List Linked) : (∀ e ∈ A, e.2.isSolid = false) ∨
    ∃ A' x G, A = A' ++ x :: G ∧ (∀ e ∈ G, e.2.isSolid = false) ∧ x.2.isSolid = true := by
  rcases blank_or_next A.reverse with hall | ⟨G, y, B', hA, hG, hy⟩
  · exact .inl fun e he => hall e (List.mem_reverse.mpr he)
  · refine .inr ⟨B'.reverse, y, G.reverse, ?_, fun e he => hG e (List.mem_reverse.mp he), hy⟩
    have := congrArg List.reverse hA
    simpa using this

/-- Whitespace is passed over up to the next solid entry. -/
theorem takeWhile_blank (hG : ∀ e ∈ G, e.2.isSolid = false) (hy : y.2.isSolid = true) :
    (G ++ y :: B).takeWhile (·.2.isWhiteSpace) = G := by
  have hG' : ∀ e ∈ G, e.2.isWhiteSpace = true := fun e he => by simpa [Token.isSolid] using hG e he
  have hy' : ¬ y.2.isWhiteSpace = true := by simpa [Token.isSolid] using hy
  rw [List.takeWhile_append_of_pos hG']
  simp [hy']

/-- Behind an entry, the run goes up to the next solid one. -/
theorem run_after (hG : ∀ e ∈ G, e.2.isSolid = false) (hy : y.2.isSolid = true) (A B : List Linked) :
    run A (G ++ y :: B) .after = G ∧ beyond A (G ++ y :: B) .after = some y := by
  refine ⟨takeWhile_blank hG hy, ?_⟩
  rw [beyond, beside, solids_blank_append hG hy]
  rfl

/-- In front of an entry, the run is read backwards. -/
theorem run_before (hG : ∀ e ∈ G, e.2.isSolid = false) (hx : x.2.isSolid = true) (A B : List Linked) :
    run (A ++ x :: G) B .before = G.reverse ∧ beyond (A ++ x :: G) B .before = some x := by
  have hG' : ∀ e ∈ G.reverse, e.2.isSolid = false := fun e he => hG e (List.mem_reverse.mp he)
  have hback : (A ++ x :: G).reverse = G.reverse ++ x :: A.reverse := by simp
  rw [run, beyond, beside, hback, takeWhile_blank hG' hx, solids_blank_append hG' hx]
  exact ⟨rfl, rfl⟩

end Linked

namespace Directive

/-- The gap that a directive is about, counted among the gaps between the solid entries `us`; there is
    none when the token is not among them, at an end of the text, or where the other side of the gap is a
    line break. -/
def gap? (us : List Linked) (d : Directive) : Option Nat :=
  match us.findIdx? (·.1 == d.token), d.side with
  | some i, .after => if (us[i + 1]?).any (!·.2.isLineBreak) then some (i + 1) else none
  | some (i + 1), .before => if (us[i]?).any (!·.2.isLineBreak) then some (i + 1) else none
  | _, _ => none

section Gap

variable {A B : List Linked} {x : Linked} {r : Rule}

/-- **The gap behind a solid entry**, unless a line break or nothing comes behind it. -/
theorem gap?_after (h : ((A ++ x :: B).map (·.1)).Nodup) (hx : x.2.isSolid = true) :
    gap? (Linked.solids (A ++ x :: B)) ⟨x.1, .after, r⟩ =
      if (Linked.solids B).head?.any (!·.2.isLineBreak) then
        some ((Linked.solids A).length + 1)
      else none := by
  have hus := Linked.solids_append_cons hx A B
  have hnd := Linked.nodup_solids h
  rw [hus] at hnd
  have hnext : (Linked.solids A ++ x :: Linked.solids B)[(Linked.solids A).length + 1]? =
      (Linked.solids B).head? := by
    rw [List.getElem?_append_right (by omega), List.head?_eq_getElem?]
    simp
  rw [hus, gap?, Linked.findIdx?_append_cons hnd]
  simp only [hnext]

/-- **The gap in front of a solid entry**, unless a line break or nothing comes in front of it. -/
theorem gap?_before (h : ((A ++ x :: B).map (·.1)).Nodup) (hx : x.2.isSolid = true) :
    gap? (Linked.solids (A ++ x :: B)) ⟨x.1, .before, r⟩ =
      if (Linked.solids A).getLast?.any (!·.2.isLineBreak) then some (Linked.solids A).length
      else none := by
  have hus := Linked.solids_append_cons hx A B
  have hnd := Linked.nodup_solids h
  rw [hus] at hnd
  rw [hus, gap?, Linked.findIdx?_append_cons hnd]
  rcases List.eq_nil_or_concat' (Linked.solids A) with hA | ⟨L, y, hA⟩
  · rw [hA]
    rfl
  · have hprev : (L ++ [y] ++ x :: Linked.solids B)[L.length]? = some y := by simp
    rw [hA]
    simp only [List.length_append, List.length_singleton, hprev, List.getLast?_concat]

/-- There is no gap where a line break or the edge is at the far end of the whitespace. -/
theorem gap?_eq_none {d : Directive} (h : ((A ++ x :: B).map (·.1)).Nodup) (hx : x.2.isSolid = true)
    (hd : d.token = x.1) (hbeyond : (Linked.beyond A B d.side).all (·.2.isLineBreak) = true) :
    gap? (Linked.solids (A ++ x :: B)) d = none := by
  obtain ⟨token, side, rule⟩ := d
  cases hd
  cases side with
  | after =>
      rw [gap?_after h hx, if_neg]
      change (Linked.solids B).head?.all _ = true at hbeyond
      cases hhead : (Linked.solids B).head? <;> simp_all
  | before =>
      rw [gap?_before h hx, if_neg]
      change (Linked.solids A.reverse).head?.all _ = true at hbeyond
      rw [Linked.solids, List.filter_reverse, List.head?_reverse, ← Linked.solids] at hbeyond
      cases hlast : (Linked.solids A).getLast? <;> simp_all

/-- **The gap between two solid entries**, of a directive on either that does not look at a line break. -/
theorem gap?_between {A B : List Linked} {t u : Linked} {d : Directive}
    (h : ((A ++ t :: u :: B).map (·.1)).Nodup)
    (hside : (d.side = .after ∧ d.token = t.1 ∧ u.2.isLineBreak = false) ∨
      (d.side = .before ∧ d.token = u.1 ∧ t.2.isLineBreak = false)) :
    d.gap? (A ++ t :: u :: B) = some (A.length + 1) := by
  obtain ⟨hside, htok, hbreak⟩ | ⟨hside, htok, hbreak⟩ := hside
  · rw [gap?, htok, Linked.findIdx?_append_cons h, hside]
    simp [hbreak]
  · have hsplit : A ++ t :: u :: B = (A ++ [t]) ++ u :: B := by simp
    rw [hsplit] at h ⊢
    rw [gap?, htok, Linked.findIdx?_append_cons h, hside, List.length_append, List.length_singleton]
    simp [hbreak]

end Gap

/-! ## Resizing a gap -/

section Resize

variable {ch : Chain} {A B G : List Linked} {x y : Linked}

/-- A token that is already the asked-for whitespace needs no rewriting. -/
theorem eq_spaces_of_text {t : Token} {n : Nat} (ht : t.isSolid = false)
    (htext : t.text = (Token.spaces n).text) : t = Token.spaces n := by
  have hkind : t.kind = .whiteSpace := by simpa [Token.isSolid, Token.isWhiteSpace] using ht
  cases t
  simp_all [Token.spaces]

/-- What is left of a gap of which one token is kept. -/
theorem resize_kept {k : Linked} {n : Nat} (hn : n ≠ 0) (hk : k.2.isSolid = false)
    (h : Chain.Holds ch (A ++ x :: ([k] ++ y :: B))) :
    ∃ G', Chain.Holds (if ch.test (·.is (Token.spaces n).text) k.1 then ch
        else ch.setText k.1 (Token.spaces n).text) (A ++ x :: (G' ++ y :: B)) ∧
      G'.map (·.2) = Token.blankRun n := by
  have htest := h.test_eq (e := k) (by simp) (·.is (Token.spaces n).text)
  split
  · next ht =>
      rw [htest, Token.is_eq_true] at ht
      exact ⟨[k], h, by simp [Token.blankRun, hn, eq_spaces_of_text hk ht]⟩
  · have hset := Chain.Holds.setText (A := A ++ [x]) (e := k) (B := y :: B) (by simpa using h)
      (Token.spaces n).text
    refine ⟨[(k.1, { k.2 with text := (Token.spaces n).text })], by simpa using hset, ?_⟩
    have hkind : k.2.kind = .whiteSpace := by simpa [Token.isSolid, Token.isWhiteSpace] using hk
    simp [Token.blankRun, hn, Token.spaces, hkind]

/-- Resizing from the left end of a gap. -/
theorem resize_after (h : Chain.Holds ch (A ++ x :: (G ++ y :: B)))
    (hG : ∀ e ∈ G, e.2.isSolid = false) (n : Nat) :
    ∃ G', Chain.Holds (resize ch .after x.1 (G.map (·.1)) n).chain (A ++ x :: (G' ++ y :: B)) ∧
      G'.map (·.2) = Token.blankRun n := by
  cases G with
  | nil =>
      by_cases hn : n = 0
      · exact ⟨[], by simpa [resize, hn] using h, by simp [Token.blankRun, hn]⟩
      · refine ⟨[(ch.fresh, Token.spaces n)], ?_, by simp [Token.blankRun, hn]⟩
        simpa [resize, hn, Chain.insertBeside] using h.insertAfter (Token.spaces n)
  | cons k K =>
      have hrest : Chain.Holds (ch.removeAll (K.map (·.1))) (A ++ x :: ([k] ++ y :: B)) := by
        have := Chain.Holds.removeAll (A := A ++ [x, k]) (K := K) (B := y :: B) (by simpa using h)
        simpa using this
      by_cases hn : n = 0
      · refine ⟨[], ?_, by simp [Token.blankRun, hn]⟩
        have := Chain.Holds.remove (A := A ++ [x]) (e := k) (B := y :: B) (by simpa using hrest)
        simpa [resize, hn] using this
      · obtain ⟨G', hG', htext⟩ := resize_kept hn (hG k List.mem_cons_self) hrest
        refine ⟨G', ?_, htext⟩
        simp only [List.map_cons, resize, if_neg hn]
        split <;> simp_all

/-- Resizing from the right end of a gap: its tokens are met in reverse. -/
theorem resize_before (h : Chain.Holds ch (A ++ x :: (G ++ y :: B)))
    (hG : ∀ e ∈ G, e.2.isSolid = false) (n : Nat) :
    ∃ G', Chain.Holds (resize ch .before y.1 (G.map (·.1)).reverse n).chain
        (A ++ x :: (G' ++ y :: B)) ∧ G'.map (·.2) = Token.blankRun n := by
  -- the token that is kept is the nearest one, which is the last of the gap
  rcases List.eq_nil_or_concat' G with rfl | ⟨K, k, rfl⟩
  · by_cases hn : n = 0
    · exact ⟨[], by simpa [resize, hn] using h, by simp [Token.blankRun, hn]⟩
    · refine ⟨[(ch.fresh, Token.spaces n)], ?_, by simp [Token.blankRun, hn]⟩
      have := Chain.Holds.insertBefore (A := A ++ [x]) (e := y) (B := B) (by simpa using h)
        (Token.spaces n)
      simpa [resize, hn, Chain.insertBeside] using this
  · have hrest : Chain.Holds (ch.removeAll (K.map (·.1)).reverse) (A ++ x :: ([k] ++ y :: B)) := by
      have := Chain.Holds.removeAll_reverse (A := A ++ [x]) (K := K) (B := k :: y :: B)
        (by simpa using h)
      simpa using this
    by_cases hn : n = 0
    · refine ⟨[], ?_, by simp [Token.blankRun, hn]⟩
      have := Chain.Holds.remove (A := A ++ [x]) (e := k) (B := y :: B) (by simpa using hrest)
      simpa [resize, hn] using this
    · obtain ⟨G', hG', htext⟩ := resize_kept hn (hG k (by simp)) hrest
      refine ⟨G', ?_, htext⟩
      simp only [List.map_append, List.map_cons, List.map_nil, List.reverse_append,
        List.reverse_cons, List.reverse_nil, List.nil_append, List.singleton_append, resize,
        if_neg hn]
      split <;> simp_all

end Resize

/-! ## One directive -/

section One

variable {ch : Chain} {A B : List Linked} {e : Linked} {d : Directive}

/-- **What a directive on a linked token does**: nothing where the far end of the whitespace is a line break
    or the edge, otherwise it resizes that whitespace. -/
theorem limit_eq (h : Chain.Holds ch (A ++ e :: B)) (hd : d.token = e.1) (n : UInt8) :
    d.limit (.exact n) ch =
      if (Linked.beyond A B d.side).all (·.2.isLineBreak) then ⟨ch, 0⟩
      else resize ch d.side e.1 ((Linked.run A B d.side).map (·.1)) n.toNat := by
  have hcontains : ch.contains e.1 = true := h.contains (by simp)
  have hblanks : ch.blanks d.side e.1 =
      ((Linked.run A B d.side).map (·.1), (Linked.beyond A B d.side).map (·.1)) := by
    rw [Linked.beyond_eq]
    cases d.side with
    | before => exact h.blanks_before
    | after => exact h.blanks_after
  cases hbeyond : Linked.beyond A B d.side with
  | none =>
      rw [hbeyond] at hblanks
      simp only [limit, hd, hcontains, if_true, hblanks, Option.map_none, Option.all_none]
  | some y =>
      rw [hbeyond] at hblanks
      have hbreak : ch.isLineBreak y.1 = y.2.isLineBreak := h.test_eq (Linked.mem_of_beyond hbeyond) _
      simp only [limit, hd, hcontains, if_true, hblanks, Option.map_some, Option.all_some, hbreak]

/-- **What a directive resizes**: whitespace with its own token at one end, and at the other an entry that is
    neither whitespace nor a line break. -/
theorem exists_resized (h : Chain.Holds ch (A ++ e :: B)) (hd : d.token = e.1)
    (hbeyond : ¬ (Linked.beyond A B d.side).all (·.2.isLineBreak) = true) (n : UInt8) :
    ∃ C x H y D H', A ++ e :: B = C ++ x :: (H ++ y :: D) ∧ (∀ e ∈ H, e.2.isSolid = false) ∧
      ((d.side = .after ∧ x = e ∧ y.2.isSolid = true ∧ y.2.isLineBreak = false) ∨
        (d.side = .before ∧ y = e ∧ x.2.isSolid = true ∧ x.2.isLineBreak = false)) ∧
      Chain.Holds (d.limit (.exact n) ch).chain (C ++ x :: (H' ++ y :: D)) ∧
      H'.map (·.2) = Token.blankRun n.toNat := by
  have hlimit := limit_eq h hd n
  rw [if_neg hbeyond] at hlimit
  rw [hlimit]
  cases hside : d.side with
  | after =>
      rw [hside] at hbeyond
      rcases Linked.blank_or_next B with hall | ⟨H, y, D, rfl, hH, hy⟩
      · simp [Linked.beyond, Linked.beside, Linked.solids_eq_nil hall] at hbeyond
      · obtain ⟨hrun, hy'⟩ := Linked.run_after hH hy A D
        rw [hy'] at hbeyond
        obtain ⟨H', hholds, htext⟩ := resize_after h hH n.toNat
        rw [hrun]
        exact ⟨A, e, H, y, D, H', rfl, hH, .inl ⟨rfl, rfl, hy, by simpa using hbeyond⟩, hholds, htext⟩
  | before =>
      rw [hside] at hbeyond
      rcases Linked.blank_or_prev A with hall | ⟨C, x, H, rfl, hH, hx⟩
      · have hall' : ∀ e ∈ A.reverse, e.2.isSolid = false := fun e he => hall e (List.mem_reverse.mp he)
        simp [Linked.beyond, Linked.beside, Linked.solids_eq_nil hall'] at hbeyond
      · obtain ⟨hrun, hx'⟩ := Linked.run_before hH hx C B
        rw [hx'] at hbeyond
        have hsplit : C ++ x :: H ++ e :: B = C ++ x :: (H ++ e :: B) := by simp
        rw [hsplit] at h ⊢
        obtain ⟨K, hholds, htext⟩ := resize_before h hH n.toNat
        rw [hrun, List.map_reverse]
        exact ⟨C, x, H, e, B, K, rfl, hH, .inr ⟨rfl, rfl, hx, by simpa using hbeyond⟩, hholds, htext⟩

end One

/-- The gap that a directive resizes: `x` and `y` are the solid entries around the whitespace `G`, one of
    them is the directive's token, and the other is no line break. -/
structure Resizes (us : List Linked) (d : Directive) (A : List Linked) (x : Linked) (G : List Linked)
    (y : Linked) : Prop where
  left  : x.2.isSolid = true
  blank : ∀ e ∈ G, e.2.isSolid = false
  right : y.2.isSolid = true
  side  : (d.side = .after ∧ d.token = x.1 ∧ y.2.isLineBreak = false) ∨
    (d.side = .before ∧ d.token = y.1 ∧ x.2.isLineBreak = false)
  gap   : d.gap? us = some ((Linked.solids A).length + 1)

/-- **All that a directive on a solid token can do**: nothing, where its rule preserves or it has no gap,
    or make its gap the whitespace that was asked for. -/
theorem limit_cases {ch : Chain} {es : List Linked} {d : Directive} (h : Chain.Holds ch es)
    (hd : d.token ∈ (Linked.solids es).map (·.1)) (amount : Amount) :
    (d.limit amount ch = ⟨ch, 0⟩ ∧ (amount = .preserve ∨ d.gap? (Linked.solids es) = none)) ∨
    ∃ n A x G y B G', amount = .exact n ∧ es = A ++ x :: (G ++ y :: B) ∧
      Resizes (Linked.solids es) d A x G y ∧
      Chain.Holds (d.limit amount ch).chain (A ++ x :: (G' ++ y :: B)) ∧
      G'.map (·.2) = Token.blankRun n.toNat := by
  cases amount with
  | preserve => exact .inl ⟨rfl, .inl rfl⟩
  | exact n =>
      obtain ⟨e, he, hed⟩ := List.mem_map.mp hd
      obtain ⟨hes, hsolid⟩ := List.mem_filter.mp he
      obtain ⟨L, R, rfl⟩ := List.append_of_mem hes
      by_cases hbeyond : (Linked.beyond L R d.side).all (·.2.isLineBreak) = true
      · have hgap := gap?_eq_none h.nodup hsolid hed.symm hbeyond
        exact .inl ⟨by rw [limit_eq h hed.symm, if_pos hbeyond], .inr hgap⟩
      · obtain ⟨A, x, G, y, B, G', hsplit, hG, hends, hholds, htext⟩ :=
          exists_resized h hed.symm hbeyond n
        -- the token is solid, so both ends of the whitespace are
        obtain ⟨hx, hy, hside⟩ : x.2.isSolid = true ∧ y.2.isSolid = true ∧
            ((d.side = .after ∧ d.token = x.1 ∧ y.2.isLineBreak = false) ∨
              (d.side = .before ∧ d.token = y.1 ∧ x.2.isLineBreak = false)) := by
          rcases hends with ⟨hs, rfl, hy, hbreak⟩ | ⟨hs, rfl, hx, hbreak⟩
          · exact ⟨hsolid, hy, .inl ⟨hs, hed.symm, hbreak⟩⟩
          · exact ⟨hx, hsolid, .inr ⟨hs, hed.symm, hbreak⟩⟩
        have hus : Linked.solids (L ++ e :: R) = Linked.solids A ++ x :: y :: Linked.solids B := by
          rw [hsplit, Linked.solids_append_cons hx, Linked.solids_blank_append hG hy]
        have hgap : d.gap? (Linked.solids (L ++ e :: R)) = some ((Linked.solids A).length + 1) := by
          have hnd := Linked.nodup_solids h.nodup
          rw [hus] at hnd ⊢
          exact gap?_between hnd hside
        exact .inr ⟨n, A, x, G, y, B, G', rfl, hsplit, ⟨hx, hG, hy, hside, hgap⟩, hholds, htext⟩

end Directive
end ScriptSpacing
