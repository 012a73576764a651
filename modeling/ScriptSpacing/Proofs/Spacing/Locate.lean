import Mathlib.Data.List.Nodup
import ScriptSpacing.Proofs.Spacing.Depth
import ScriptSpacing.Proofs.Token.Holds
import ScriptSpacing.Proofs.Token.Recut
import ScriptSpacing.Syntax.Parse

/-!
# `Proofs.Spacing.Locate` — the locator by position

The locator walks a chain; what it finds depends on the code tokens alone. For a chain that holds a list of
entries each walk is turned into a fact about positions among the code tokens: the code token on either side
(`prevCode?_eq`, `nextCode?_eq`), the closing parenthesis (`closing?_eq_some_iff`), and with them the whole
answer. `Code.Encloses code kind i j k m` is that answer: for a node of a kind from position `i` to `j`, the
pair stands at `k` and `m`.

Trivia may lie anywhere between code tokens. A scan for the closing parenthesis passes over them unchanged
because none of them has the text of a parenthesis.
-/

namespace ScriptSpacing

/-- Only code tokens have the text of a parenthesis. -/
def Chain.PlainTrivia (es : List Linked) : Prop :=
  ∀ e ∈ es, e.2.text = "(" ∨ e.2.text = ")" → e.2.isCode = true

/-- The tokens of a text have plain trivia. -/
theorem Chain.plainTrivia_of_cut {es : List Linked} (h : Token.Cut (es.map (·.2))) :
    PlainTrivia es := by
  intro e he htext
  have hmem : e.2.text ∈ brackets := by
    rcases htext with htext | htext <;> rw [htext] <;> decide
  have hts : e.2 ∈ es.map (·.2) := List.mem_map_of_mem he
  rw [Token.isCode, h.kind_of_bracket hts hmem]
  rfl

namespace Chain
open Code

variable {ch : Chain} {es A B : List Linked} {a b e : Linked} {i j k m p : Nat}

/-! ## Code tokens by position -/

theorem filter_code_cons (he : e.2.isCode = true) (B : List Linked) :
    (e :: B).filter (·.2.isCode) = e :: B.filter (·.2.isCode) :=
  List.filter_cons_of_pos (p := fun x : Linked => x.2.isCode) he

theorem Holds.at?_eq (h : Holds ch es) (i : Nat) :
    (Code.ofChain ch).at? i = (es.filter (·.2.isCode))[i]? := by
  simp [Code.ofChain, Code.ofEntries, Code.at?, h.entries_eq]

/-- A code token has its place among all entries. -/
theorem Holds.exists_split (h : Holds ch es) (hi : (Code.ofChain ch).at? i = some e) :
    ∃ A B, es = A ++ e :: B ∧ e.2.isCode = true ∧ (A.filter (·.2.isCode)).length = i := by
  rw [h.at?_eq] at hi
  obtain ⟨hlt, hget⟩ := List.getElem?_eq_some_iff.mp hi
  have hsplit : es.filter (·.2.isCode) = (es.filter (·.2.isCode)).take i ++
      e :: (es.filter (·.2.isCode)).drop (i + 1) := by
    rw [← hget, ← List.drop_eq_getElem_cons, List.take_append_drop]
  obtain ⟨L, R, rfl, hL, hR⟩ := List.filter_eq_append_iff.mp hsplit
  obtain ⟨G, B, rfl, hG, he, -⟩ := List.filter_eq_cons_iff.mp hR
  refine ⟨L ++ G, B, by simp, he, ?_⟩
  have hnil : G.filter (·.2.isCode) = [] := List.filter_eq_nil_iff.mpr hG
  rw [List.filter_append, hnil, List.append_nil, hL, List.length_take]
  omega

/-- The code tokens around one of them. -/
theorem Holds.at?_split (h : Holds ch (A ++ e :: B)) (he : e.2.isCode = true) (i : Nat) :
    (Code.ofChain ch).at? i = (A.filter (·.2.isCode) ++ e :: B.filter (·.2.isCode))[i]? := by
  rw [h.at?_eq, List.filter_append, filter_code_cons he]

/-- Different positions have different handles. -/
theorem Holds.at?_inj (h : Holds ch es) (hi : (Code.ofChain ch).at? i = some a)
    (hj : (Code.ofChain ch).at? j = some b) : a.1 = b.1 ↔ i = j := by
  constructor
  · intro hab
    rw [h.at?_eq] at hi hj
    have hnd : ((es.filter (·.2.isCode)).map (·.1)).Nodup :=
      h.nodup.sublist (List.filter_sublist.map _)
    obtain ⟨hilt, -⟩ := List.getElem?_eq_some_iff.mp hi
    refine (List.getElem?_inj (by rwa [List.length_map]) hnd).mp ?_
    rw [List.getElem?_map, List.getElem?_map, hi, hj]
    exact congrArg some hab
  · rintro rfl
    rw [hi] at hj
    cases hj
    rfl

theorem Holds.test_code (h : Holds ch es) (hi : (Code.ofChain ch).at? i = some e)
    (p : Token → Bool) : ch.test p e.1 = p e.2 := by
  obtain ⟨A, B, rfl, -, -⟩ := h.exists_split hi
  exact h.test_eq (by simp) p

/-! ## The code tokens on either side -/

/-- **The code token in front** is the one at the position in front. -/
theorem Holds.prevCode?_eq (h : Holds ch es) (hi : (Code.ofChain ch).at? i = some e) :
    ch.prevCode? e.1 = if i = 0 then none else ((Code.ofChain ch).at? (i - 1)).map (·.1) := by
  obtain ⟨A, B, rfl, he, rfl⟩ := h.exists_split hi
  rw [prevCode?, h.findPrev?_eq, ← List.head?_filter, List.filter_reverse, List.head?_reverse,
    h.at?_split he]
  rcases List.eq_nil_or_concat' (A.filter (·.2.isCode)) with hA | ⟨L, x, hA⟩
  · rw [hA]
    rfl
  · rw [hA, if_neg (by simp)]
    simp

/-- **The code token behind** is the one at the position behind. -/
theorem Holds.nextCode?_eq (h : Holds ch es) (hi : (Code.ofChain ch).at? i = some e) :
    ch.nextCode? e.1 = ((Code.ofChain ch).at? (i + 1)).map (·.1) := by
  obtain ⟨A, B, rfl, he, rfl⟩ := h.exists_split hi
  rw [nextCode?, h.findNext?_eq, ← List.head?_filter, h.at?_split he,
    List.getElem?_append_right (by omega)]
  simp [List.head?_eq_getElem?]

/-- One code token is directly in front of another when its position is. -/
theorem Holds.prevCode?_eq_some_iff (h : Holds ch es) (hi : (Code.ofChain ch).at? i = some a)
    (hj : (Code.ofChain ch).at? j = some b) : ch.prevCode? a.1 = some b.1 ↔ j + 1 = i := by
  rw [h.prevCode?_eq hi]
  constructor
  · intro hsome
    split at hsome
    · cases hsome
    · obtain ⟨d, hd, hdb⟩ := Option.map_eq_some_iff.mp hsome
      have := (h.at?_inj hd hj).mp hdb
      omega
  · rintro rfl
    simp [hj]

/-- One code token is directly behind another when its position is. -/
theorem Holds.nextCode?_eq_some_iff (h : Holds ch es) (hi : (Code.ofChain ch).at? i = some a)
    (hj : (Code.ofChain ch).at? j = some b) : ch.nextCode? a.1 = some b.1 ↔ i + 1 = j := by
  rw [h.nextCode?_eq hi]
  constructor
  · intro hsome
    obtain ⟨d, hd, hdb⟩ := Option.map_eq_some_iff.mp hsome
    exact (h.at?_inj hd hj).mp hdb
  · rintro rfl
    simp [hj]

/-! ## The closing parenthesis -/

/-- The first entry behind which the depth, `depth` at first, is zero. -/
def closeIn (depth : Int) : List Linked → Option (Linked)
  | [] => none
  | e :: es => if depth + depthStep e.2 = 0 then some e else closeIn (depth + depthStep e.2) es

theorem Holds.closeFrom_eq (h : Holds ch es) : ∀ {W : List Linked} {n : Nat} {depth : Int},
    (∀ e ∈ W, e ∈ es) → Trail ch.next (W.map (·.1)) → W.length ≤ n →
    ch.closeFrom n depth (W.map (·.1)).head? = (closeIn depth W).map (·.1)
  | [], n, _, _, _, _ => by cases n <;> rfl
  | e :: W, 0, _, _, _, hn => absurd hn (by simp)
  | e :: W, n + 1, depth, hW, htrail, hn => by
    have htoken := h.tokens e (hW e List.mem_cons_self)
    have ih : ch.closeFrom n (depth + depthStep e.2) (W.map (·.1)).head? =
        (closeIn (depth + depthStep e.2) W).map (·.1) :=
      closeFrom_eq h (fun x hx => hW x (List.mem_cons_of_mem _ hx)) htrail.tail (by simpa using hn)
    rw [← htrail.step_head] at ih
    simp only [List.map_cons, List.head?_cons, closeFrom, htoken, closeIn, ih]
    split <;> rfl

/-- Trivia add nothing to the depth. -/
theorem PlainTrivia.depthStep_eq_zero (hes : PlainTrivia es) (he : e ∈ es)
    (hcode : e.2.isCode = false) : depthStep e.2 = 0 := by
  have hne : ∀ {s : String}, s = "(" ∨ s = ")" → e.2.text ≠ s := by
    rintro s hs rfl
    have hyes := hes e he hs
    rw [hcode] at hyes
    cases hyes
  exact depthStep_of_ne (hne (.inl rfl)) (hne (.inr rfl))

/-- Trivia do not count, unless the depth is zero already. -/
theorem closeIn_filter (hes : PlainTrivia es) : ∀ {depth : Int}, depth ≠ 0 →
    closeIn depth es = closeIn depth (es.filter (·.2.isCode)) := by
  induction es with
  | nil => exact fun _ => rfl
  | cons e es ih =>
      intro depth hdepth
      have ih' : ∀ {d : Int}, d ≠ 0 → closeIn d es = closeIn d (es.filter (·.2.isCode)) :=
        ih fun x hx => hes x (List.mem_cons_of_mem _ hx)
      cases he : e.2.isCode with
      | true =>
          rw [filter_code_cons he, closeIn, closeIn]
          split
          · rfl
          · next hne => exact ih' hne
      | false =>
          have hstep := hes.depthStep_eq_zero List.mem_cons_self he
          rw [List.filter_cons_of_neg (by simp [he]), closeIn, hstep, Int.add_zero, if_neg hdepth]
          exact ih' hdepth

/-- A scan stops where the depth is first zero. -/
theorem closeIn_eq_some_iff {W : List Linked} {depth : Int} {f : Linked} :
    closeIn depth W = some f ↔ ∃ n, W[n]? = some f ∧
      depth + ((W.take (n + 1)).map (fun e => depthStep e.2)).sum = 0 ∧
      ∀ q, q < n → depth + ((W.take (q + 1)).map (fun e => depthStep e.2)).sum ≠ 0 := by
  induction W generalizing depth with
  | nil => simp [closeIn]
  | cons e W ih =>
      rw [closeIn]
      split
      · next hzero =>
          constructor
          · rintro ⟨⟩
            exact ⟨0, rfl, by simpa using hzero, fun q hq => absurd hq (Nat.not_lt_zero q)⟩
          · rintro ⟨n, hn, -, hfirst⟩
            cases n with
            | zero => simpa using hn
            | succ n => exact absurd (by simpa using hzero) (hfirst 0 (Nat.succ_pos n))
      · next hne =>
          rw [ih]
          constructor
          · rintro ⟨n, hn, hzero, hfirst⟩
            refine ⟨n + 1, hn, by simpa [Int.add_assoc] using hzero, fun q hq => ?_⟩
            cases q with
            | zero => simpa using hne
            | succ q => simpa [Int.add_assoc] using hfirst q (Nat.lt_of_succ_lt_succ hq)
          · rintro ⟨n, hn, hzero, hfirst⟩
            cases n with
            | zero => exact absurd (by simpa using hzero) hne
            | succ n =>
                refine ⟨n, hn, by simpa [Int.add_assoc] using hzero, fun q hq => ?_⟩
                simpa [Int.add_assoc] using hfirst (q + 1) (Nat.succ_lt_succ hq)

/-- The depth behind some code tokens is the depth in front and what they add. -/
theorem Holds.depth_add (h : Holds ch (A ++ e :: B)) (he : e.2.isCode = true) (n : Nat) :
    (Code.ofChain ch).depth ((A.filter (·.2.isCode)).length + n) =
      (Code.ofChain ch).depth (A.filter (·.2.isCode)).length +
        (((e :: B.filter (·.2.isCode)).take n).map (fun e => depthStep e.2)).sum := by
  have hlist : (Code.ofChain ch).tokens.toList =
      A.filter (·.2.isCode) ++ e :: B.filter (·.2.isCode) := by
    simp [Code.ofChain, Code.ofEntries, h.entries_eq, filter_code_cons he]
  simp only [Code.depth, hlist, List.take_append, List.take_length, Nat.sub_self, List.take_zero,
    List.append_nil, Nat.add_sub_cancel_left]
  rw [List.take_of_length_le (Nat.le_add_right _ n), List.map_append, List.sum_append]

/-- **The closing parenthesis** of an opening one, by position. -/
theorem Holds.closing?_eq_some_iff (h : Holds ch es) (hes : PlainTrivia es)
    (hk : (Code.ofChain ch).at? k = some e) (hopen : e.2.text = "(") {id : TokenId} :
    ch.closing? e.1 = some id ↔ ∃ m f, (Code.ofChain ch).at? m = some f ∧ f.1 = id ∧
      (Code.ofChain ch).Closes k m := by
  obtain ⟨A, B, rfl, he, hlen⟩ := h.exists_split hk
  have hstep := depthStep_of_open hopen
  have hisopen : (Code.ofChain ch).is k "(" = true := is_eq_true_iff.mpr ⟨e, hk, hopen⟩
  have htrail : Trail ch.next ((e :: B).map (·.1)) := by
    have hl := h.links
    rw [List.map_append] at hl
    exact hl.trail_next
  have hslots := h.links.length_le
  simp only [List.length_map, List.length_append, List.length_cons] at hslots
  -- behind the opening the depth is not zero, so trivia can be left out of the scan
  have hscan : closeIn 0 (e :: B) = closeIn 0 (e :: B.filter (·.2.isCode)) := by
    rw [closeIn, closeIn, hstep, if_neg (by decide), if_neg (by decide)]
    exact closeIn_filter (fun x hx => hes x (by simp [hx])) (by decide)
  have hclosing : ch.closing? e.1 = (closeIn 0 (e :: B.filter (·.2.isCode))).map (·.1) := by
    rw [closing?, if_pos (h.contains (by simp)), ← hscan]
    exact h.closeFrom_eq (W := e :: B) (fun x hx => by simp_all) htrail (by rw [List.length_cons]; omega)
  have hdepth := h.depth_add he
  rw [hlen] at hdepth
  have hat : ∀ n, (Code.ofChain ch).at? (k + n) = (e :: B.filter (·.2.isCode))[n]? := by
    intro n
    rw [h.at?_split he, List.getElem?_append_right (by omega), hlen, Nat.add_sub_cancel_left]
  rw [hclosing, Option.map_eq_some_iff]
  constructor
  · rintro ⟨f, hf, rfl⟩
    obtain ⟨n, hn, hzero, hfirst⟩ := closeIn_eq_some_iff.mp hf
    have hn0 : n ≠ 0 := by
      rintro rfl
      simp [hstep] at hzero
    refine ⟨k + n, f, by rw [hat, hn], rfl, hisopen, by omega, ?_, ?_, fun q hkq hq => ?_⟩
    · exact lt_size_of_at? (by rw [hat, hn])
    · rw [Nat.add_assoc, hdepth]
      omega
    · obtain ⟨d, rfl⟩ := Nat.exists_eq_add_of_lt hkq
      rw [Nat.add_assoc, hdepth]
      have := hfirst d (by omega)
      omega
  · rintro ⟨m, f, hf, rfl, hcloses⟩
    obtain ⟨n, rfl⟩ := Nat.exists_eq_add_of_lt hcloses.lt
    refine ⟨f, closeIn_eq_some_iff.mpr ⟨n + 1, ?_, ?_, fun q hq => ?_⟩, rfl⟩
    · rw [← hat, ← Nat.add_assoc, hf]
    · have := hcloses.level
      rw [show k + n + 1 + 1 = k + (n + 1 + 1) by omega, hdepth] at this
      omega
    · have := hcloses.first (k + (q + 1)) (by omega) (by omega)
      rw [hdepth] at this
      omega

end Chain

/-! ## The pair around a node -/

/-- **The pair at `k` and `m` is found** for a node of a kind from position `i` to `j`: it opens directly in
    front of the node, or is the node's first token where that may be; it closes around the node's last
    token, at it, or directly in front of it. -/
structure Code.Encloses (code : Code) (kind : Node.Kind) (i j k m : Nat) : Prop where
  place  : (k + 1 = i ∧ (kind.isBinaryLike = true ∨ code.is i "(" = false)) ∨
    (k = i ∧ kind.isBinaryLike = false)
  closes : code.Closes k m
  ending : m = j ∨ m = j + 1 ∨ m + 1 = j

namespace Pair
open Chain Code

variable {ch : Chain} {es : List Linked} {a b c : Linked} {i j k m : Nat}
  {kind : Node.Kind}

/-- The candidate for the opening, by position. -/
theorem candidate?_filter_iff (h : Holds ch es) (hi : (Code.ofChain ch).at? i = some a)
    {id : TokenId} :
    (candidate? ch kind a.1).filter (ch.test (·.is "(")) = some id ↔
      ∃ k c, (Code.ofChain ch).at? k = some c ∧ c.1 = id ∧ c.2.text = "(" ∧
        ((k + 1 = i ∧ (kind.isBinaryLike = true ∨ (Code.ofChain ch).is i "(" = false)) ∨
          (k = i ∧ kind.isBinaryLike = false)) := by
  have htest : ch.test (·.is "(") a.1 = (Code.ofChain ch).is i "(" := by
    rw [h.test_code hi, is_eq_of_at? hi]
  rw [Option.filter_eq_some_iff]
  unfold candidate?
  rw [htest]
  split
  · next hcond =>
      simp only [Bool.or_eq_true, Bool.not_eq_true'] at hcond
      rw [h.prevCode?_eq hi]
      constructor
      · rintro ⟨hprev, hopen⟩
        split at hprev
        · cases hprev
        · next hi0 =>
            obtain ⟨c, hc, rfl⟩ := Option.map_eq_some_iff.mp hprev
            rw [h.test_code hc, Token.is_eq_true] at hopen
            exact ⟨i - 1, c, hc, rfl, hopen, .inl ⟨by omega, hcond⟩⟩
      · rintro ⟨k, c, hc, rfl, hopen, ⟨rfl, -⟩ | ⟨rfl, hkind⟩⟩
        · exact ⟨by simp [hc], by rw [h.test_code hc, Token.is_eq_true]; exact hopen⟩
        · rw [hi] at hc
          cases hc
          rcases hcond with hcond | hcond
          · rw [hkind] at hcond
            cases hcond
          · rw [is_eq_of_at? hi] at hcond
            simp [Token.is, hopen] at hcond
  · next hcond =>
      simp only [Bool.or_eq_true, Bool.not_eq_true', not_or, Bool.not_eq_true,
        Bool.not_eq_false] at hcond
      constructor
      · rintro ⟨⟨⟩, hopen⟩
        rw [h.test_code hi, Token.is_eq_true] at hopen
        exact ⟨i, a, hi, rfl, hopen, .inr ⟨rfl, hcond.1⟩⟩
      · rintro ⟨k, c, hc, rfl, hopen, ⟨rfl, hor⟩ | ⟨rfl, -⟩⟩
        · rw [hcond.1, hcond.2] at hor
          rcases hor with hor | hor <;> cases hor
        · rw [hi] at hc
          cases hc
          exact ⟨rfl, by rw [h.test_code hi, Token.is_eq_true]; exact hopen⟩

/-- Where the closing parenthesis may stand, by position. -/
theorem closesAt_iff (h : Holds ch es) (hm : (Code.ofChain ch).at? m = some c)
    (hj : (Code.ofChain ch).at? j = some b) :
    closesAt ch c.1 b.1 = true ↔ m = j ∨ m = j + 1 ∨ m + 1 = j := by
  simp only [closesAt, Bool.or_eq_true, beq_iff_eq, h.at?_inj hm hj,
    h.prevCode?_eq_some_iff hm hj, h.nextCode?_eq_some_iff hm hj, or_assoc, eq_comm (a := j + 1)]

/-- **The pair around a span of code tokens**, by position. -/
theorem around?_eq_some_iff (h : Holds ch es) (hes : PlainTrivia es)
    (hi : (Code.ofChain ch).at? i = some a) (hj : (Code.ofChain ch).at? j = some b) {p : Pair} :
    around? ch kind a.1 b.1 = some p ↔
      ∃ k m c d, (Code.ofChain ch).at? k = some c ∧ (Code.ofChain ch).at? m = some d ∧
        p = ⟨c.1, d.1⟩ ∧ (Code.ofChain ch).Encloses kind i j k m := by
  constructor
  · intro hp
    obtain ⟨opening, hopening, hp⟩ := Option.bind_eq_some_iff.mp hp
    obtain ⟨k, c, hc, rfl, hopen, hplace⟩ := (candidate?_filter_iff h hi).mp hopening
    obtain ⟨closing, hclosing, hp⟩ := Option.bind_eq_some_iff.mp hp
    obtain ⟨m, d, hd, rfl, hcloses⟩ := (h.closing?_eq_some_iff hes hc hopen).mp hclosing
    split at hp
    · next hat =>
        cases hp
        exact ⟨k, m, c, d, hc, hd, rfl, hplace, hcloses, (closesAt_iff h hd hj).mp hat⟩
    · cases hp
  · rintro ⟨k, m, c, d, hc, hd, rfl, hencloses⟩
    have hopen : c.2.text = "(" := by
      rw [← Token.is_eq_true, ← is_eq_of_at? hc]
      exact hencloses.closes.opener
    refine Option.bind_eq_some_iff.mpr ⟨c.1, ?_, Option.bind_eq_some_iff.mpr ⟨d.1, ?_, ?_⟩⟩
    · exact (candidate?_filter_iff h hi).mpr ⟨k, c, hc, rfl, hopen, hencloses.place⟩
    · exact (h.closing?_eq_some_iff hes hc hopen).mpr ⟨m, d, hd, rfl, hencloses.closes⟩
    · rw [if_pos ((closesAt_iff h hd hj).mpr hencloses.ending)]

end Pair
end ScriptSpacing
