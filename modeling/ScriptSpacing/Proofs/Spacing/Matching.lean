import ScriptSpacing.Proofs.Spacing.Locate
import ScriptSpacing.Proofs.Syntax.Closers
import ScriptSpacing.Proofs.Token.Operations

/-!
# `Proofs.Spacing.Matching` — two ways to match parentheses

The parser matches all parentheses beforehand, in one pass with a stack. The formatter matches one at a time:
it counts depth from a `(` on, over trivia too, until the depth is zero. Both find the `)` at which the depth
returns for the first time to what it was in front of the `(`, whatever is unbalanced around it.

The stack stands for all these counts at once. `Code.StillOpen code i n` says that a count begun at `i` is
above zero all the way to `n`, and `Pairing.Tracks` that the stack holds exactly these, each one level below
the one on top of it. One token keeps that (`Tracks.step`), so after the whole pass the table has the closer
of every parenthesis and of nothing else (`Code.Paired.closer?_eq_some_iff`).
-/

namespace ScriptSpacing

/-! ## Parentheses still open -/

namespace Code
open Chain (depthStep)

variable {code : Code} {i j n : Nat} {e : TokenId × Token}

/-- **The parenthesis at `i` is still open** in front of `n`: the depth has stayed above what it was in front
    of `i`. -/
structure StillOpen (code : Code) (i n : Nat) : Prop where
  opener : code.is i "(" = true
  lt     : i < n
  above  : ∀ q, i < q → q ≤ n → code.depth i < code.depth q

theorem StillOpen.lt_depth (h : code.StillOpen i n) : code.depth i < code.depth n :=
  h.above n h.lt (Nat.le_refl n)

/-- A parenthesis that was just read is open. -/
theorem stillOpen_self (hat : code.at? n = some e) (hopen : e.2.text = "(") :
    code.StillOpen n (n + 1) where
  opener := is_eq_true_iff.mpr ⟨e, hat, hopen⟩
  lt := Nat.lt_succ_self n
  above := by
    intro q hn hq
    obtain rfl : q = n + 1 := by omega
    rw [depth_succ hat, depthStep_of_open hopen]
    omega

/-- What is open behind a token is the token itself, or was open in front of it and is above its depth. -/
theorem stillOpen_succ_iff (hat : code.at? n = some e) : code.StillOpen i (n + 1) ↔
    (i = n ∧ e.2.text = "(") ∨ (code.StillOpen i n ∧ code.depth i < code.depth (n + 1)) := by
  constructor
  · intro h
    rcases Nat.eq_or_lt_of_le (Nat.le_of_lt_succ h.lt) with rfl | hlt
    · left
      have hopener := h.opener
      rw [is_eq_of_at? hat, Token.is_eq_true] at hopener
      exact ⟨rfl, hopener⟩
    · right
      exact ⟨⟨h.opener, hlt, fun q hi hq => h.above q hi (Nat.le_succ_of_le hq)⟩, h.lt_depth⟩
  · rintro (⟨rfl, hopen⟩ | ⟨h, hdepth⟩)
    · exact stillOpen_self hat hopen
    · refine ⟨h.opener, Nat.lt_succ_of_lt h.lt, ?_⟩
      intro q hi hq
      rcases Nat.lt_or_eq_of_le hq with hlt | rfl
      · exact h.above q hi (Nat.le_of_lt_succ hlt)
      · exact hdepth

/-- **A token closes what is still open in front of it** and at whose depth it ends. -/
theorem closes_iff_stillOpen (hat : code.at? n = some e) :
    code.Closes i n ↔ code.StillOpen i n ∧ code.depth (n + 1) = code.depth i := by
  constructor
  · intro h
    exact ⟨⟨h.opener, h.lt, fun q hi hq => h.lt_depth hi hq⟩, h.level⟩
  · rintro ⟨h, hlevel⟩
    refine ⟨h.opener, h.lt, lt_size_of_at? hat, hlevel, ?_⟩
    intro q hi hq
    exact (Int.ne_of_lt (h.above q hi hq)).symm

/-- Only a closing parenthesis closes anything. -/
theorem not_closes_of_ne (hat : code.at? n = some e) (hclose : e.2.text ≠ ")") :
    ¬code.Closes i n := by
  intro h
  have hcloser := h.closer
  rw [is_eq_of_at? hat, Token.is_eq_true] at hcloser
  exact hclose hcloser

end Code

/-! ## One pass -/

namespace Pairing
open Code

variable {code : Code} {p : Pairing} {e : TokenId × Token} {i j n : Nat}

/-- **What a pass has come to in front of `n`**: the stack holds what is still open, each one level below the
    one on top of it, and the table the parentheses that were closed. -/
structure Tracks (code : Code) (n : Nat) (p : Pairing) : Prop where
  size    : p.closers.size = n
  opened  : ∀ i, i ∈ p.opened ↔ code.StillOpen i n
  levels  : ∀ k i : Nat, p.opened[k]? = some i → code.depth i + k + 1 = code.depth n
  closers : ∀ i j : Nat, p.closers[i]? = some (some j) ↔ code.Closes i j ∧ j < n

theorem tracks_zero (code : Code) : Tracks code 0 {} where
  size := rfl
  opened := by
    intro i
    refine ⟨fun h => absurd h List.not_mem_nil, fun h => absurd h.lt (Nat.not_lt_zero i)⟩
  levels := by
    intro k i h
    cases h
  closers := by
    intro i j
    constructor
    · intro h
      cases h
    · rintro ⟨-, h⟩
      exact absurd h (Nat.not_lt_zero j)

namespace Tracks

/-- The table where a token closes nothing. -/
theorem closers_push (h : Tracks code n p) (hnone : ∀ i, ¬code.Closes i n) (i j : Nat) :
    (p.closers.push none)[i]? = some (some j) ↔ code.Closes i j ∧ j < n + 1 := by
  rw [getElem?_push_none_iff, h.closers]
  constructor
  · rintro ⟨hcloses, hj⟩
    exact ⟨hcloses, Nat.lt_succ_of_lt hj⟩
  · rintro ⟨hcloses, hj⟩
    rcases Nat.eq_or_lt_of_le (Nat.le_of_lt_succ hj) with rfl | hlt
    · exact absurd hcloses (hnone i)
    · exact ⟨hcloses, hlt⟩

theorem step_open (h : Tracks code n p) (hat : code.at? n = some e) (hopen : e.2.text = "(") :
    Tracks code (n + 1) ⟨p.closers.size :: p.opened, p.closers.push none⟩ := by
  have hdepth := depth_succ hat
  rw [depthStep_of_open hopen] at hdepth
  refine ⟨by rw [Array.size_push, h.size], ?_, ?_, ?_⟩
  · intro i
    rw [List.mem_cons, h.size, h.opened, stillOpen_succ_iff hat]
    constructor
    · rintro (rfl | hi)
      · exact .inl ⟨rfl, hopen⟩
      · have := hi.lt_depth
        exact .inr ⟨hi, by omega⟩
    · rintro (⟨rfl, -⟩ | ⟨hi, -⟩)
      · exact .inl rfl
      · exact .inr hi
  · intro k i hk
    cases k with
    | zero =>
        obtain rfl : p.closers.size = i := by simpa using hk
        rw [h.size]
        omega
    | succ k =>
        have := h.levels k i (by simpa using hk)
        omega
  · exact h.closers_push fun i => not_closes_of_ne hat (by rw [hopen]; decide)

theorem step_other (h : Tracks code n p) (hat : code.at? n = some e) (hopen : e.2.text ≠ "(")
    (hclose : e.2.text ≠ ")") : Tracks code (n + 1) ⟨p.opened, p.closers.push none⟩ := by
  have hdepth := depth_succ hat
  rw [depthStep_of_ne hopen hclose] at hdepth
  refine ⟨by rw [Array.size_push, h.size], ?_, ?_, ?_⟩
  · intro i
    rw [h.opened, stillOpen_succ_iff hat]
    constructor
    · intro hi
      have := hi.lt_depth
      exact .inr ⟨hi, by omega⟩
    · rintro (⟨-, htext⟩ | ⟨hi, -⟩)
      · exact absurd htext hopen
      · exact hi
  · intro k i hk
    have := h.levels k i hk
    omega
  · exact h.closers_push fun i => not_closes_of_ne hat hclose

/-- A `)` with nothing open closes nothing, and nothing is open behind it. -/
theorem step_stray (h : Tracks code n p) (hat : code.at? n = some e) (hclose : e.2.text = ")")
    (hopened : p.opened = []) : Tracks code (n + 1) ⟨[], p.closers.push none⟩ := by
  have hnone : ∀ i, ¬code.StillOpen i n := by
    intro i hi
    have hmem := (h.opened i).mpr hi
    rw [hopened] at hmem
    exact List.not_mem_nil hmem
  refine ⟨by rw [Array.size_push, h.size], ?_, ?_, ?_⟩
  · intro i
    rw [stillOpen_succ_iff hat, hclose]
    simp [hnone i]
  · intro k i hk
    cases hk
  · exact h.closers_push fun i hcloses => hnone i ((closes_iff_stillOpen hat).mp hcloses).1

/-- A `)` closes the parenthesis on top of the stack: it alone is one level below. -/
theorem step_close {top : Nat} {rest : List Nat} (h : Tracks code n p)
    (hat : code.at? n = some e) (hclose : e.2.text = ")") (hopened : p.opened = top :: rest) :
    Tracks code (n + 1)
      ⟨rest, (p.closers.setIfInBounds top (some p.closers.size)).push none⟩ := by
  have hdepth := depth_succ hat
  rw [depthStep_of_close hclose] at hdepth
  have htop : code.StillOpen top n :=
    (h.opened top).mp (by rw [hopened]; exact List.mem_cons_self)
  have hlevel : code.depth top + 1 = code.depth n := by
    simpa using h.levels 0 top (by rw [hopened]; rfl)
  have hbelow : ∀ k i : Nat, rest[k]? = some i → code.depth i + k + 2 = code.depth n := by
    intro k i hk
    have := h.levels (k + 1) i (by rw [hopened]; exact hk)
    omega
  have hcases : ∀ i, code.StillOpen i n → i = top ∨ i ∈ rest := by
    intro i hi
    have hmem := (h.opened i).mpr hi
    rw [hopened] at hmem
    exact List.mem_cons.mp hmem
  have hcloses : ∀ i, code.Closes i n ↔ i = top := by
    intro i
    rw [closes_iff_stillOpen hat]
    constructor
    · rintro ⟨hi, hend⟩
      refine (hcases i hi).resolve_right ?_
      intro hmem
      obtain ⟨k, hk⟩ := List.mem_iff_getElem?.mp hmem
      have := hbelow k i hk
      omega
    · rintro rfl
      exact ⟨htop, by omega⟩
  refine ⟨by rw [Array.size_push, Array.size_setIfInBounds, h.size], ?_, ?_, ?_⟩
  · intro i
    rw [stillOpen_succ_iff hat]
    constructor
    · intro hmem
      obtain ⟨k, hk⟩ := List.mem_iff_getElem?.mp hmem
      have := hbelow k i hk
      refine .inr ⟨(h.opened i).mp ?_, by omega⟩
      rw [hopened]
      exact List.mem_cons_of_mem _ hmem
    · rintro (⟨-, htext⟩ | ⟨hi, hgt⟩)
      · rw [hclose] at htext
        exact absurd htext (by decide)
      · refine (hcases i hi).resolve_left ?_
        rintro rfl
        omega
  · intro k i hk
    have := hbelow k i hk
    omega
  · intro i j
    rw [getElem?_push_none_iff, Array.getElem?_setIfInBounds, h.size]
    by_cases hi : top = i
    · subst hi
      rw [if_pos rfl, if_pos htop.lt]
      constructor
      · intro hj
        obtain rfl : n = j := by simpa using hj
        exact ⟨(hcloses top).mpr rfl, Nat.lt_succ_self n⟩
      · rintro ⟨hj, -⟩
        rw [hj.unique ((hcloses top).mpr rfl)]
    · rw [if_neg hi, h.closers]
      constructor
      · rintro ⟨hj, hlt⟩
        exact ⟨hj, Nat.lt_succ_of_lt hlt⟩
      · rintro ⟨hj, hlt⟩
        refine ⟨hj, Nat.lt_of_le_of_ne (Nat.le_of_lt_succ hlt) ?_⟩
        rintro rfl
        exact hi ((hcloses i).mp hj).symm

/-- **One more token is tracked.** -/
theorem step (h : Tracks code n p) (hat : code.at? n = some e) :
    Tracks code (n + 1) (p.step e.2) := by
  by_cases hopen : e.2.text = "("
  · rw [Pairing.step_open hopen]
    exact h.step_open hat hopen
  by_cases hclose : e.2.text = ")"
  · cases hopened : p.opened with
    | nil =>
        rw [Pairing.step_stray hclose hopened]
        exact h.step_stray hat hclose hopened
    | cons top rest =>
        rw [Pairing.step_close hclose hopened]
        exact h.step_close hat hclose hopened
  · rw [Pairing.step_other hopen hclose]
    exact h.step_other hat hopen hclose

end Tracks
end Pairing

/-! ## The table -/

namespace Code

variable {code : Code} {i j : Nat} {e : TokenId × Token}

/-- **A pass is tracked** in front of every position. -/
theorem tracks_pairing : ∀ n, n ≤ code.size → Pairing.Tracks code n (code.pairing n)
  | 0, _ => Pairing.tracks_zero code
  | n + 1, hn => by
      obtain ⟨e, hat⟩ := exists_at? hn
      rw [pairing_succ hat]
      exact (tracks_pairing n (Nat.le_of_succ_le hn)).step hat

namespace Paired

theorem tracks (h : code.Paired) :
    ∃ p, Pairing.Tracks code code.size p ∧ code.closers = p.closers := by
  refine ⟨code.pairing code.size, tracks_pairing code.size (Nat.le_refl _), ?_⟩
  rw [h, pairing, List.take_of_length_le (by rw [Array.length_toList]; exact Nat.le_refl _)]

/-- Every position has an entry in the table. -/
theorem size_closers (h : code.Paired) : code.closers.size = code.size := by
  obtain ⟨p, hp, hclosers⟩ := h.tracks
  rw [hclosers, hp.size]

/-- **The table has the closer of every parenthesis**, by depth. -/
theorem getElem?_closers_iff (h : code.Paired) :
    code.closers[i]? = some (some j) ↔ code.Closes i j := by
  obtain ⟨p, hp, hclosers⟩ := h.tracks
  rw [hclosers, hp.closers]
  exact ⟨fun hj => hj.1, fun hj => ⟨hj, hj.inside⟩⟩

theorem closer?_eq_some_iff (h : code.Paired) : code.closer? i = some j ↔ code.Closes i j := by
  rw [closer?, Option.join_eq_some_iff, h.getElem?_closers_iff]

/-- The entry of a token that is no opening parenthesis is empty. -/
theorem getElem?_closers_of_ne (h : code.Paired) (hi : i < code.size)
    (hopen : code.is i "(" = false) : code.closers[i]? = some none := by
  obtain ⟨entry, hentry⟩ : ∃ entry, code.closers[i]? = some entry := by
    rw [← h.size_closers] at hi
    exact ⟨_, Array.getElem?_eq_getElem hi⟩
  cases entry with
  | none => exact hentry
  | some j =>
      have hopener := (h.getElem?_closers_iff.mp hentry).opener
      rw [hopen] at hopener
      cases hopener

end Paired
end Code

/-! ## Agreement -/

/-- **The two ways agree on a chain**: the table that the parser makes of the code tokens and the scan of the
    formatter over all tokens. -/
structure Chain.MatchersAgree (ch : Chain) : Prop where
  /-- the table has an entry for each code token -/
  size    : (Code.ofChain ch).closers.size = (Code.ofChain ch).size
  /-- the table has `j` for `i` exactly when the scan from the `i`-th code token comes to the `j`-th -/
  partner : ∀ (i j : Nat) (e f : Linked), (Code.ofChain ch).at? i = some e → e.2.text = "(" →
    (Code.ofChain ch).at? j = some f →
    ((Code.ofChain ch).closers[i]? = some (some j) ↔ ch.closing? e.1 = some f.1)
  /-- where the one finds nothing the other does not either -/
  nothing : ∀ (i : Nat) (e : Linked), (Code.ofChain ch).at? i = some e → e.2.text = "(" →
    ((Code.ofChain ch).closers[i]? = some none ↔ ch.closing? e.1 = none)
  /-- the partner is where the depth first returns to what it was, and a code token -/
  first   : ∀ i j : Nat, (Code.ofChain ch).closers[i]? = some (some j) ↔
    (Code.ofChain ch).Closes i j
  /-- a token that is no opening parenthesis has no partner -/
  other   : ∀ i < (Code.ofChain ch).size, (Code.ofChain ch).is i "(" = false →
    (Code.ofChain ch).closers[i]? = some none

namespace Chain
open Code

variable {ch : Chain} {es : List Linked}

/-- Where the scan comes to, if anywhere, is what the table has. -/
theorem Holds.closing?_eq_closer? (h : Holds ch es) (hes : PlainTrivia es) {i : Nat} {e : Linked}
    (hat : (Code.ofChain ch).at? i = some e) (hopen : e.2.text = "(") :
    ch.closing? e.1 =
      ((Code.ofChain ch).closer? i).bind fun j => ((Code.ofChain ch).at? j).map (·.1) := by
  ext id
  rw [h.closing?_eq_some_iff hes hat hopen, Option.bind_eq_some_iff]
  simp only [(paired_ofChain ch).closer?_eq_some_iff, Option.map_eq_some_iff]
  constructor
  · rintro ⟨j, f, hf, hid, hcloses⟩
    exact ⟨j, hcloses, f, hf, hid⟩
  · rintro ⟨j, hcloses, f, hf, hid⟩
    exact ⟨j, f, hf, hid, hcloses⟩

theorem Holds.matchersAgree (h : Holds ch es) (hes : PlainTrivia es) : ch.MatchersAgree := by
  have hpaired := paired_ofChain ch
  refine ⟨hpaired.size_closers, ?_, ?_, fun i j => hpaired.getElem?_closers_iff,
    fun i hi hopen => hpaired.getElem?_closers_of_ne hi hopen⟩
  · intro i j e f hi hopen hj
    rw [hpaired.getElem?_closers_iff, h.closing?_eq_some_iff hes hi hopen]
    constructor
    · intro hcloses
      exact ⟨j, f, hj, rfl, hcloses⟩
    · rintro ⟨m, g, hm, hid, hcloses⟩
      rwa [← (h.at?_inj hm hj).mp hid]
  · intro i e hi hopen
    rw [h.closing?_eq_closer? hes hi hopen, Option.bind_eq_none_iff]
    have hentry : (ofChain ch).closers[i]? = some ((ofChain ch).closer? i) := by
      have hlt := lt_size_of_at? hi
      rw [← hpaired.size_closers] at hlt
      rw [closer?, Array.getElem?_eq_getElem hlt]
      rfl
    rw [hentry, Option.some_inj]
    constructor
    · intro hnone j hj
      rw [hnone] at hj
      cases hj
    · intro hall
      rw [Option.eq_none_iff_forall_ne_some]
      intro j hj
      obtain ⟨f, hf⟩ := exists_at? (hpaired.closer?_eq_some_iff.mp hj).inside
      have hnone := hall j hj
      rw [hf] at hnone
      cases hnone

/-- **The two ways to match parentheses agree** on every list of tokens, however it came about and however
    its parentheses are balanced, if only its code tokens have the text of one. The tokens of every text are
    such a list. -/
theorem matchersAgree_of_plainTrivia :
    (∀ (ops : List Operation) (ch : Chain), empty.run? ops = some ch → PlainTrivia ch.entries →
      ch.MatchersAgree) ∧
    ∀ (s : String) (ts : List Token), Token.scan s = .ok ts →
      PlainTrivia (ofList ts).entries := by
  constructor
  · intro ops ch hrun hplain
    exact (holds_of_run? hrun).matchersAgree hplain
  · intro s ts hscan
    rw [(holds_ofList ts).entries_eq]
    apply plainTrivia_of_cut
    rw [Token.map_snd_numbered]
    exact (Token.scan_eq_ok_iff.mp hscan).1

/-- A stray `)`, a `(` that is never closed, and a comment with a parenthesis in it. -/
theorem matchersAgree_unbalanced :
    ∃ ch, empty.run? [.collect [.punctuator ")", .punctuator "(", ⟨.blockComment, "/*(*/"⟩,
        .punctuator "(", ⟨.identifier, "x"⟩, .punctuator ")"]] = some ch ∧
      PlainTrivia ch.entries ∧ ch.MatchersAgree ∧
      (Code.ofChain ch).closers = #[none, none, some 4, none, none] := by
  refine ⟨_, rfl, ?plain, ?agree, ?table⟩
  case plain =>
    unfold PlainTrivia
    decide
  case agree =>
    refine matchersAgree_of_plainTrivia.1 [.collect _] _ rfl ?_
    unfold PlainTrivia
    decide
  case table => decide

end Chain
end ScriptSpacing
