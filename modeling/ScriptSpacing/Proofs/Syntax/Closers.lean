import ScriptSpacing.Proofs.Syntax.Rendering

/-!
# `Proofs.Syntax.Closers` — where a parenthesis is closed

One pass over the tokens finds the closer of every `(`. Tokens whose parentheses match keep what was open
before them (`Pairing.kept_foldl`), and an entry that is no longer open stays as it is (`Pairing.Settled`). So
the closer of a `(` in front of matched tokens is the `)` behind them (`Code.closer?_of_stands`), wherever in
the code they stand. The tokens of every expression match (`Expr.matched_inner`).
-/

namespace ScriptSpacing

/-! ## Tokens whose parentheses match -/

/-- **The parentheses among the tokens match.** -/
inductive Token.Matched : List Token → Prop where
  | nil : Matched []
  | other {t : Token} {ts : List Token} : t.text ≠ "(" → t.text ≠ ")" → Matched ts → Matched (t :: ts)
  | append {ts us : List Token} : Matched ts → Matched us → Matched (ts ++ us)
  | grouped {ts : List Token} : Matched ts → Matched (Grammar.grouped ts)

namespace Pairing

variable {p : Pairing} {t : Token} {ts : List Token} {i : Nat}

theorem step_open (h : t.text = "(") :
    p.step t = ⟨p.closers.size :: p.opened, p.closers.push none⟩ := by
  rw [step, Token.is, h]
  rfl

theorem step_close {rest : List Nat} (h : t.text = ")") (hopened : p.opened = i :: rest) :
    p.step t = ⟨rest, (p.closers.setIfInBounds i (some p.closers.size)).push none⟩ := by
  simp [step, Token.is, h, hopened]

theorem step_stray (h : t.text = ")") (hopened : p.opened = []) :
    p.step t = ⟨[], p.closers.push none⟩ := by
  simp [step, Token.is, h, hopened]

theorem step_other (hopen : t.text ≠ "(") (hclose : t.text ≠ ")") :
    p.step t = ⟨p.opened, p.closers.push none⟩ := by
  simp [step, Token.is, hopen, hclose]

/-- An empty entry at the end adds no closer to the table. -/
theorem getElem?_push_none_iff {closers : Array (Option Nat)} {j : Nat} :
    (closers.push none)[i]? = some (some j) ↔ closers[i]? = some (some j) := by
  rw [Array.getElem?_push]
  split
  · next hi =>
      rw [hi, Array.getElem?_eq_none (Nat.le_refl _)]
      simp
  · exact Iff.rfl

/-! ## One pass over a group -/

/-- What matched tokens leave: the parentheses that were open, and the entries that were there. -/
structure Kept (p p' : Pairing) : Prop where
  opened  : p'.opened = p.opened
  closers : ∀ i, i < p.closers.size → p'.closers[i]? = p.closers[i]?

theorem Kept.refl (p : Pairing) : Kept p p := ⟨rfl, fun _ _ => rfl⟩

theorem Kept.trans {p' p'' : Pairing} (h : Kept p p') (h' : Kept p' p'')
    (hsize : p.closers.size ≤ p'.closers.size) : Kept p p'' where
  opened := h'.opened.trans h.opened
  closers := by
    intro i hi
    rw [h'.closers i (Nat.lt_of_lt_of_le hi hsize), h.closers i hi]

/-- A group closes its own parenthesis, and keeps what was there if its tokens do. -/
theorem foldl_grouped (hts : ∀ p : Pairing, Kept p (ts.foldl step p)) (p : Pairing) :
    Kept p ((Grammar.grouped ts).foldl step p) ∧
      ((Grammar.grouped ts).foldl step p).closers[p.closers.size]? =
        some (some (p.closers.size + ts.length + 1)) := by
  obtain ⟨p₁, hp₁⟩ : ∃ p₁, p₁ = p.step (.punctuator "(") := ⟨_, rfl⟩
  obtain ⟨p₂, hp₂⟩ : ∃ p₂, p₂ = ts.foldl step p₁ := ⟨_, rfl⟩
  have hfold : (Grammar.grouped ts).foldl step p = p₂.step (.punctuator ")") := by
    rw [Grammar.grouped, List.cons_append, List.foldl_cons, List.foldl_append, ← hp₁, ← hp₂]
    rfl
  have hkept : Kept p₁ p₂ := hp₂ ▸ hts p₁
  rw [step_open rfl] at hp₁
  have hopened : p₂.opened = p.closers.size :: p.opened := by
    rw [hkept.opened, hp₁]
  have hsize₁ : p₁.closers.size = p.closers.size + 1 := by
    rw [hp₁]
    exact Array.size_push _
  have hsize₂ : p₂.closers.size = p.closers.size + ts.length + 1 := by
    rw [hp₂, size_closers_foldl, hsize₁]
    omega
  rw [hfold, step_close rfl hopened]
  refine ⟨⟨rfl, ?_⟩, ?_⟩
  · intro i hi
    show ((p₂.closers.setIfInBounds _ _).push none)[i]? = _
    rw [Array.getElem?_push, if_neg (by rw [Array.size_setIfInBounds]; omega),
      Array.getElem?_setIfInBounds, if_neg (by omega), hkept.closers i (by omega), hp₁]
    show (p.closers.push none)[i]? = _
    rw [Array.getElem?_push, if_neg (by omega)]
  · show ((p₂.closers.setIfInBounds _ _).push none)[_]? = _
    rw [Array.getElem?_push, if_neg (by rw [Array.size_setIfInBounds]; omega),
      Array.getElem?_setIfInBounds, if_pos rfl, if_pos (by omega), hsize₂]

/-- **Matched tokens keep what was there.** -/
theorem kept_foldl (h : Token.Matched ts) : ∀ p : Pairing, Kept p (ts.foldl step p) := by
  induction h with
  | nil => exact Kept.refl
  | @other t ts hopen hclose _ ih =>
      intro p
      have hstep : Kept p (p.step t) := by
        rw [step_other hopen hclose]
        refine ⟨rfl, ?_⟩
        intro i hi
        show (p.closers.push none)[i]? = _
        rw [Array.getElem?_push, if_neg (by omega)]
      exact hstep.trans (ih _) (by rw [size_closers_step]; omega)
  | append _ _ iht ihu =>
      intro p
      rw [List.foldl_append]
      exact (iht p).trans (ihu _) (by rw [size_closers_foldl]; omega)
  | grouped _ ih => exact fun p => (foldl_grouped ih p).1

/-! ## Entries that stay -/

/-- The entry at `i` is there and will not change: nothing is open at `i`. -/
structure Settled (p : Pairing) (i : Nat) : Prop where
  lt : i < p.closers.size
  closed : i ∉ p.opened

theorem Settled.step (h : p.Settled i) (t : Token) :
    (p.step t).Settled i ∧ (p.step t).closers[i]? = p.closers[i]? := by
  have hlt := h.lt
  have hpush : (p.closers.push none)[i]? = p.closers[i]? := by
    rw [Array.getElem?_push, if_neg (by omega)]
  by_cases hopen : t.text = "("
  · rw [step_open hopen]
    refine ⟨⟨by rw [Array.size_push]; omega, ?_⟩, hpush⟩
    intro hmem
    rcases List.mem_cons.mp hmem with rfl | hmem
    · omega
    · exact h.closed hmem
  by_cases hclose : t.text = ")"
  · cases hopened : p.opened with
    | nil =>
        rw [step_stray hclose hopened]
        exact ⟨⟨by rw [Array.size_push]; omega, List.not_mem_nil⟩, hpush⟩
    | cons j rest =>
        have hclosed := h.closed
        rw [hopened, List.mem_cons, not_or] at hclosed
        rw [step_close hclose hopened]
        refine ⟨⟨by rw [Array.size_push, Array.size_setIfInBounds]; omega, hclosed.2⟩, ?_⟩
        show ((p.closers.setIfInBounds _ _).push none)[i]? = _
        rw [Array.getElem?_push, if_neg (by rw [Array.size_setIfInBounds]; omega),
          Array.getElem?_setIfInBounds, if_neg (Ne.symm hclosed.1)]
  · rw [step_other hopen hclose]
    exact ⟨⟨by rw [Array.size_push]; omega, h.closed⟩, hpush⟩

/-- **A settled entry stays**, whatever comes behind it. -/
theorem Settled.foldl (h : p.Settled i) (ts : List Token) :
    (ts.foldl Pairing.step p).closers[i]? = p.closers[i]? := by
  induction ts generalizing p with
  | nil => rfl
  | cons t ts ih =>
      obtain ⟨hsettled, hsame⟩ := h.step t
      rw [List.foldl_cons, ih hsettled, hsame]

/-- Only positions that were passed are open. -/
theorem lt_size_of_mem_opened (hp : ∀ i ∈ p.opened, i < p.closers.size) (ts : List Token) :
    ∀ i ∈ (ts.foldl step p).opened, i < (ts.foldl step p).closers.size := by
  induction ts generalizing p with
  | nil => exact hp
  | cons t ts ih =>
      rw [List.foldl_cons]
      apply ih
      intro i hi
      rw [size_closers_step]
      by_cases hopen : t.text = "("
      · rw [step_open hopen] at hi
        rcases List.mem_cons.mp hi with rfl | hi
        · omega
        · exact Nat.lt_succ_of_lt (hp i hi)
      · unfold step at hi
        rw [if_neg (by simpa using hopen)] at hi
        split at hi
        · split at hi
          · next hopened =>
              refine Nat.lt_succ_of_lt (hp i ?_)
              rw [hopened]
              exact List.mem_cons_of_mem _ hi
          · cases hi
        · exact Nat.lt_succ_of_lt (hp i hi)

end Pairing

/-! ## Tokens in a row -/

/-- **The tokens `ts` stand in the code** from the position `p` up to `q`. -/
def Code.Stands (code : Code) : List Token → Nat → Nat → Prop
  | [], p, q => p = q
  | t :: ts, p, q => (∃ e, code.at? p = some e ∧ e.2 = t) ∧ Code.Stands code ts (p + 1) q

/-- The closers of a code are those that a pass over its tokens finds. -/
def Code.Paired (code : Code) : Prop :=
  code.closers = (Pairing.ofTokens (code.tokens.toList.map (·.2))).closers

theorem Code.paired_ofChain (ch : Chain) : (Code.ofChain ch).Paired := rfl

namespace Code

variable {code : Code} {ts us : List Token} {t : Token} {p q r : Nat}

@[simp] theorem stands_nil : code.Stands [] p q ↔ p = q := Iff.rfl

@[simp] theorem stands_cons : code.Stands (t :: ts) p q ↔
    (∃ e, code.at? p = some e ∧ e.2 = t) ∧ code.Stands ts (p + 1) q := Iff.rfl

@[simp] theorem stands_append :
    code.Stands (ts ++ us) p q ↔ ∃ r, code.Stands ts p r ∧ code.Stands us r q := by
  induction ts generalizing p with
  | nil => simp
  | cons t ts ih =>
      rw [List.cons_append, stands_cons, ih]
      constructor
      · rintro ⟨ht, r, hts, hus⟩
        exact ⟨r, ⟨ht, hts⟩, hus⟩
      · rintro ⟨r, ⟨ht, hts⟩, hus⟩
        exact ⟨ht, r, hts, hus⟩

theorem Stands.add_length (h : code.Stands ts p q) : p + ts.length = q := by
  induction ts generalizing p with
  | nil => exact h
  | cons t ts ih =>
      have hq := ih h.2
      rw [List.length_cons]
      omega

/-- All tokens of a code stand in it. -/
theorem stands_self (code : Code) :
    code.Stands (code.tokens.toList.map (·.2)) 0 code.size := by
  have hdrop : ∀ n p, code.size = p + n →
      code.Stands ((code.tokens.toList.drop p).map (·.2)) p code.size := by
    intro n
    induction n with
    | zero =>
        intro p hp
        rw [List.drop_eq_nil_of_le (by rw [Array.length_toList]; exact Nat.le_of_eq hp)]
        exact hp.symm
    | succ n ih =>
        intro p hp
        have hlt : p < code.tokens.toList.length := by
          rw [Array.length_toList]
          exact Nat.lt_of_lt_of_eq (Nat.lt_add_of_pos_right n.succ_pos) hp.symm
        rw [List.drop_eq_getElem_cons hlt]
        exact ⟨⟨_, by simp [at?], rfl⟩, ih (p + 1) (by omega)⟩
  exact hdrop code.size 0 (Nat.zero_add _).symm

/-- What a pass knows in front of the position `p`. -/
def pairing (code : Code) (p : Nat) : Pairing :=
  Pairing.ofTokens ((code.tokens.toList.take p).map (·.2))

theorem size_closers_pairing (hp : p ≤ code.size) : (code.pairing p).closers.size = p := by
  rw [pairing, Pairing.size_closers_ofTokens, List.length_map, List.length_take, Array.length_toList]
  exact Nat.min_eq_left hp

theorem pairing_succ {e : TokenId × Token} (h : code.at? p = some e) :
    code.pairing (p + 1) = (code.pairing p).step e.2 := by
  have hget : code.tokens.toList[p]? = some e := by simpa [at?] using h
  rw [pairing, List.take_add_one, hget, List.map_append, Pairing.ofTokens, List.foldl_append]
  rfl

/-- A pass over tokens that stand in the code. -/
theorem Stands.pairing (h : code.Stands ts p q) :
    code.pairing q = ts.foldl Pairing.step (code.pairing p) := by
  induction ts generalizing p with
  | nil =>
      obtain rfl : p = q := h
      rfl
  | cons t ts ih =>
      obtain ⟨⟨e, he, rfl⟩, hts⟩ := h
      rw [ih hts, pairing_succ he, List.foldl_cons]

/-- **The closer of a parenthesis in front of matched tokens is the one behind them.** -/
theorem closer?_of_stands (hpaired : code.Paired) (h : code.Stands (Grammar.grouped ts) p q)
    (hts : Token.Matched ts) : code.closer? p = some (q - 1) := by
  obtain ⟨e, he, -⟩ := h.1
  have hp := lt_size_of_at? he
  have hsize : (code.pairing p).closers.size = p := size_closers_pairing (Nat.le_of_lt hp)
  have hlen : p + (ts.length + 2) = q := by
    have hlen := h.add_length
    simpa [Grammar.grouped] using hlen
  obtain ⟨hkept, hentry⟩ := Pairing.foldl_grouped (Pairing.kept_foldl hts) (code.pairing p)
  rw [← h.pairing, hsize] at hentry
  rw [← h.pairing] at hkept
  have hsettled : (code.pairing q).Settled p := by
    refine ⟨(Array.getElem?_eq_some_iff.mp hentry).1, ?_⟩
    intro hmem
    rw [hkept.opened] at hmem
    have hlt := Pairing.lt_size_of_mem_opened (by simp) _ p hmem
    rw [← Pairing.ofTokens, ← Code.pairing, hsize] at hlt
    exact Nat.lt_irrefl p hlt
  -- the rest of the pass leaves the entry
  have hrest : (Pairing.ofTokens (code.tokens.toList.map (·.2))).closers[p]? =
      (code.pairing q).closers[p]? := by
    rw [← List.take_append_drop q code.tokens.toList, List.map_append, Pairing.ofTokens,
      List.foldl_append]
    exact hsettled.foldl _
  rw [closer?, hpaired, hrest, hentry]
  show some _ = some _
  congr 1
  omega

/-- **Whether an arrow function begins at a parenthesis** is decided by the token behind the closer. -/
theorem beginsArrow_of_stands (hpaired : code.Paired) (h : code.Stands (Grammar.grouped ts) p q)
    (hts : Token.Matched ts) : code.beginsArrow p = code.is q "=>" := by
  obtain ⟨⟨i, t⟩, hat, htext⟩ := h.1
  obtain rfl : t = .punctuator "(" := htext
  have hlt : p + (ts.length + 2) = q := by
    have hlen := h.add_length
    simpa [Grammar.grouped] using hlen
  rw [beginsArrow, hat]
  show (true && (code.closer? p).any fun close => code.is (close + 1) "=>") = _
  rw [closer?_of_stands hpaired h hts, Bool.true_and]
  show code.is (q - 1 + 1) "=>" = _
  rw [Nat.sub_add_cancel (by omega)]

/-- No arrow function begins at another token, unless it is a name. -/
theorem beginsArrow_eq_false {i : TokenId} (hat : code.at? p = some (i, t))
    (hname : t.kind ≠ .identifier) (hopen : t.text ≠ "(") : code.beginsArrow p = false := by
  simp [beginsArrow, hat, hname, Token.is, hopen]

end Code

/-! ## The parentheses of an expression -/

namespace Grammar
open Token (Matched)

theorem matched_word {t : Terminal} {ts : List Token} (ht : t.isParenthesis = false) (word : Word t)
    (hts : Matched ts) : Matched (word.1 :: ts) :=
  .other (word.text_ne (.inl rfl) ht) (word.text_ne (.inr rfl) ht) hts

theorem matched_punctuator {s : String} {ts : List Token}
    (hs : (Terminal.text s).isParenthesis = false) (hts : Matched ts) :
    Matched (.punctuator s :: ts) := by
  rw [Terminal.isParenthesis, Bool.or_eq_false_iff] at hs
  exact .other (ne_of_beq_false hs.1) (ne_of_beq_false hs.2) hts

theorem matched_commas {tss : List (List Token)} (h : ∀ ts ∈ tss, Matched ts) :
    Matched (commas tss) := by
  fun_induction commas tss with
  | case1 => exact .nil
  | case2 ts => exact h ts List.mem_cons_self
  | case3 ts us tss ih =>
      refine .append (h ts List.mem_cons_self) (matched_punctuator rfl (ih ?_))
      intro vs hvs
      exact h vs (List.mem_cons_of_mem _ hvs)

mutual

/-- **The parentheses of an expression match.** -/
theorem Expr.matched_inner : ∀ e : Expr, Matched e.inner
  | .name word => matched_word rfl word .nil
  | .literal word => matched_word rfl word .nil
  | .this word => matched_word rfl word .nil
  | .unary op e => matched_word rfl op (.grouped e.matched_inner)
  | .prefixUpdate op e => matched_word rfl op (.grouped e.matched_inner)
  | .postfixUpdate e op =>
      .append (.grouped e.matched_inner) (matched_word rfl op .nil)
  | .binary left op right =>
      .append (.grouped left.matched_inner) (matched_word rfl op (.grouped right.matched_inner))
  | .assignment target op value =>
      .append (.grouped target.matched_inner) (matched_word rfl op (.grouped value.matched_inner))
  | .conditional test consequent alternate =>
      .append (.grouped test.matched_inner) <| matched_punctuator rfl <|
        .append (.grouped consequent.matched_inner) <| matched_punctuator rfl <|
          .grouped alternate.matched_inner
  | .sequence head next rest => by
      apply matched_commas
      intro ts hts
      rcases List.mem_cons.mp hts with rfl | hts
      · exact .grouped head.matched_inner
      rcases List.mem_cons.mp hts with rfl | hts
      · exact .grouped next.matched_inner
      · exact matched_renders rest ts hts
  | .call callee arguments =>
      .append (.grouped callee.matched_inner) (.grouped (matched_commas (matched_renders arguments)))
  | .construction callee arguments =>
      .other (by decide) (by decide) <| .append (.grouped callee.matched_inner) <|
        .grouped (matched_commas (matched_renders arguments))
  | .bareConstruction callee => .other (by decide) (by decide) (.grouped callee.matched_inner)
  | .namedMember object word =>
      .append (.grouped object.matched_inner) (matched_punctuator rfl (matched_word rfl word .nil))
  | .computedMember object name =>
      .append (.grouped object.matched_inner) <| matched_punctuator rfl <|
        .append (.grouped name.matched_inner) <| matched_punctuator rfl .nil
  | .array elements =>
      matched_punctuator rfl <|
        .append (matched_commas (matched_renders elements)) (matched_punctuator rfl .nil)
  | .object members =>
      matched_punctuator rfl <|
        .append (matched_commas (matched_memberRenders members)) (matched_punctuator rfl .nil)
  | .arrow parameters body =>
      .append (.grouped (matched_commas (matched_renders parameters))) <|
        matched_punctuator rfl (.grouped body.matched_inner)

theorem matched_renders : ∀ es : List Expr, ∀ ts ∈ renders es, Matched ts
  | [] => by
      intro ts hts
      cases hts
  | e :: es => by
      intro ts hts
      rcases List.mem_cons.mp hts with rfl | hts
      · exact .grouped e.matched_inner
      · exact matched_renders es ts hts

theorem Member.matched_render : ∀ m : Member, Matched m.render
  | .named key value =>
      matched_word rfl key (matched_punctuator rfl (.grouped value.matched_inner))
  | .literal key value =>
      matched_word rfl key (matched_punctuator rfl (.grouped value.matched_inner))
  | .computed key value =>
      matched_punctuator rfl <| .append (.grouped key.matched_inner) <|
        matched_punctuator rfl (matched_punctuator rfl (.grouped value.matched_inner))

theorem matched_memberRenders : ∀ ms : List Member, ∀ ts ∈ memberRenders ms, Matched ts
  | [] => by
      intro ts hts
      cases hts
  | m :: ms => by
      intro ts hts
      rcases List.mem_cons.mp hts with rfl | hts
      · exact m.matched_render
      · exact matched_memberRenders ms ts hts

end

end Grammar
end ScriptSpacing
