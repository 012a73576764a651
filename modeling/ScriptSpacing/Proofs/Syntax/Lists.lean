import ScriptSpacing.Proofs.Syntax.Climb

/-!
# `Proofs.Syntax.Lists` — lists with commas are built item by item

The loops over the items of a list, the elements of an array and the expressions of a sequence build one node
for each text between the commas, in order, and stop where the list ends. What they need of an item is
`ReadsEach`: that it does not begin like the end of the list, and that it is built wherever the token behind
it ends an assignment. A loop has as many rounds as tokens are left, so it never runs out of them.
-/

namespace ScriptSpacing
namespace Grammar
open ScriptSpacing.Parser

/-- **What a loop needs of its items**: the texts `text x` are built with the shapes `out x` by `item`. -/
structure ReadsEach {α : Type} (code : Code) (item : Parser NodeId) (text : α → List Token)
    (out : α → Outline) (close : String) (m : Nat) : Prop where
  first  : ∀ {x : α} {p q : Nat}, code.Stands (text x) p q →
    code.is p close = false ∧ code.is p "," = false
  builds : ∀ {x : α} {p q : Nat}, code.size ≤ p + m → code.Stands (text x) p q → 4 < code.rank q →
    Builds code item p q (out x)

variable {α : Type} {code : Code} {again : Grammar} {item : Parser NodeId} {text : α → List Token}
  {out : α → Outline} {close opener : String} {ar : Arena} {acc : List NodeId} {outs : List Outline}
  {m n p q : Nat}

/-- The first text of a list with commas, and what is behind it: the end of the list, or a comma and the
    other texts. Either way an assignment ends there. -/
theorem stands_commas_cons {ts : List Token} {tss : List (List Token)}
    (h : code.Stands (commas (ts :: tss)) p q) (hrank : 4 < code.rank q) :
    ∃ r, code.Stands ts p r ∧ 4 < code.rank r ∧ ((tss = [] ∧ r = q) ∨
      (tss ≠ [] ∧ code.is r "," = true ∧ code.Stands (commas tss) (r + 1) q)) := by
  cases tss with
  | nil => exact ⟨q, h, hrank, .inl ⟨rfl, rfl⟩⟩
  | cons us tss =>
      obtain ⟨r, hts, hpunct, hrest⟩ := Code.stands_append.mp h
      have hcomma : code.is r "," = true := Code.is_of_punctuator hpunct
      refine ⟨r, hts, ?_, .inr ⟨List.cons_ne_nil _ _, hcomma, hrest⟩⟩
      rw [Code.rank_of_is (n := 5) hcomma (by decide)]
      decide

/-- One more node behind those read so far, which are kept last one first. -/
theorem Depicts.cons_reverse {ar' : Arena} {id : NodeId} {o : Outline}
    (hacc : Depicts ar code acc.reverse outs) (hext : ar'.Extends ar) (hid : Depicts ar' code [id] [o]) :
    Depicts ar' code (id :: acc).reverse (outs ++ [o]) := by
  rw [List.reverse_cons]
  exact (hacc.mono hext).append hid

/-- A round is left while a token is. -/
theorem exists_round (hsize : code.size ≤ p + n) (hp : p < code.size) : ∃ k, n = k + 1 :=
  ⟨n - 1, by omega⟩

/-! ## Items up to a closer -/

theorem rank_of_close (hclose : close ∈ [")", "]", "\x7d"]) (h : code.is q close = true) :
    code.rank q = 6 := by
  simp only [List.mem_cons, List.not_mem_nil, or_false] at hclose
  rcases hclose with rfl | rfl | rfl <;> exact Code.rank_of_is h (by decide)

/-- **The items of a list** up to its closer. -/
theorem makes_itemsUntil (hitem : ReadsEach code item text out close m)
    (hclose : close ∈ [")", "]", "\x7d"]) (hq : code.is q close = true) :
    ∀ (xs : List α) {n p : Nat} {acc : List NodeId} {outs : List Outline} {ar : Arena},
      code.Stands (commas (xs.map text)) p q → code.size ≤ p + n → code.size ≤ p + m →
      Depicts ar code acc.reverse outs →
      Makes code (itemsUntil close item acc n) p ar q
        fun ar' ids => Depicts ar' code ids.reverse (outs ++ xs.map out) := by
  have hrank := rank_of_close hclose hq
  intro xs
  induction xs with
  | nil =>
      intro n p acc outs ar hstands hsize _ hacc
      obtain rfl : p = q := hstands
      obtain ⟨n, rfl⟩ := exists_round hsize (Code.lt_size_of_is hq)
      rw [List.map_nil, List.append_nil]
      exact .check hq (.pure hacc)
  | cons x xs ih =>
      intro n p acc outs ar hstands hsize hfuel hacc
      have hle := hstands.add_length
      obtain ⟨n, rfl⟩ : ∃ k, n = k + 1 :=
        exists_round hsize (Nat.lt_of_le_of_lt (by omega) (Code.lt_size_of_is hq))
      obtain ⟨r, hx, hnext, hrest⟩ := stands_commas_cons hstands (by omega)
      have hxle := hx.add_length
      obtain ⟨hfirst, -⟩ := hitem.first hx
      refine .check hfirst (.bind (hitem.builds hfuel hx hnext ar) ?_)
      intro id ar' hext hid
      have hacc' := hacc.cons_reverse hext hid
      rcases hrest with ⟨hnil, rfl⟩ | ⟨-, hcomma, hrest⟩
      · obtain rfl := List.map_eq_nil_iff.mp hnil
        exact .eat_false (Code.no_sequence (by omega)) (.pure hacc')
      · have hgo := ih hrest (n := n) (by omega) (by omega) hacc'
        rw [List.append_assoc] at hgo
        exact .eat_true hcomma hgo

/-- **A list between its delimiters.** -/
theorem builds_delimited (hitem : ReadsEach code item text out close m)
    (hclose : close ∈ [")", "]", "\x7d"]) {xs : List α} (hsize : code.size ≤ p + 1 + m)
    (hstands : code.Stands (.punctuator opener :: (commas (xs.map text) ++ [.punctuator close])) p q) :
    BuildsAll code (delimited opener close item) p q (xs.map out) := by
  intro ar
  obtain ⟨⟨⟨i, t⟩, hat, htext⟩, hstands⟩ := hstands
  obtain ⟨r, hitems, ⟨⟨j, t'⟩, hend, htext'⟩, hq⟩ := Code.stands_append.mp hstands
  obtain rfl : r + 1 = q := hq
  obtain rfl : t = .punctuator opener := htext
  obtain rfl : t' = .punctuator close := htext'
  have his : code.is r close = true := Code.is_eq_true_of_at? hend rfl
  refine .expect hat rfl (.left ?_)
  refine .bind (makes_itemsUntil hitem hclose his xs hitems (by omega) (by omega) .nil) ?_
  intro ids ar' _ hids
  exact .expect hend rfl (.pure hids)

/-! ## Elements of an array -/

/-- The elements of an array without holes. -/
theorem makes_elementsUntil (hitem : ReadsEach code (again .assignment) text out "]" m)
    (hq : code.is q "]" = true) :
    ∀ (xs : List α) {n p : Nat} {acc : List NodeId} {outs : List Outline} {ar : Arena},
      code.Stands (commas (xs.map text)) p q → code.size ≤ p + n → code.size ≤ p + m →
      Depicts ar code acc.reverse outs →
      Makes code (elementsUntil again acc n) p ar q
        fun ar' ids => Depicts ar' code ids.reverse (outs ++ xs.map out) := by
  have hrank : code.rank q = 6 := Code.rank_of_is hq (by decide)
  intro xs
  induction xs with
  | nil =>
      intro n p acc outs ar hstands hsize _ hacc
      obtain rfl : p = q := hstands
      obtain ⟨n, rfl⟩ := exists_round hsize (Code.lt_size_of_is hq)
      rw [List.map_nil, List.append_nil]
      exact .check hq (.pure hacc)
  | cons x xs ih =>
      intro n p acc outs ar hstands hsize hfuel hacc
      have hle := hstands.add_length
      obtain ⟨n, rfl⟩ : ∃ k, n = k + 1 :=
        exists_round hsize (Nat.lt_of_le_of_lt (by omega) (Code.lt_size_of_is hq))
      obtain ⟨r, hx, hnext, hrest⟩ := stands_commas_cons hstands (by omega)
      have hxle := hx.add_length
      obtain ⟨hfirst, hhole⟩ := hitem.first hx
      refine .check hfirst (.eat_false hhole (.bind (hitem.builds hfuel hx hnext ar) ?_))
      intro id ar' hext hid
      have hacc' := hacc.cons_reverse hext hid
      rcases hrest with ⟨hnil, rfl⟩ | ⟨-, hcomma, hrest⟩
      · obtain rfl := List.map_eq_nil_iff.mp hnil
        exact .eat_false (Code.no_sequence (by omega)) (.pure hacc')
      · have hgo := ih hrest (n := n) (by omega) (by omega) hacc'
        rw [List.append_assoc] at hgo
        exact .eat_true hcomma hgo

/-! ## Expressions of a sequence -/

/-- The further expressions of a sequence, behind a comma each. -/
theorem makes_sequenceTail (hitem : ReadsEach code (again .assignment) text out close m)
    (hrank : 5 < code.rank q) :
    ∀ (xs : List α) {n p : Nat} {acc : List NodeId} {outs : List Outline} {ar : Arena}, xs ≠ [] →
      code.is p "," = true → code.Stands (commas (xs.map text)) (p + 1) q → code.size ≤ p + n →
      code.size ≤ p + 1 + m → Depicts ar code acc.reverse outs →
      Makes code (sequenceTail again acc n) p ar q
        fun ar' ids => Depicts ar' code ids.reverse (outs ++ xs.map out) := by
  intro xs
  induction xs with
  | nil =>
      intro n p acc outs ar hne
      exact absurd rfl hne
  | cons x xs ih =>
      intro n p acc outs ar _ hcomma hstands hsize hfuel hacc
      obtain ⟨n, rfl⟩ := exists_round hsize (Code.lt_size_of_is hcomma)
      obtain ⟨r, hx, hnext, hrest⟩ := stands_commas_cons hstands (by omega)
      have hxle := hx.add_length
      refine .eat_true hcomma (.bind (hitem.builds hfuel hx hnext ar) ?_)
      intro id ar' hext hid
      have hacc' := hacc.cons_reverse hext hid
      rcases hrest with ⟨hnil, rfl⟩ | ⟨hne, hcomma', hrest⟩
      · obtain rfl := List.map_eq_nil_iff.mp hnil
        cases n with
        | zero => exact .pure hacc'
        | succ n => exact .eat_false (Code.no_sequence hrank) (.pure hacc')
      · have hxs : xs ≠ [] := by
          rintro rfl
          exact hne rfl
        have hgo := ih hxs hcomma' hrest (n := n) (by omega) (by omega) hacc'
        rwa [List.append_assoc] at hgo

/-- **A sequence of two expressions or more.** -/
theorem builds_sequence {i : TokenId} {t : Token} {o : Outline} {r : Nat} {xs : List α}
    (hitem : ReadsEach code (again .assignment) text out close m) (hat : code.at? p = some (i, t))
    (h : Builds code (assignment again) p r o) (hcomma : code.is r "," = true) (hne : xs ≠ [])
    (hstands : code.Stands (commas (xs.map text)) (r + 1) q) (hsize : code.size ≤ r + 1 + m)
    (hlt : p < q) (hrank : 5 < code.rank q) :
    Builds code (expression again) p q (.branch .sequenceExpression (o :: xs.map out)) := by
  intro ar
  refine .peek hat (.bind (h ar) ?_)
  intro head ar₁ _ hhead
  refine .check hcomma (.left ?_)
  have hsize' : code.size ≤ r + (code.size - r) := by omega
  refine .bind (makes_sequenceTail hitem hrank xs hne hcomma hstands hsize' hsize hhead) ?_
  intro ids ar₂ _ hids
  exact makes_finish hat hlt hids (by decide)

end Grammar
end ScriptSpacing
