import ScriptSpacing.Syntax.Descent.Cursor

/-!
# `Proofs.Syntax.Descent.Follows` — a descent that ends where a parser ends

`Follows input code low st d p` puts a descent beside a parser: from the state `st` the descent `d` ends,
without a panic, and with what `p` says, be it a result or an error. Its position has not gone back, is not
behind the last token, is at `low` at least if there is a result, and is the place that an error is about
(`ParseError.Marks`).

Each primitive has a lemma for what comes after it, so that a production is compared step by step along its
text. A lemma for a primitive that moves says where it moves to; `low` stays the same on the way, and is
reached where the production ends.
-/

namespace ScriptSpacing

/-- **An error is about a position**: it names the code token there, or there is none. -/
def ParseError.Marks (code : Code) (pos : Nat) : ParseError → Prop
  | .unexpectedToken id found _ => ∃ t, code.at? pos = some (id, t) ∧ t.text = found
  | .unexpectedEnd _            => code.size ≤ pos

namespace Parser

theorem bind_assoc {α β γ : Type} (p : Parser α) (f : α → Parser β) (g : β → Parser γ) :
    (p >>= f) >>= g = p >>= fun a => f a >>= g := by
  funext code st
  simp only [bind_apply]
  cases p code st <;> rfl

theorem expect_of_is {code : Code} {st : ParseState} {e : TokenId × Token} {s : String}
    (he : code.at? st.pos = some e) (htext : e.2.is s = true) :
    expect s code st = .ok (e.1, { st with pos := st.pos + 1 }) := by
  refine expect_eq_ok.mpr ⟨?_, ?_, rfl⟩
  · rw [Code.is, he]
    exact htext
  · rw [he]
    rfl

end Parser

/-- Behind the last token there is no text. -/
theorem Code.is_of_size_le {code : Code} {i : Nat} (h : code.size ≤ i) (s : String) :
    code.is i s = false := by
  rw [Code.is, Code.at?_eq_none_iff.mpr h]
  rfl

/-- An arrow function begins at some token. -/
theorem Code.at?_of_beginsArrow {code : Code} {i : Nat} (h : code.beginsArrow i = true) :
    ∃ e, code.at? i = some e := by
  rw [Code.beginsArrow] at h
  split at h
  · next e he => exact ⟨_, he⟩
  · cases h

namespace Descent

/-- **An input shows some code**: its handles are those of the code tokens, whose closers it knows, and each
    closer stands behind its parenthesis. -/
structure Input.Shows (input : Input) (code : Code) : Prop where
  handles : ∀ i, input.code[i]? = (code.at? i).map (·.1)
  size    : input.code.size = code.size
  tokens  : ∀ i e, code.at? i = some e → input.chain.get? e.1 = some e.2
  closing : ∀ i, (input.closing[i]?).join = code.closer? i
  behind  : ∀ i j, code.closer? i = some j → i < j

/-- **How a descent ends** that began at `pos`, when a parser ends so: a result is reached at `low` at least. -/
inductive Answers (code : Code) (pos low : Nat) {α : Type} :
    Except ParseError (α × ParseState) → Option (Except Stop α × ParseState) → Prop where
  | ok {a : α} {st : ParseState} : pos ≤ st.pos → low ≤ st.pos → st.pos ≤ code.size →
      Answers code pos low (.ok (a, st)) (some (.ok a, st))
  | problem {e : ParseError} {st : ParseState} : pos ≤ st.pos → st.pos ≤ code.size →
      e.Marks code st.pos → Answers code pos low (.error e) (some (.error (.problem e), st))

/-- **From the state `st`, the descent `d` ends as the parser `p` does**, at `low` at least if it succeeds. -/
def Follows (input : Input) (code : Code) (low : Nat) (st : ParseState) {α : Type} (d : Descent α)
    (p : Parser α) : Prop :=
  st.pos ≤ code.size → Answers code st.pos low (p code st) (d input st)

variable {input : Input} {code : Code} {low : Nat} {st : ParseState} {α β : Type}

theorem Answers.mono {pos pos' low' : Nat} {r : Except ParseError (α × ParseState)}
    {o : Option (Except Stop α × ParseState)} (h : Answers code pos low r o) (hpos : pos' ≤ pos)
    (hlow : low' ≤ low) : Answers code pos' low' r o := by
  cases h with
  | ok hle hreached hsize => exact .ok (Nat.le_trans hpos hle) (Nat.le_trans hlow hreached) hsize
  | problem hle hsize hmarks => exact .problem (Nat.le_trans hpos hle) hsize hmarks

/-! ## Running -/

theorem bind_apply (d : Descent α) (k : α → Descent β) (input : Input) (st : ParseState) :
    (d >>= k) input st = match d input st with
      | some (.ok a, st')    => k a input st'
      | some (.error s, st') => some (.error s, st')
      | none                 => none := by
  show Option.bind (d input st) _ = _
  cases d input st with
  | none => rfl
  | some r =>
      obtain ⟨a | s, st'⟩ := r
      · rfl
      · rfl

/-- A sequence goes on from where its first part ended well. -/
theorem bind_of_ok {d : Descent α} {a : α} {st' : ParseState} (h : d input st = some (.ok a, st'))
    (k : α → Descent β) : (d >>= k) input st = k a input st' := by
  rw [bind_apply, h]

theorem get_apply (input : Input) (st : ParseState) :
    (get : Descent ParseState) input st = some (.ok st, st) := rfl

theorem read_apply (input : Input) (st : ParseState) :
    (read : Descent Input) input st = some (.ok input, st) := rfl

theorem token_apply {id : TokenId} {t : Token} (h : input.chain.get? id = some t) :
    token id input st = some (.ok t, st) := by
  show (getOrPanic (input.chain.get? id)) input st = _
  rw [h]
  rfl

namespace Input.Shows

variable (h : input.Shows code)
include h

theorem isAtEnd_apply : isAtEnd input st = some (.ok (decide (code.size ≤ st.pos)), st) := by
  rw [← h.size]
  rfl

theorem handle?_apply (offset : Nat) :
    handle? offset input st = some (.ok ((code.at? (st.pos + offset)).map (·.1)), st) := by
  rw [← h.handles]
  rfl

theorem peek?_apply (offset : Nat) :
    peek? offset input st = some (.ok ((code.at? (st.pos + offset)).map (·.2)), st) := by
  rw [peek?, bind_of_ok (h.handle?_apply offset)]
  cases he : code.at? (st.pos + offset) with
  | none => rfl
  | some e => exact bind_of_ok (token_apply (h.tokens _ e he)) _

theorem peekIs_apply (offset : Nat) (s : String) :
    peekIs offset s input st = some (.ok (code.is (st.pos + offset) s), st) := by
  rw [peekIs, bind_of_ok (h.peek?_apply offset), Option.any_map]
  rfl

theorem check_apply (s : String) : check s input st = some (.ok (code.is st.pos s), st) :=
  h.peekIs_apply 0 s

theorem start_apply {e : TokenId × Token} (he : code.at? st.pos = some e) (w : Wanted) :
    start w input st = some (.ok e.1, st) := by
  rw [start, bind_of_ok (h.handle?_apply 0), Nat.add_zero, he]
  rfl

theorem bump_apply {e : TokenId × Token} (he : code.at? st.pos = some e) :
    bump input st = some (.ok e.1, { st with pos := st.pos + 1 }) := by
  rw [bump, bind_of_ok (h.start_apply he _)]
  rfl

theorem eat_apply (s : String) : eat s input st =
    some (.ok (code.is st.pos s), if code.is st.pos s then { st with pos := st.pos + 1 } else st) := by
  rw [eat, bind_of_ok (h.check_apply s)]
  cases code.is st.pos s <;> rfl

/-- The subtraction in front of the arrow does not go below zero. -/
theorem atArrow_apply : atArrow input st = some (.ok (code.beginsArrow st.pos), st) := by
  rw [atArrow, bind_of_ok (h.peek?_apply 0), Code.beginsArrow, Nat.add_zero]
  cases code.at? st.pos with
  | none => rfl
  | some e =>
      obtain ⟨id, t⟩ := e
      simp only [Option.map_some]
      split
      · exact h.peekIs_apply 1 "=>"
      cases hopen : t.is "(" with
      | false => rfl
      | true =>
          rw [if_pos rfl, Bool.true_and, bind_of_ok (get_apply input st),
            bind_of_ok (read_apply input st), h.closing]
          cases hclose : code.closer? st.pos with
          | none => rfl
          | some close =>
              have hlt := h.behind _ _ hclose
              dsimp only
              rw [if_neg (by omega), h.peekIs_apply, show st.pos + (close - st.pos + 1) = close + 1 by omega]
              rfl

end Input.Shows

/-! ## Side by side -/

namespace Follows

variable {d d' : Descent α} {k : α → Descent β} {p p' : Parser α} {k' : α → Parser β}

theorem pure (hlow : low ≤ st.pos) (a : α) : Follows input code low st (pure a) (pure a) :=
  fun hsize => .ok (Nat.le_refl _) hlow hsize

/-- **What follows in both parts follows as a whole.** -/
theorem bind {reached : Nat} (hd : Follows input code reached st d p)
    (hk : ∀ a st', st.pos ≤ st'.pos → reached ≤ st'.pos → Follows input code low st' (k a) (k' a)) :
    Follows input code low st (d >>= k) (p >>= k') := by
  intro hsize
  have hd := hd hsize
  rw [bind_apply, Parser.bind_apply]
  cases hp : p code st with
  | ok r =>
      obtain ⟨a, st'⟩ := r
      rw [hp] at hd
      cases hrun : d input st with
      | none => rw [hrun] at hd; cases hd
      | some o =>
          rw [hrun] at hd
          cases hd with
          | ok hle hreached hsize' => exact (hk a st' hle hreached hsize').mono hle (Nat.le_refl _)
  | error e =>
      rw [hp] at hd
      cases hrun : d input st with
      | none => rw [hrun] at hd; cases hd
      | some o =>
          rw [hrun] at hd
          cases hd with
          | problem hle hsize' hmarks => exact .problem hle hsize' hmarks

/-- A lower bound for the result may be lowered. -/
theorem weaken {low' : Nat} (hd : Follows input code low st d p) (hle : low' ≤ low) :
    Follows input code low' st d p :=
  fun hsize => (hd hsize).mono (Nat.le_refl _) hle

theorem ite {c : Prop} [Decidable c] (hd : c → Follows input code low st d p)
    (hd' : ¬c → Follows input code low st d' p') :
    Follows input code low st (if c then d else d') (if c then p else p') := by
  split
  · next hc => exact hd hc
  · next hc => exact hd' hc

/-- `bind`, where the first part of the descent is a sequence itself. -/
theorem seq {γ : Type} {reached : Nat} {f : γ → Descent α} {d : Descent γ}
    (hd : Follows input code reached st (d >>= f) p)
    (hk : ∀ a st', st.pos ≤ st'.pos → reached ≤ st'.pos → Follows input code low st' (k a) (k' a)) :
    Follows input code low st (d >>= fun c => f c >>= k) (p >>= k') := by
  rw [← bind_assoc]
  exact hd.bind hk

/-- A choice between two parts that go on alike. -/
theorem iteBind {reached : Nat} {c : Prop} [Decidable c] (hd : Follows input code reached st d p)
    (hd' : Follows input code reached st d' p')
    (hk : ∀ a st', st.pos ≤ st'.pos → reached ≤ st'.pos → Follows input code low st' (k a) (k' a)) :
    Follows input code low st (if c then d >>= k else d' >>= k)
      (if c then p >>= k' else p' >>= k') :=
  ite (fun _ => hd.bind hk) fun _ => hd'.bind hk

/-- What comes behind a token that was passed. -/
theorem passed {d : Descent β} {p : Parser β} {o : Option (Except Stop β × ParseState)}
    {r : Except ParseError (β × ParseState)}
    (h : Follows input code low { st with pos := st.pos + 1 } d p) (hlt : st.pos < code.size)
    (ho : o = d input { st with pos := st.pos + 1 })
    (hr : r = p code { st with pos := st.pos + 1 }) : Answers code st.pos low r o := by
  rw [ho, hr]
  exact (h hlt).mono (Nat.le_succ _) (Nat.le_refl _)

/-- A look around on one side alone. -/
theorem look {c : Descent α} {a : α} (hc : c input st = some (.ok a, st)) {p : Parser β}
    (hk : Follows input code low st (k a) p) : Follows input code low st (c >>= k) p := by
  intro hsize
  rw [bind_of_ok hc]
  exact hk hsize

theorem peeked {e : TokenId × Token} (he : code.at? st.pos = some e) {w : Wanted} {d : Descent β}
    {k' : TokenId × Token → Parser β} (hk : Follows input code low st d (k' e)) :
    Follows input code low st d (Parser.peek w >>= k') := by
  intro hsize
  rw [Parser.bind_apply, Parser.peek, he]
  exact hk hsize

/-- The tokens left are counted on one side alone. -/
theorem left {d : Descent β} {k' : Nat → Parser β}
    (hk : ∀ n, code.size ≤ st.pos + n → Follows input code low st d (k' n)) :
    Follows input code low st d (Parser.left >>= k') :=
  hk _ (Nat.sub_le_iff_le_add'.mp (Nat.le_refl _))

section Primitives

variable (h : input.Shows code)
include h

theorem atEnd {k : Bool → Descent β} {k' : Bool → Parser β}
    (hk : Follows input code low st (k (decide (code.size ≤ st.pos))) (k' (decide (code.size ≤ st.pos)))) :
    Follows input code low st (isAtEnd >>= k) (Parser.atEnd >>= k') := by
  intro hsize
  rw [bind_of_ok h.isAtEnd_apply]
  exact hk hsize

theorem check (s : String) {k : Bool → Descent β} {k' : Bool → Parser β}
    (hk : Follows input code low st (k (code.is st.pos s)) (k' (code.is st.pos s))) :
    Follows input code low st (Descent.check s >>= k) (Parser.check s >>= k') := by
  intro hsize
  rw [bind_of_ok (h.check_apply s)]
  exact hk hsize

theorem atArrow {k : Bool → Descent β} {k' : Bool → Parser β}
    (hk : Follows input code low st (k (code.beginsArrow st.pos)) (k' (code.beginsArrow st.pos))) :
    Follows input code low st (Descent.atArrow >>= k) (Parser.atArrow >>= k') := by
  intro hsize
  rw [bind_of_ok h.atArrow_apply]
  exact hk hsize

theorem peek? {k : Option Token → Descent β} {k' : Option (TokenId × Token) → Parser β}
    (hk : Follows input code low st (k ((code.at? st.pos).map (·.2))) (k' (code.at? st.pos))) :
    Follows input code low st (Descent.peek? 0 >>= k) (Parser.current? >>= k') := by
  intro hsize
  rw [bind_of_ok (h.peek?_apply 0)]
  exact hk hsize

/-- The current token is looked up by its handle. -/
theorem token {e : TokenId × Token} (he : code.at? st.pos = some e) {k : Token → Descent β}
    {p : Parser β} (hk : Follows input code low st (k e.2) p) :
    Follows input code low st (Descent.token e.1 >>= k) p :=
  look (token_apply (h.tokens _ e he)) hk

/-- Behind the last token no text is found. -/
theorem checkPast (hend : code.size ≤ st.pos) (s : String) {k : Bool → Descent β} {p : Parser β}
    (hk : Follows input code low st (k false) p) :
    Follows input code low st (Descent.check s >>= k) p := by
  refine look (h.check_apply s) ?_
  rwa [Code.is_of_size_le hend]

theorem eatPast (hend : code.size ≤ st.pos) (s : String) {k : Bool → Descent β} {p : Parser β}
    (hk : Follows input code low st (k false) p) :
    Follows input code low st (Descent.eat s >>= k) p := by
  have heat : Descent.eat s input st = _ := h.eat_apply s
  rw [Code.is_of_size_le hend] at heat
  exact look heat hk

/-- A node begins at the current token. -/
theorem start (w : Wanted) {k : TokenId → Descent β} {k' : TokenId × Token → Parser β}
    (hk : ∀ e, code.at? st.pos = some e → Follows input code low st (k e.1) (k' e)) :
    Follows input code low st (Descent.start w >>= k) (Parser.peek w >>= k') := by
  intro hsize
  rw [Descent.start, bind_assoc, bind_of_ok (h.handle?_apply 0), Parser.bind_apply, Parser.peek,
    Nat.add_zero]
  cases he : code.at? st.pos with
  | none =>
      -- both stop, since no token is left
      exact .problem (Nat.le_refl _) hsize (Code.at?_eq_none_iff.mp he)
  | some e => exact hk e he hsize

/-- Where a token stands, it does not matter what a node would have wanted there. -/
theorem startAt {e : TokenId × Token} (he : code.at? st.pos = some e) {w w' : Wanted}
    {k : TokenId → Descent β} {k' : TokenId × Token → Parser β}
    (hk : Follows input code low st (k e.1) (k' e)) :
    Follows input code low st (Descent.start w >>= k) (Parser.peek w' >>= k') :=
  look (h.start_apply he w) (peeked he hk)

/-- Behind the last token no node begins. -/
theorem startPast (hend : code.size ≤ st.pos) (w : Wanted) {k : TokenId → Descent β} :
    Follows input code low st (Descent.start w >>= k) (Parser.unexpected w) := by
  intro hsize
  have hnone := Code.at?_eq_none_iff.mpr hend
  rw [Descent.start, bind_assoc, bind_of_ok (h.handle?_apply 0), Parser.unexpected, Nat.add_zero, hnone]
  exact .problem (Nat.le_refl _) hsize hend

theorem bump {e : TokenId × Token} (he : code.at? st.pos = some e) {k : TokenId → Descent β}
    {k' : Unit → Parser β}
    (hk : Follows input code low { st with pos := st.pos + 1 } (k e.1) (k' ())) :
    Follows input code low st (Descent.bump >>= k) (Parser.bump >>= k') := by
  intro _
  exact hk.passed (Code.lt_size_of_at? he) (bind_of_ok (h.bump_apply he) k) rfl

/-- A token that may be missing. -/
theorem eat (s : String) {k : Bool → Descent β} {k' : Bool → Parser β}
    (htrue : code.is st.pos s = true →
      Follows input code low { st with pos := st.pos + 1 } (k true) (k' true))
    (hfalse : code.is st.pos s = false → Follows input code low st (k false) (k' false)) :
    Follows input code low st (Descent.eat s >>= k) (Parser.eat s >>= k') := by
  intro hsize
  have hd : Descent.eat s input st = _ := h.eat_apply s
  have hp := Parser.eat_apply s code st
  cases his : code.is st.pos s with
  | true =>
      rw [his] at hd hp
      refine (htrue his).passed (Code.lt_size_of_is his) (bind_of_ok hd k) ?_
      rw [Parser.bind_apply, hp]
      rfl
  | false =>
      rw [his] at hd hp
      rw [bind_of_ok hd, Parser.bind_apply, hp]
      exact hfalse his hsize

/-- A token that may be missing, and a node behind it. -/
theorem eatThen {reached : Nat} (s : String) {d : Descent α} {p : Parser α} {k : α → Descent β}
    {d₀ : Descent β} {k' : List α → Parser β}
    (hd : Follows input code reached { st with pos := st.pos + 1 } d p)
    (hsome : ∀ a st', st.pos + 1 ≤ st'.pos → reached ≤ st'.pos →
      Follows input code low st' (k a) (k' [a]))
    (hnone : Follows input code low st d₀ (k' [])) :
    Follows input code low st
      (Descent.eat s >>= fun found => if found then d >>= k else d₀)
      ((do if ← Parser.eat s then return [← p] else return []) >>= k') := by
  rw [Parser.bind_assoc]
  refine eat h s (fun _ => ?_) fun _ => hnone
  simp only [if_true, Parser.bind_assoc]
  exact hd.bind hsome

theorem unexpected (w : Wanted) :
    Follows input code low st (Descent.unexpected w : Descent α) (Parser.unexpected w) := by
  intro hsize
  rw [Descent.unexpected, bind_of_ok (h.handle?_apply 0), Parser.unexpected, Nat.add_zero]
  cases he : code.at? st.pos with
  | none => exact .problem (Nat.le_refl _) hsize (Code.at?_eq_none_iff.mp he)
  | some e =>
      have htoken : Descent.token e.1 input st = _ := token_apply (h.tokens _ e he)
      simp only [Option.map_some]
      rw [bind_of_ok htoken]
      exact .problem (Nat.le_refl _) hsize ⟨e.2, he, rfl⟩

/-- Behind the last token, a descent that stops has nothing to go on with. -/
theorem unexpectedPast (hend : code.size ≤ st.pos) (w : Wanted) {k : α → Descent β} :
    Follows input code low st (Descent.unexpected w >>= k) (Parser.unexpected w) := by
  intro hsize
  have hnone := Code.at?_eq_none_iff.mpr hend
  rw [Descent.unexpected, bind_assoc, bind_of_ok (h.handle?_apply 0), Parser.unexpected, Nat.add_zero,
    hnone]
  exact .problem (Nat.le_refl _) hsize hend

/-- A token that is not optional. -/
theorem expect (s : String) {k : TokenId → Descent β} {k' : TokenId → Parser β}
    (hk : ∀ e, code.at? st.pos = some e →
      Follows input code low { st with pos := st.pos + 1 } (k e.1) (k' e.1)) :
    Follows input code low st (Descent.expect s >>= k) (Parser.expect s >>= k') := by
  cases his : code.is st.pos s with
  | true =>
      obtain ⟨e, he, htext⟩ := Option.any_eq_true _ _ |>.mp his
      have hd : Descent.expect s input st = some (.ok e.1, { st with pos := st.pos + 1 }) := by
        rw [Descent.expect, bind_of_ok (h.check_apply s), his]
        exact h.bump_apply he
      intro _
      refine (hk e he).passed (Code.lt_size_of_at? he) (bind_of_ok hd k) ?_
      rw [Parser.bind_apply, Parser.expect_of_is he htext]
  | false =>
      have hfail : Follows input code (code.size + 1) st (Descent.unexpected (.text s) : Descent TokenId)
          (Parser.unexpected (.text s)) := unexpected h _
      have hstop : Follows input code low st (Descent.unexpected (.text s) >>= k)
          (Parser.unexpected (.text s) >>= k') :=
        -- there is no state behind the end of the tokens to go on from
        hfail.bind fun _ _ _ hreached hsize => absurd hsize (Nat.not_le_of_lt hreached)
      intro hsize
      rw [Descent.expect, bind_assoc, bind_of_ok (h.check_apply s), his, Parser.bind_apply, Parser.expect,
        Parser.bind_apply, Parser.check_apply, his]
      exact hstop hsize

/-- A token that is known already is not looked at again. -/
theorem bumpExpect {e : TokenId × Token} (he : code.at? st.pos = some e) {s : String}
    (htext : e.2.is s = true) {k : TokenId → Descent β} {k' : TokenId → Parser β}
    (hk : Follows input code low { st with pos := st.pos + 1 } (k e.1) (k' e.1)) :
    Follows input code low st (Descent.bump >>= k) (Parser.expect s >>= k') := by
  intro _
  refine hk.passed (Code.lt_size_of_at? he) (bind_of_ok (h.bump_apply he) k) ?_
  rw [Parser.bind_apply, Parser.expect_of_is he htext]

/-- **A node ends at the last token that was read**, of which there is one behind the first token. -/
theorem node (hlow : low < st.pos) (n : Option TokenId → Node) :
    Follows input code (low + 1) st (lastConsumed >>= fun last => Descent.node (n (some last)))
      (Parser.lastRead >>= fun last => Parser.node (n last)) := by
  intro hsize
  obtain ⟨i, hi⟩ : ∃ i, st.pos = i + 1 := ⟨st.pos - 1, by omega⟩
  obtain ⟨e, he⟩ : ∃ e, code.at? i = some e := by
    cases he : code.at? i with
    | none =>
        have := Code.at?_eq_none_iff.mp he
        omega
    | some e => exact ⟨e, rfl⟩
  have hlast : lastConsumed input st = some (.ok e.1, st) := by
    rw [lastConsumed, bind_of_ok (get_apply input st), hi]
    dsimp only
    rw [bind_of_ok (read_apply input st), h.handles, he]
    rfl
  have hread : Parser.lastRead code st = .ok (some e.1, st) := by
    rw [Parser.lastRead, hi]
    dsimp only
    rw [he]
    rfl
  rw [bind_of_ok hlast, Parser.bind_apply, hread]
  exact .ok (Nat.le_refl _) hlow hsize

theorem finish (hlow : low < st.pos) (kind : Node.Kind) (start : TokenId) (children : List NodeId) :
    Follows input code (low + 1) st (Descent.finish kind start children)
      (Parser.finish kind start children) :=
  node h hlow fun last => { kind, first := some start, last, children }

theorem finishCall (hlow : low < st.pos) (kind : Node.Kind) (start : TokenId) (callee : NodeId)
    (arguments : List NodeId) :
    Follows input code (low + 1) st (Descent.finishCall kind start callee arguments)
      (Parser.finishCall kind start callee arguments) :=
  node h hlow fun last =>
    { kind, first := some start, last, callee := some callee, children := callee :: arguments }

end Primitives
end Follows
end Descent
end ScriptSpacing
