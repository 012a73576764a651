import ScriptSpacing.Proofs.Syntax.Closers
import ScriptSpacing.Proofs.Syntax.Descent.Productions

/-!
# `Proofs.Syntax.Descent.Total` — a descent always ends

What a descent reads of a chain shows the chain's code (`Input.exists_ofChain`): the pass over the parentheses
meets no index out of range and finds the closers that `Code.ofChain` has, each behind its parenthesis. So
every production and every loop follows a parser from everywhere, and with it ends without a panic
(`Call.total`). A whole document comes to the tree that `Tree.ofChain` gives it, or to its error.
-/

namespace ScriptSpacing

/-! ## Errors -/

namespace ParseError.Marks

variable {code : Code} {pos : Nat} {e : ParseError}

theorem token?_eq (h : e.Marks code pos) : e.token? = (code.at? pos).map (·.1) := by
  cases e with
  | unexpectedToken id found wanted =>
      obtain ⟨t, ht, -⟩ := h
      rw [ht]
      rfl
  | unexpectedEnd wanted =>
      rw [Code.at?_eq_none_iff.mpr h]
      rfl

/-- An error without a token is one at the end. -/
theorem token?_eq_none_iff (h : e.Marks code pos) (hpos : pos ≤ code.size) :
    e.token? = none ↔ pos = code.size := by
  rw [h.token?_eq, Option.map_eq_none_iff, Code.at?_eq_none_iff]
  omega

end ParseError.Marks

/-! ## The parentheses -/

namespace Pairing

variable {p : Pairing}

/-- **Parentheses are closed behind themselves**: those still open were passed, and the others lie in front of
    their closers. -/
structure Forward (p : Pairing) : Prop where
  opened  : ∀ i ∈ p.opened, i < p.closers.size
  closers : ∀ i j : Nat, p.closers[i]? = some (some j) → i < j

theorem Forward.step (h : p.Forward) (t : Token) : (p.step t).Forward where
  opened := by simpa using lt_size_of_mem_opened h.opened [t]
  closers := by
    intro i j hij
    by_cases hopen : t.text = "("
    · rw [step_open hopen] at hij
      exact h.closers i j (getElem?_push_none_iff.mp hij)
    by_cases hclose : t.text = ")"
    · cases hopened : p.opened with
      | nil =>
          rw [step_stray hclose hopened] at hij
          exact h.closers i j (getElem?_push_none_iff.mp hij)
      | cons k rest =>
          rw [step_close hclose hopened] at hij
          have hset := getElem?_push_none_iff.mp hij
          rw [Array.getElem?_setIfInBounds] at hset
          split at hset
          · next hk =>
              -- the parenthesis closed here was open, so it was passed
              have hlt := h.opened k (by rw [hopened]; exact List.mem_cons_self)
              rw [if_pos hlt] at hset
              cases hset
              omega
          · exact h.closers i j hset
    · rw [step_other hopen hclose] at hij
      exact h.closers i j (getElem?_push_none_iff.mp hij)

theorem Forward.foldl (ts : List Token) (h : p.Forward) : (ts.foldl Pairing.step p).Forward := by
  induction ts generalizing p with
  | nil => exact h
  | cons t ts ih => exact ih (h.step t)

theorem forward_ofTokens (ts : List Token) : (ofTokens ts).Forward := by
  refine Forward.foldl ts ⟨?_, ?_⟩
  · intro i hi
    cases hi
  · intro i j hij
    cases hij

end Pairing

namespace Descent

/-! ## The input -/

theorem append_replicate_succ (closers : Array (Option Nat)) (n : Nat) :
    closers ++ Array.replicate (n + 1) none = closers.push none ++ Array.replicate n none := by
  rw [Array.push_eq_append, Array.append_assoc, ← Array.replicate_succ']

/-- **The pass over the parentheses finds the closers**, and no index is out of range on the way. -/
theorem pairFrom_eq (ch : Chain) (es : List (TokenId × Token)) (p : Pairing) (hp : p.Forward)
    (hes : ∀ e ∈ es, ch.get? e.1 = some e.2) :
    pairFrom ch (es.map (·.1)) p.closers.size p.opened
        (p.closers ++ Array.replicate es.length none) =
      .ok ((es.map (·.2)).foldl Pairing.step p).closers := by
  induction es generalizing p with
  | nil => simp [pairFrom]
  | cons e es ih =>
      obtain ⟨he, hes⟩ := List.forall_mem_cons.mp hes
      have hrest := ih (p.step e.2) (hp.step e.2) hes
      rw [Pairing.size_closers_step] at hrest
      rw [List.map_cons, List.map_cons, List.foldl_cons, List.length_cons, pairFrom.eq_def, ← hrest]
      dsimp only
      rw [he]
      dsimp only
      by_cases hopen : e.2.text = "("
      · rw [if_pos (Token.is_eq_true.mpr hopen), Pairing.step_open hopen, append_replicate_succ]
      rw [if_neg (by simpa using hopen)]
      by_cases hclose : e.2.text = ")"
      · rw [if_pos (Token.is_eq_true.mpr hclose)]
        cases hopened : p.opened with
        | nil => rw [Pairing.step_stray hclose hopened, append_replicate_succ]
        | cons i rest =>
            have hi := hp.opened i (by rw [hopened]; exact List.mem_cons_self)
            have hsize : i < (p.closers ++ Array.replicate (es.length + 1) none).size := by
              rw [Array.size_append]
              omega
            rw [Pairing.step_close hclose hopened]
            dsimp only
            rw [if_pos hsize, Array.setIfInBounds_append_left hi, append_replicate_succ]
      · rw [if_neg (by simpa using hclose), Pairing.step_other hopen hclose, append_replicate_succ]

/-- The tokens of a chain are found by their handles. -/
theorem get?_of_mem_entries {ch : Chain} {e : TokenId × Token} (h : e ∈ ch.entries) :
    ch.get? e.1 = some e.2 := by
  obtain ⟨id, -, hid⟩ := List.mem_filterMap.mp h
  obtain ⟨t, ht, rfl⟩ := Option.map_eq_some_iff.mp hid
  exact ht

/-- **A code token is linked**: it is among the entries of the chain, and counts as code. -/
theorem mem_of_at? {ch : Chain} {i : Nat} {e : TokenId × Token} (h : (Code.ofChain ch).at? i = some e) :
    e ∈ ch.entries ∧ e.2.isCode = true := by
  have hmem : e ∈ ch.entries.filter (·.2.isCode) := by
    refine List.mem_of_getElem? (i := i) ?_
    rwa [Code.at?, Code.ofChain, Code.ofEntries, List.getElem?_toArray] at h
  exact List.mem_filter.mp hmem

/-- **The code tokens of a chain can be read**: nothing is out of range, and what is read is its code. -/
theorem Input.exists_ofChain (ch : Chain) :
    ∃ input, Input.ofChain ch = .ok input ∧ input.Shows (Code.ofChain ch) := by
  have hes : ∀ e ∈ ch.entries.filter (·.2.isCode), ch.get? e.1 = some e.2 := fun e he =>
    get?_of_mem_entries (List.mem_filter.mp he).1
  have hpairs := pairFrom_eq ch _ {} (Pairing.forward_ofTokens []) hes
  have hclosing : pairFrom ch ((ch.entries.filter (·.2.isCode)).map (·.1)) 0 []
      (Array.replicate ((ch.entries.filter (·.2.isCode)).map (·.1)).length none) =
        .ok (Code.ofChain ch).closers := by
    have hempty : (#[] : Array (Option Nat)) ++
        Array.replicate (ch.entries.filter (·.2.isCode)).length none = _ := Array.empty_append
    rw [List.length_map, ← hempty]
    exact hpairs
  refine ⟨⟨ch, ((ch.entries.filter (·.2.isCode)).map (·.1)).toArray, (Code.ofChain ch).closers⟩,
    ?_, ?_⟩
  · rw [Input.ofChain, hclosing]
    rfl
  · constructor
    · intro i
      simp [Code.at?, Code.ofChain, Code.ofEntries]
    · simp [Code.size, Code.ofChain, Code.ofEntries]
    · exact fun i e he => get?_of_mem_entries (mem_of_at? he).1
    · exact fun i => rfl
    · intro i j hij
      refine (Pairing.forward_ofTokens ((ch.entries.filter (·.2.isCode)).map (·.2))).closers i j ?_
      exact Option.join_eq_some_iff.mp hij

/-! ## What always ends -/

/-- **Where a descent ends** that began at `st`: not in a panic, not in front of where it began, not behind the
    last token; `least` tokens further at least if it has a result, and where its error says if not. -/
structure Lands (code : Code) (least : Nat) {α : Type} (st : ParseState) (r : Except Stop α)
    (st' : ParseState) : Prop where
  calm    : r ≠ .error .panic
  forward : st.pos ≤ st'.pos
  inside  : st'.pos ≤ code.size
  passes  : ∀ a, r = .ok a → st.pos + least ≤ st'.pos
  marks   : ∀ e, r = .error (.problem e) → e.Marks code st'.pos

/-- **A descent is total**: it ends, from every position that is not behind the last token. -/
def Total (input : Input) (code : Code) (least : Nat) {α : Type} (d : Descent α) : Prop :=
  ∀ st, st.pos ≤ code.size → ∃ r st', d input st = some (r, st') ∧ Lands code least st r st'

/-- The tokens that a call passes at least if it has a result: one, but for parts that may be missing and for
    loops that may be at their end. -/
def Call.least : Call → Nat
  | .returnValue | .statements _ | .functionName _ | .items .. | .sequence _ | .operations ..
  | .suffixes .. | .members .. | .elements _ | .program _ => 0
  | _ => 1

section

variable {input : Input} {code : Code}

theorem Answers.lands {α : Type} {least : Nat} {st : ParseState}
    {r : Except ParseError (α × ParseState)} {o : Option (Except Stop α × ParseState)}
    (h : Answers code st.pos (st.pos + least) r o) :
    ∃ r' st', o = some (r', st') ∧ Lands code least st r' st' := by
  cases h with
  | @ok a st' hle hlow hsize =>
      refine ⟨_, _, rfl, fun hpanic => ?_, hle, hsize, fun _ _ => hlow, fun e he => ?_⟩
      · cases hpanic
      · cases he
  | @problem e st' hle hsize hmarks =>
      refine ⟨_, _, rfl, fun hpanic => ?_, hle, hsize, fun a ha => ?_, fun e' he => ?_⟩
      · cases hpanic
      · cases ha
      · cases he
        exact hmarks

/-- A descent that follows a parser from everywhere is total. -/
theorem total_of_follows {α : Type} {least : Nat} {d : Descent α}
    (hd : ∀ st, st.pos ≤ code.size → ∃ p, Follows input code (st.pos + least) st d p) :
    Total input code least d := by
  intro st hsize
  obtain ⟨p, hp⟩ := hd st hsize
  exact (hp hsize).lands

variable (h : input.Shows code)
include h

/-- Every item of a list follows a parser. -/
theorem follows_item (i : Item) : ∃ p : Parser NodeId, ∀ st, 0 ≤ st.pos →
    Follows input code (st.pos + 1) st (Call.item i).descend p := by
  have hag : Reenters input code (Grammar.upTo code.size) 0 :=
    Follows.reenters h (Nat.le_add_left _ _)
  cases i with
  | assignment =>
      refine ⟨Grammar.assignment (Grammar.upTo code.size), fun st hpos => ?_⟩
      rw [Call.descend]
      exact Follows.assignment h hag (Nat.le_succ_of_le hpos)
  | property =>
      refine ⟨Grammar.property (Grammar.upTo code.size), fun st hpos => ?_⟩
      rw [Call.descend]
      exact Follows.property h hag (Nat.le_succ_of_le hpos)

/-- **Every call is total**, and a production passes a token. -/
theorem Call.total (c : Call) : Total input code c.least c.descend := by
  have hag : Reenters input code (Grammar.upTo code.size) 0 :=
    Follows.reenters h (Nat.le_add_left _ _)
  apply total_of_follows
  intro st hsize
  have hpos : 0 ≤ st.pos := Nat.zero_le _
  have hnext : 0 ≤ st.pos + 1 := Nat.zero_le _
  have hn : code.size ≤ st.pos + code.size := Nat.le_add_left _ _
  cases c with
  | statement           => exact ⟨_, Follows.statement h hag hnext⟩
  | expressionStatement => exact ⟨_, Follows.expressionStatement h hag hnext⟩
  | variableDeclaration =>
      cases he : code.at? st.pos with
      | none =>
          refine ⟨Parser.unexpected (.text "a token"), ?_⟩
          rw [descend, bump, bind_assoc]
          exact Follows.startPast h (Code.at?_eq_none_iff.mp he) _
      | some e => exact ⟨_, Follows.variableDeclaration h hag he hnext⟩
  | declarators read    => exact ⟨_, Follows.declarators h hag _ read hnext hn⟩
  | declarator          => exact ⟨_, Follows.declarator h hag hnext⟩
  | returnStatement     => exact ⟨_, Follows.returnStatement h hag hnext⟩
  | returnValue         => exact ⟨_, Follows.returnValue h hag hpos⟩
  | ifStatement         => exact ⟨_, Follows.ifStatement h hag hnext⟩
  | block               => exact ⟨_, Follows.block h hag hnext⟩
  | statements read =>
      exact ⟨_, Follows.statements h hag _ read _ st hpos (Nat.le_refl _) hn⟩
  | function kind       => exact ⟨_, Follows.function h hag kind hnext⟩
  | functionName kind   => exact ⟨_, Follows.functionName h kind⟩
  | item i =>
      obtain ⟨p, hp⟩ := follows_item h i
      exact ⟨p, hp st hpos⟩
  | delimited opener close i =>
      obtain ⟨p, hp⟩ := follows_item h i
      exact ⟨_, Follows.delimited h opener close i hp hnext⟩
  | items close i read =>
      obtain ⟨p, hp⟩ := follows_item h i
      exact ⟨_, Follows.items h close i hp _ read _ st hpos (Nat.le_refl _) hn⟩
  | expression          => exact ⟨_, Follows.expression h hag hnext⟩
  | sequence read =>
      exact ⟨_, Follows.sequence h hag _ read _ st hnext (Nat.le_refl _) hn⟩
  | assignment          => exact ⟨_, Follows.assignment h hag hnext⟩
  | arrow =>
      cases he : code.at? st.pos with
      | none =>
          refine ⟨Parser.unexpected (.text "arrow parameters"), ?_⟩
          rw [descend]
          exact Follows.startPast h (Code.at?_eq_none_iff.mp he) _
      | some e => exact ⟨_, Follows.arrow h hag he hnext⟩
  | arrowParameters     => exact ⟨_, Follows.arrowParameters h hag hnext⟩
  | arrowBody           => exact ⟨_, Follows.arrowBody h hag hpos⟩
  | conditional         => exact ⟨_, Follows.conditional h hag hnext⟩
  | binary least        => exact ⟨_, Follows.binary h hag least hnext⟩
  | operations least start operand =>
      exact ⟨_, Follows.operations h hag least start _ operand _ st hnext (Nat.le_refl _) hn⟩
  | unary               => exact ⟨_, Follows.unary h hag hnext⟩
  | callMember          => exact ⟨_, Follows.callMember h hag hnext⟩
  | suffixes start operand =>
      exact ⟨_, Follows.suffixes h hag start _ operand _ st hpos (Nat.le_refl _) hn⟩
  | construction        => exact ⟨_, Follows.construction h hag hnext⟩
  | members start operand =>
      exact ⟨_, Follows.members h hag start _ operand _ st hpos (Nat.le_refl _) hn⟩
  | computedMember start operand => exact ⟨_, Follows.computedMember h hag start operand hnext⟩
  | primary             => exact ⟨_, Follows.primary h hag hnext⟩
  | array               => exact ⟨_, Follows.array h hag hnext⟩
  | elements read =>
      exact ⟨_, Follows.elements h hag _ read _ st hpos (Nat.le_refl _) hn⟩
  | object =>
      cases he : code.at? st.pos with
      | none =>
          refine ⟨Parser.unexpected (.text "an object"), ?_⟩
          rw [descend]
          exact Follows.startPast h (Code.at?_eq_none_iff.mp he) _
      | some e => exact ⟨_, Follows.object h hag he hnext⟩
  | property            => exact ⟨_, Follows.property h hag hnext⟩
  | propertyKey         => exact ⟨_, Follows.propertyKey h hag hnext⟩
  | propertyName        => exact ⟨_, Follows.propertyName h⟩
  | bindingIdentifier   => exact ⟨_, Follows.bindingIdentifier h⟩
  | program read =>
      exact ⟨_, (Follows.programBody h hag _ read st hpos hn).weaken hsize⟩

end

/-! ## Whole documents -/

/-- **An error of a chain is about a position of its code.** -/
theorem exists_marks {ch : Chain} {e : ParseError} (h : Tree.ofChain ch = .error e) :
    ∃ pos, e.Marks (Code.ofChain ch) pos := by
  obtain ⟨input, -, hshows⟩ := Input.exists_ofChain ch
  have hfollows : Follows input (Code.ofChain ch) (Code.ofChain ch).size {} program Grammar.program :=
    Follows.program hshows
  have hrun := hfollows (Nat.zero_le _)
  rw [Tree.ofChain, Tree.ofCode] at h
  generalize Grammar.program (Code.ofChain ch) {} = result at hrun h
  generalize program input {} = outcome at hrun
  cases hrun with
  | ok => cases h
  | problem _ _ hmarks =>
      cases h
      exact ⟨_, hmarks⟩

/-- **A descent is total, for every chain.** What it reads of the chain is found without an index out of range;
    from every position each production and each loop ends, without a panic and not in front of where it
    began, a production with a token passed at least (`Call.least`). A whole document comes to its tree, with
    all of its code read, or to an error: that of the linked code token where it stopped, or of no token if
    all were read. -/
theorem parse_total (ch : Chain) : ∃ input, Input.ofChain ch = .ok input ∧
    (∀ c : Call, Total input (Code.ofChain ch) c.least c.descend) ∧
    ∃ r st, parse ch = some (r, st) ∧ st.pos ≤ (Code.ofChain ch).size ∧
      ((∃ t, Tree.ofChain ch = .ok t ∧ r = .ok t.root ∧ st.arena = t.arena ∧
          st.pos = (Code.ofChain ch).size) ∨
        ∃ e, Tree.ofChain ch = .error e ∧ r = .error (.problem e) ∧ e.Marks (Code.ofChain ch) st.pos ∧
          e.token? = ((Code.ofChain ch).at? st.pos).map (·.1) ∧
          (e.token? = none ↔ st.pos = (Code.ofChain ch).size) ∧
          ∀ id, e.token? = some id → ∃ t, (id, t) ∈ ch.entries ∧ t.isCode = true) := by
  obtain ⟨input, hinput, hshows⟩ := Input.exists_ofChain ch
  refine ⟨input, hinput, Call.total hshows, ?_⟩
  have hfollows : Follows input (Code.ofChain ch) (Code.ofChain ch).size {} program Grammar.program :=
    Follows.program hshows
  have hrun := hfollows (Nat.zero_le _)
  rw [parse, hinput, Tree.ofChain, Tree.ofCode]
  dsimp only
  generalize Grammar.program (Code.ofChain ch) {} = result at hrun ⊢
  generalize program input {} = outcome at hrun ⊢
  cases hrun with
  | @ok root st _ hend hsize =>
      exact ⟨_, st, rfl, hsize, .inl ⟨⟨st.arena, root⟩, rfl, rfl, rfl, Nat.le_antisymm hsize hend⟩⟩
  | @problem e st _ hsize hmarks =>
      refine ⟨_, st, rfl, hsize, .inr ⟨e, rfl, rfl, hmarks, hmarks.token?_eq,
        hmarks.token?_eq_none_iff hsize, fun id hid => ?_⟩⟩
      rw [hmarks.token?_eq] at hid
      obtain ⟨⟨_, t⟩, hat, rfl⟩ := Option.map_eq_some_iff.mp hid
      exact ⟨t, mem_of_at? hat⟩

end Descent
end ScriptSpacing
