import ScriptSpacing.Proofs.Spacing.Limit
import ScriptSpacing.Proofs.Token.Operations
import ScriptSpacing.Spacing.Pass

/-!
# `Proofs.Spacing.Edits` — directives edit whitespace and nothing else

A directive may come too late: its token may have been taken out by an earlier one, may be whitespace
itself, or may never have been allocated. Whatever it names, applying it is a list of operations
(`Directive.operations`), and applying directives in order is one long list of them (`operationsAll`).
`Chain.Edits` says of such a list that every operation is allowed, so nothing is put in next to a token
that is not linked, and that every operation is about whitespace: it puts in spaces, takes a whitespace
token out, or turns one into spaces.

What operations of this kind leave alone is `Chain.Framed`. One of them keeps it
(`Operation.Blank.framed`), so a list of them does (`Edits.framed`).
-/

namespace ScriptSpacing

open Chain (Operation)

namespace Token

/-- A whitespace token of at least one space. -/
def IsSpaces (t : Token) : Prop := ∃ n, n ≠ 0 ∧ t = spaces n

theorem IsSpaces.not_isSolid {t : Token} (h : t.IsSpaces) : t.isSolid = false := by
  obtain ⟨n, -, rfl⟩ := h
  rfl

end Token

/-- An entry that is whitespace is no part of the solid ones. -/
theorem Linked.solids_blank_cons {e : Linked} (he : e.2.isSolid = false) (A B : List Linked) :
    solids (A ++ e :: B) = solids (A ++ B) := by
  have hfront : solids (e :: B) = solids B := List.filter_cons_of_neg (by simp [he])
  rw [solids_append, solids_append, hfront]

namespace Chain

/-! ## Edits of whitespace -/

namespace Operation

/-- Places a token directly on one side of an anchor. -/
def insertBeside : Side → TokenId → Token → Operation
  | .before => insertBefore
  | .after  => insertAfter

/-- An operation about the whitespace of `ch`: it puts in spaces, or takes a whitespace token out, or
    turns one into spaces. -/
def Blank (ch : Chain) : Operation → Prop
  | .insertBefore _ t => t.IsSpaces
  | .insertAfter _ t  => t.IsSpaces
  | .remove id        => ch.isWhiteSpace id = true
  | .setText id text  => ch.isWhiteSpace id = true ∧ Token.IsSpaces ⟨.whiteSpace, text⟩
  | .push _           => False
  | .collect _        => False

end Operation

/-- **`ops` lead from one chain to another**, each of them allowed and about whitespace. -/
inductive Edits : Chain → List Operation → Chain → Prop where
  | nil (ch : Chain) : Edits ch [] ch
  | cons {ch ch' ch'' : Chain} {op : Operation} {ops : List Operation} (blank : op.Blank ch)
      (step : ch.step? op = some ch') (rest : Edits ch' ops ch'') : Edits ch (op :: ops) ch''

/-- **`ch'` is `ch` with other whitespace.** -/
structure Framed (ch ch' : Chain) : Prop where
  /-- the links are still those of a list -/
  holds  : Holds ch' ch'.entries
  /-- what is not whitespace stays linked, under its handle, with its token and in its order -/
  solids : Linked.solids ch'.entries = Linked.solids ch.entries
  /-- nothing is linked again, so what is linked was linked or is new -/
  linked : ∀ id, ch'.contains id = true → ch.contains id = true ∨ ch.get? id = none
  /-- a handle keeps its token, linked or not; only whitespace may have become spaces -/
  kept   : ∀ id t, ch.get? id = some t →
    ch'.get? id = some t ∨ t.isWhiteSpace = true ∧ ∃ u, ch'.get? id = some u ∧ u.IsSpaces
  /-- what is new is spaces -/
  made   : ∀ id u, ch.get? id = none → ch'.get? id = some u → u.IsSpaces

variable {ch ch' ch'' : Chain} {es A B : List Linked} {e : Linked} {id : TokenId} {t : Token}
  {text : String} {op : Operation} {ops ops' : List Operation}

/-- A handle of no entry is not linked. -/
theorem Holds.ne_of_not_contains (h : Holds ch es) (hid : ch.contains id = false) :
    ∀ e ∈ es, id ≠ e.1 := by
  rintro e he rfl
  rw [h.contains he] at hid
  cases hid

theorem get?_fresh (ch : Chain) : ch.get? ch.fresh = none := by
  rw [get?, fresh, Array.getElem?_eq_none (Nat.le_refl _)]
  rfl

/-- The token of a whitespace handle is whitespace. -/
theorem isWhiteSpace_of_get? (hid : ch.isWhiteSpace id = true) (ht : ch.get? id = some t) :
    t.isWhiteSpace = true := by
  rw [isWhiteSpace, test, ht] at hid
  exact hid

namespace Framed

theorem refl (h : Holds ch ch.entries) : Framed ch ch where
  holds  := h
  solids := rfl
  linked := fun _ hid => .inl hid
  kept   := fun _ _ ht => .inl ht
  made   := fun id u hnone hsome => by rw [hnone] at hsome; cases hsome

theorem trans (h : Framed ch ch') (h' : Framed ch' ch'') : Framed ch ch'' where
  holds  := h'.holds
  solids := h'.solids.trans h.solids
  linked := by
    intro id hid
    rcases h'.linked id hid with hid' | hnone
    · exact h.linked id hid'
    · -- a handle without a token had none before
      right
      cases ht : ch.get? id with
      | none => rfl
      | some t => rcases h.kept id t ht with hs | ⟨-, u, hs, -⟩ <;> simp [hs] at hnone
  kept   := by
    intro id t ht
    rcases h.kept id t ht with hs | ⟨hblank, u, hs, hu⟩
    · exact h'.kept id t hs
    · right
      refine ⟨hblank, ?_⟩
      rcases h'.kept id u hs with hs' | ⟨-, v, hs', hv⟩
      · exact ⟨u, hs', hu⟩
      · exact ⟨v, hs', hv⟩
  made   := by
    intro id v hnone hv
    cases hu : ch'.get? id with
    | none => exact h'.made id v hu hv
    | some u =>
        have hspaces := h.made id u hnone hu
        rcases h'.kept id u hu with hs | ⟨-, w, hs, hw⟩
        · obtain rfl : u = v := Option.some.inj (hs.symm.trans hv)
          exact hspaces
        · obtain rfl : w = v := Option.some.inj (hs.symm.trans hv)
          exact hw

/-- A token that is not whitespace stays, linked or not. -/
theorem test_isSolid (h : Framed ch ch') (hid : ch.test Token.isSolid id = true) :
    ch'.test Token.isSolid id = true := by
  obtain ⟨t, ht, hsolid⟩ := (Option.any_eq_true _ _).mp hid
  rcases h.kept id t ht with hs | ⟨hblank, -⟩
  · rw [test, hs]
    exact hsolid
  · simp [Token.isSolid, hblank] at hsolid

/-! ### One operation -/

/-- Spaces put in anywhere. -/
theorem insert (h : Holds ch (A ++ B)) (h' : Holds ch' (A ++ (ch.fresh, t) :: B))
    (hget : ∀ id, ch'.get? id = if id = ch.fresh then some t else ch.get? id) (ht : t.IsSpaces) :
    Framed ch ch' where
  holds  := by rw [h'.entries_eq]; exact h'
  solids := by
    rw [h.entries_eq, h'.entries_eq, Linked.solids_blank_cons ht.not_isSolid]
  linked := by
    intro id hid
    have hmem := (h'.links.mem id).mp hid
    simp only [List.map_append, List.map_cons, List.mem_append, List.mem_cons] at hmem
    rw [h.links.mem, List.map_append, List.mem_append]
    rcases hmem with hA | rfl | hB
    · exact .inl (.inl hA)
    · exact .inr (get?_fresh ch)
    · exact .inl (.inr hB)
  kept   := by
    intro id u hu
    left
    have hne : id ≠ ch.fresh := by
      rintro rfl
      rw [get?_fresh] at hu
      cases hu
    rw [hget, if_neg hne, hu]
  made   := by
    intro id u hnone hu
    rw [hget] at hu
    split at hu
    · cases hu
      exact ht
    · rw [hnone] at hu
      cases hu

/-- A whitespace token taken out. -/
theorem remove (h : Holds ch es) (hblank : ch.isWhiteSpace id = true) :
    Framed ch (ch.remove id) := by
  have hkept : ∀ x u, ch.get? x = some u → (ch.remove id).get? x = some u := fun x u hu => by
    rw [get?_remove, hu]
  have hmade : ∀ x u, ch.get? x = none → (ch.remove id).get? x = some u → u.IsSpaces := by
    intro x u hnone hu
    rw [get?_remove, hnone] at hu
    cases hu
  cases hid : ch.contains id with
  | false =>
      rw [Chain.remove, if_neg (by simp [hid])]
      exact refl (by rw [h.entries_eq]; exact h)
  | true =>
      obtain ⟨A, e, B, rfl, rfl⟩ := h.split_of_contains hid
      have h' := h.remove
      have he : e.2.isSolid = false := by
        simp [Token.isSolid, isWhiteSpace_of_get? hblank (h.tokens e (by simp))]
      refine ⟨by rw [h'.entries_eq]; exact h', ?_, ?_, fun x u hu => .inl (hkept x u hu), hmade⟩
      · rw [h.entries_eq, h'.entries_eq, Linked.solids_blank_cons he]
      · intro x hx
        exact .inl ((Links.contains_remove hid x).mp hx).2

/-- A whitespace token turned into spaces. -/
theorem setText (h : Holds ch es) (hblank : ch.isWhiteSpace id = true)
    (htext : Token.IsSpaces ⟨.whiteSpace, text⟩) : Framed ch (ch.setText id text) := by
  obtain ⟨es', h', hsolids⟩ : ∃ es', Holds (ch.setText id text) es' ∧
      Linked.solids es' = Linked.solids es := by
    cases hid : ch.contains id with
    | false =>
        -- the token is not among the entries, which stay as they are
        refine ⟨es, ⟨h.links.setText id text, fun e he => ?_⟩, rfl⟩
        rw [get?_setText, if_neg (h.ne_of_not_contains hid e he), h.tokens e he]
    | true =>
        obtain ⟨A, e, B, rfl, rfl⟩ := h.split_of_contains hid
        refine ⟨_, h.setText text, ?_⟩
        have he : e.2.isSolid = false := by
          simp [Token.isSolid, isWhiteSpace_of_get? hblank (h.tokens e (by simp))]
        rw [Linked.solids_blank_cons he]
        exact Linked.solids_blank_cons (e := (e.1, { e.2 with text := text })) he A B
  refine ⟨by rw [h'.entries_eq]; exact h', by rw [h'.entries_eq, h.entries_eq, hsolids], ?_, ?_, ?_⟩
  · intro x hx
    exact .inl (by rwa [contains_setText] at hx)
  · intro x u hu
    rw [get?_setText, hu]
    split
    · next hx =>
        subst hx
        have hkind := isWhiteSpace_of_get? hblank hu
        have hkind' : u.kind = .whiteSpace := by simpa [Token.isWhiteSpace] using hkind
        exact .inr ⟨hkind, { u with text := text }, rfl, by rw [hkind']; exact htext⟩
    · exact .inl rfl
  · intro x u hnone hu
    rw [get?_setText, hnone] at hu
    split at hu <;> cases hu

end Framed

/-- **An operation about whitespace changes only whitespace.** -/
theorem Operation.Blank.framed (hop : op.Blank ch) (h : Holds ch ch.entries)
    (hstep : ch.step? op = some ch') : Framed ch ch' := by
  cases op with
  | push t => exact hop.elim
  | collect ts => exact hop.elim
  | remove id =>
      cases hstep
      exact Framed.remove h hop
  | setText id text =>
      cases hstep
      exact Framed.setText h hop.1 hop.2
  | insertBefore anchor t =>
      obtain ⟨hanchor, hch⟩ := Option.ite_none_right_eq_some.mp hstep
      cases hch
      obtain ⟨A, e, B, hes, rfl⟩ := h.split_of_contains hanchor
      rw [hes] at h
      exact Framed.insert h (h.insertBefore t) (fun _ => Links.get?_insertBefore) hop
  | insertAfter anchor t =>
      obtain ⟨hanchor, hch⟩ := Option.ite_none_right_eq_some.mp hstep
      cases hch
      obtain ⟨A, e, B, hes, rfl⟩ := h.split_of_contains hanchor
      rw [hes] at h
      exact Framed.insert (A := A ++ [e]) (B := B) (by simpa using h)
        (by simpa using h.insertAfter t) (fun _ => Links.get?_insertAfter) hop

/-! ## Many operations -/

namespace Edits

theorem single (blank : op.Blank ch) (step : ch.step? op = some ch') : Edits ch [op] ch' :=
  .cons blank step (.nil ch')

theorem append (h : Edits ch ops ch') (h' : Edits ch' ops' ch'') : Edits ch (ops ++ ops') ch'' := by
  induction h with
  | nil => exact h'
  | cons blank step _ ih => exact .cons blank step (ih h')

/-- **Edits are a history**: every operation of them is allowed. -/
theorem run? (h : Edits ch ops ch') : ch.run? ops = some ch' := by
  induction h with
  | nil => rfl
  | cons _ step _ ih =>
      rw [Chain.run?, List.foldlM_cons, step]
      exact ih

/-- **Edits change only whitespace.** -/
theorem framed (h : Edits ch ops ch') (hch : Holds ch ch.entries) : Framed ch ch' := by
  induction h with
  | nil => exact .refl hch
  | cons blank step _ ih =>
      have hstep := blank.framed hch step
      exact hstep.trans (ih hstep.holds)

/-- Taking out whitespace tokens. -/
theorem removeAll : ∀ {ids : List TokenId} {ch : Chain}, (∀ id ∈ ids, ch.isWhiteSpace id = true) →
    Edits ch (ids.map .remove) (ch.removeAll ids)
  | [], ch, _ => .nil ch
  | id :: ids, ch, h => by
    have hrest : ∀ x ∈ ids, (ch.remove id).isWhiteSpace x = true := fun x hx => by
      rw [isWhiteSpace, test, get?_remove]
      exact h x (List.mem_cons_of_mem _ hx)
    exact .cons (h id List.mem_cons_self) rfl (removeAll hrest)

end Edits

/-- A walk over whitespace meets nothing else. -/
theorem isWhiteSpace_of_mem_blanksFrom (side : Side) (n : Nat) (cursor : Option TokenId) :
    ∀ id ∈ (ch.blanksFrom side n cursor).1, ch.isWhiteSpace id = true := by
  induction n generalizing cursor with
  | zero => intro id hid; cases hid
  | succ n ih =>
      cases cursor with
      | none => intro id hid; cases hid
      | some x =>
          intro id hid
          rw [blanksFrom] at hid
          split at hid
          · next hx =>
              rcases List.mem_cons.mp hid with rfl | hid
              · exact hx
              · exact ih _ id hid
          · cases hid

/-- Taking tokens out keeps every token. -/
theorem get?_removeAll (ids : List TokenId) (ch : Chain) (id : TokenId) :
    (ch.removeAll ids).get? id = ch.get? id := by
  induction ids generalizing ch with
  | nil => rfl
  | cons x ids ih => exact (ih (ch.remove x)).trans (get?_remove ch x id)

end Chain

/-! ## The operations of directives -/

namespace Directive

/-- The operations that turn the whitespace tokens `run` on one side of `id` into `n` spaces. -/
def resizing (ch : Chain) (side : Side) (id : TokenId) (run : List TokenId) (n : Nat) :
    List Operation :=
  match run with
  | [] => if n = 0 then [] else [.insertBeside side id (Token.spaces n)]
  | kept :: rest =>
    rest.map .remove ++
      if n = 0 then [.remove kept]
      else if (ch.removeAll rest).test (·.is (Token.spaces n).text) kept then []
      else [.setText kept (Token.spaces n).text]

/-- The operations of a directive whose rule asks for `amount`. -/
def operations (d : Directive) (amount : Amount) (ch : Chain) : List Operation :=
  match amount with
  | .preserve => []
  | .exact n =>
    if ch.contains d.token then
      match ch.blanks d.side d.token with
      | (run, some beyond) =>
        if ch.isLineBreak beyond then [] else resizing ch d.side d.token run n.toNat
      | (_, none) => []
    else []

/-- The operations of directives, those of each on the chain that the ones before it leave. -/
def operationsAll (preset : Preset) : List Directive → Chain → List Operation
  | [], _ => []
  | d :: ds, ch =>
    d.operations (preset.amount d.side d.rule) ch ++
      operationsAll preset ds (d.limit (preset.amount d.side d.rule) ch).chain

section Trace

variable {ch : Chain} {side : Side} {id : TokenId} {run : List TokenId} {n : Nat}

/-- Spaces are put in next to a linked token only. -/
theorem edits_insertBeside (hid : ch.contains id = true) (hn : n ≠ 0) :
    Chain.Edits ch [.insertBeside side id (Token.spaces n)]
      (ch.insertBeside side id (Token.spaces n)) := by
  cases side with
  | before => exact .single ⟨n, hn, rfl⟩ (if_pos hid)
  | after => exact .single ⟨n, hn, rfl⟩ (if_pos hid)

/-- **Resizing is editing whitespace**, and every operation is counted. -/
theorem edits_resizing (hid : ch.contains id = true) (hrun : ∀ x ∈ run, ch.isWhiteSpace x = true) :
    Chain.Edits ch (resizing ch side id run n) (resize ch side id run n).chain ∧
      (resize ch side id run n).changed = (resizing ch side id run n).length := by
  cases run with
  | nil =>
      by_cases hn : n = 0
      · simp only [resizing, resize, if_pos hn]
        exact ⟨.nil ch, rfl⟩
      · simp only [resizing, resize, if_neg hn]
        exact ⟨edits_insertBeside hid hn, rfl⟩
  | cons kept rest =>
      have hrest := Chain.Edits.removeAll fun x hx => hrun x (List.mem_cons_of_mem _ hx)
      have hkept : (ch.removeAll rest).isWhiteSpace kept = true := by
        rw [Chain.isWhiteSpace, Chain.test, Chain.get?_removeAll]
        exact hrun kept List.mem_cons_self
      by_cases hn : n = 0
      · simp only [resizing, resize, if_pos hn]
        exact ⟨hrest.append (.single hkept rfl), by simp⟩
      · simp only [resizing, resize, if_neg hn]
        split
        · exact ⟨hrest.append (.nil _), by simp⟩
        · exact ⟨hrest.append (.single ⟨hkept, n, hn, rfl⟩ rfl), by simp⟩

/-- **A directive edits whitespace**, whatever it names, and every operation is counted. -/
theorem edits_operations (d : Directive) (amount : Amount) (ch : Chain) :
    Chain.Edits ch (d.operations amount ch) (d.limit amount ch).chain ∧
      (d.limit amount ch).changed = (d.operations amount ch).length := by
  cases amount with
  | preserve => exact ⟨.nil ch, rfl⟩
  | exact n =>
      cases hid : ch.contains d.token with
      | false =>
          simp only [operations, limit, hid, Bool.false_eq_true, if_false]
          exact ⟨.nil ch, rfl⟩
      | true =>
          have hrun : ∀ x ∈ (ch.blanks d.side d.token).1, ch.isWhiteSpace x = true :=
            Chain.isWhiteSpace_of_mem_blanksFrom d.side _ _
          cases hblanks : ch.blanks d.side d.token with | mk run beyond =>
          rw [hblanks] at hrun
          cases beyond with
          | none =>
              simp only [operations, limit, hid, if_true, hblanks]
              exact ⟨.nil ch, rfl⟩
          | some beyond =>
              simp only [operations, limit, hid, if_true, hblanks]
              split
              · exact ⟨.nil ch, rfl⟩
              · exact edits_resizing hid hrun

end Trace

/-- Applying directives is applying the first, then the rest. -/
theorem applyAll_cons (d : Directive) (ds : List Directive) (preset : Preset) (ch : Chain) :
    applyAll (d :: ds) preset ch =
      ⟨(applyAll ds preset (d.limit (preset.amount d.side d.rule) ch).chain).chain,
        (d.limit (preset.amount d.side d.rule) ch).changed +
          (applyAll ds preset (d.limit (preset.amount d.side d.rule) ch).chain).changed⟩ := by
  -- the count so far is added to what is still to come
  have hfold : ∀ (ds : List Directive) (e : Edited), ds.foldl (step preset) e =
      ⟨(applyAll ds preset e.chain).chain, e.changed + (applyAll ds preset e.chain).changed⟩ := by
    intro ds
    induction ds with
    | nil => intro e; rfl
    | cons d ds ih =>
        intro e
        rw [applyAll, List.foldl_cons, List.foldl_cons, ih, ih (step preset ⟨e.chain, 0⟩ d)]
        simp only [step, Nat.zero_add, Nat.add_assoc]
  rw [applyAll, List.foldl_cons, hfold]
  simp only [step, Nat.zero_add]

/-- **Directives edit whitespace**, whatever they name, and every operation is counted. -/
theorem edits_operationsAll (preset : Preset) : ∀ (ds : List Directive) (ch : Chain),
    Chain.Edits ch (operationsAll preset ds ch) (applyAll ds preset ch).chain ∧
      (applyAll ds preset ch).changed = (operationsAll preset ds ch).length
  | [], ch => ⟨.nil ch, rfl⟩
  | d :: ds, ch => by
    obtain ⟨hfirst, hcount⟩ := edits_operations d (preset.amount d.side d.rule) ch
    obtain ⟨hrest, hcounts⟩ :=
      edits_operationsAll preset ds (d.limit (preset.amount d.side d.rule) ch).chain
    rw [applyAll_cons]
    exact ⟨hfirst.append hrest, by simp only [operationsAll, List.length_append, hcount, hcounts]⟩

/-- **Directives change only whitespace.** -/
theorem framed_applyAll {ch : Chain} (h : Chain.Holds ch ch.entries) (ds : List Directive)
    (preset : Preset) : Chain.Framed ch (applyAll ds preset ch).chain :=
  (edits_operationsAll preset ds ch).1.framed h

end Directive

/-! ## A pass -/

namespace Chain

/-- The directives of a pass over the nodes under `root`. -/
def passDirectives (ch : Chain) (ar : Arena) (root : NodeId) : List Directive :=
  (ch.pairsOf ar (ar.preorder root)).flatMap Pair.directives

/-- **`ch` becomes `e` by the operations `ops`, which edit whitespace alone.** -/
structure EditedBy (ch : Chain) (ops : List Operation) (e : Edited) : Prop where
  /-- every operation is about whitespace of the chain it meets -/
  edits   : Edits ch ops e.chain
  /-- every operation is allowed, so what is put in is put in next to a linked token -/
  run     : ch.run? ops = some e.chain
  framed  : Framed ch e.chain
  counted : e.changed = ops.length

/-- Directives make the operations that are theirs. -/
theorem editedBy_operationsAll {ch : Chain} (h : Holds ch ch.entries) (preset : Preset)
    (ds : List Directive) :
    EditedBy ch (Directive.operationsAll preset ds ch) (Directive.applyAll ds preset ch) := by
  obtain ⟨hedits, hcount⟩ := Directive.edits_operationsAll preset ds ch
  exact ⟨hedits, hedits.run?, hedits.framed h, hcount⟩

/-- **Only whitespace is edited**, of a chain with any history: by any directives, whatever handles they
    name, and by a pass over any tree. -/
theorem editedBy_of_history {ops : List Operation} {ch : Chain} (h : Chain.empty.run? ops = some ch)
    (preset : Preset) :
    (∀ ds : List Directive,
      EditedBy ch (Directive.operationsAll preset ds ch) (Directive.applyAll ds preset ch)) ∧
    ∀ (ar : Arena) (root : NodeId),
      EditedBy ch (Directive.operationsAll preset (ch.passDirectives ar root) ch)
        ⟨(ch.respace ar root preset).1, (ch.respace ar root preset).2.changed⟩ :=
  ⟨fun ds => editedBy_operationsAll (holds_of_run? h) preset ds,
    fun ar root => editedBy_operationsAll (holds_of_run? h) preset (ch.passDirectives ar root)⟩

/-- A directive on a token taken out before, one on a handle that was never given, one on a whitespace
    token, one that takes that token out, one more on it, and one on the last token: three of the six edit. -/
theorem editedBy_late_directives :
    let ts : List Token := [⟨.punctuator, "("⟩, ⟨.whiteSpace, " "⟩, ⟨.whiteSpace, "\t"⟩,
      ⟨.identifier, "a"⟩, ⟨.whiteSpace, " "⟩, ⟨.punctuator, ")"⟩]
    let ch := (ofList ts).remove 4
    let preset := Preset.empty.inside (.exact 1)
    let ds : List Directive := [⟨4, .after, .openingParenthesis⟩, ⟨9, .before, .closingParenthesis⟩,
      ⟨2, .after, .openingParenthesis⟩, ⟨0, .after, .openingParenthesis⟩,
      ⟨2, .after, .openingParenthesis⟩, ⟨5, .before, .closingParenthesis⟩]
    Chain.empty.run? [.collect ts, .remove 4] = some ch ∧
      EditedBy ch (Directive.operationsAll preset ds ch) (Directive.applyAll ds preset ch) ∧
      Directive.operationsAll preset ds ch = [.insertAfter 2 (Token.spaces 1), .remove 2, .remove 6,
        .insertBefore 5 (Token.spaces 1)] ∧
      (Directive.applyAll ds preset ch).chain.source = "( a )" := by
  intro ts ch preset ds
  have hrun : Chain.empty.run? [.collect ts, .remove 4] = some ch := rfl
  refine ⟨hrun, (editedBy_of_history hrun preset).1 ds, ?_, ?_⟩
  · decide +kernel
  · decide +kernel

end Chain
end ScriptSpacing
