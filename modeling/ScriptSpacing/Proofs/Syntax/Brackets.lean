import ScriptSpacing.Proofs.Syntax.Derivation
import ScriptSpacing.Proofs.Token.Recut

/-!
# `Proofs.Syntax.Brackets` — what is read is nested

Brackets are followed with a stack of the closers that are awaited. `Nests code p σ q τ` says that from
position `p` with the stack `σ` one comes to `q` with the stack `τ`, each closer being the one awaited. A rule
of the grammar leaves the stack as it found it (`Rule.neutral`), so whatever is read as a part does
(`Reads.nests`): the brackets of every node's span are properly nested among themselves.

The texts of brackets must be brackets for this, and not names or literals: `Code.Proper`, which scanning
gives.
-/

namespace ScriptSpacing

/-- Only punctuators have the text of a bracket. -/
def Code.Proper (code : Code) : Prop :=
  ∀ i e, code.at? i = some e → e.2.text ∈ brackets → e.2.kind = .punctuator

namespace Grammar

/-! ## The stack of awaited closers -/

/-- The closer of an opener. -/
def closerOf? (s : String) : Option String :=
  if s = "(" then some ")" else if s = "[" then some "]" else if s = "\x7b" then some "\x7d" else none

/-- The awaited closers behind a text: an opener adds its closer, a closer takes itself off. -/
def follow (σ : List String) (s : String) : Option (List String) :=
  match closerOf? s with
  | some closer => some (closer :: σ)
  | none => if s ∈ brackets then if σ.head? = some s then some σ.tail else none else some σ

/-- The awaited closers behind some symbols; parts change nothing. -/
def followAll (σ : List String) : List Symbol → Option (List String)
  | [] => some σ
  | .token (.text s) :: ps => (follow σ s).bind (followAll · ps)
  | _ :: ps => followAll σ ps

theorem follow_of_not_mem {s : String} (h : s ∉ brackets) (σ : List String) :
    follow σ s = some σ := by
  have hcloser : closerOf? s = none := by
    simp only [brackets, List.mem_cons, not_or] at h
    simp [closerOf?, h]
  rw [follow, hcloser, if_neg h]

/-- **The brackets from position `p` up to `q`** take the stack of awaited closers from `σ` to `τ`. -/
inductive Nests (code : Code) : Nat → List String → Nat → List String → Prop where
  | refl (p : Nat) (σ : List String) : Nests code p σ p σ
  | step {e : TokenId × Token} {p q : Nat} {σ τ υ : List String} : code.at? p = some e →
      follow σ e.2.text = some τ → Nests code (p + 1) τ q υ → Nests code p σ q υ

namespace Nests

variable {code : Code} {p q r m : Nat} {σ τ υ : List String}

theorem trans (h : Nests code p σ r τ) (h' : Nests code r τ q υ) : Nests code p σ q υ := by
  induction h with
  | refl => exact h'
  | step hat hfollow _ ih => exact .step hat hfollow (ih h')

theorem le (h : Nests code p σ q τ) : p ≤ q := by
  induction h with
  | refl => exact Nat.le_refl _
  | step _ _ _ ih => omega

/-- On the way from `p` to `q` one comes past every position between them. -/
theorem exists_between (h : Nests code p σ q υ) (hp : p ≤ m) (hq : m ≤ q) :
    ∃ τ, Nests code p σ m τ ∧ Nests code m τ q υ := by
  induction h with
  | refl p σ =>
      obtain rfl : m = p := Nat.le_antisymm hq hp
      exact ⟨σ, .refl _ _, .refl _ _⟩
  | @step e p q σ τ υ hat hfollow hrest ih =>
      rcases Nat.eq_or_lt_of_le hp with rfl | hlt
      · exact ⟨σ, .refl _ _, .step hat hfollow hrest⟩
      · obtain ⟨ρ, hfront, hback⟩ := ih hlt hq
        exact ⟨ρ, .step hat hfollow hfront, hback⟩

/-- There is a token at every position between. -/
theorem exists_at? (h : Nests code p σ q υ) (hp : p ≤ m) (hq : m < q) :
    ∃ e, code.at? m = some e := by
  obtain ⟨τ, -, hback⟩ := h.exists_between hp (Nat.le_of_lt hq)
  cases hback with
  | refl => exact absurd hq (Nat.lt_irrefl _)
  | step hat _ _ => exact ⟨_, hat⟩

end Nests

/-! ## Rules leave the stack as it was -/

/-- A bracket is no terminal but its own text. -/
theorem Terminal.not_bracket {t : Terminal} {tok : Token} (ht : ∀ s, t ≠ .text s)
    (hacc : t.accepts tok = true) (hproper : tok.text ∈ brackets → tok.kind = .punctuator) :
    tok.text ∉ brackets := by
  intro hmem
  have hnone : ∀ s ∈ brackets, t.accepts ⟨.punctuator, s⟩ = false := by
    cases t with
    | text s => exact absurd rfl (ht s)
    | binaryOperator level kind =>
        -- the level is not closed, so brackets are ruled out as operators of any
        have hoperator : ∀ s ∈ brackets, binaryOperator? ⟨.punctuator, s⟩ = none := by decide
        intro s hs
        simp [accepts, hoperator s hs]
    | _ => decide
  have htok : tok = ⟨.punctuator, tok.text⟩ := by rw [← hproper hmem]
  rw [htok, hnone _ hmem] at hacc
  cases hacc

/-- Symbols that leave every stack as it was. -/
def Neutral (ps : List Symbol) : Prop := ∀ σ, followAll σ ps = some σ

theorem followAll_append (σ : List String) (ps ps' : List Symbol) :
    followAll σ (ps ++ ps') = (followAll σ ps).bind (followAll · ps') := by
  induction ps generalizing σ with
  | nil => rfl
  | cons s ps ih =>
      cases s with
      | part g => exact ih σ
      | token t =>
          cases t with
          | text s =>
              rw [List.cons_append, followAll, followAll]
              cases follow σ s with
              | none => rfl
              | some τ => exact ih τ
          | _ => exact ih σ

namespace Neutral

variable {ps ps' : List Symbol}

theorem nil : Neutral [] := fun _ => rfl

theorem append (h : Neutral ps) (h' : Neutral ps') : Neutral (ps ++ ps') := by
  intro σ
  rw [followAll_append, h σ]
  exact h' σ

theorem part (g : Part) (h : Neutral ps) : Neutral (.part g :: ps) := h

theorem text {s : String} (hs : s ∉ brackets) (h : Neutral ps) : Neutral (.text s :: ps) := by
  intro σ
  rw [followAll, follow_of_not_mem hs]
  exact h σ

/-- Brackets around neutral symbols. -/
theorem enclose {opener closer : String} (hopen : closerOf? opener = some closer)
    (hclose : closer ∈ brackets ∧ closerOf? closer = none) (h : Neutral ps) :
    Neutral (.text opener :: ps ++ [.text closer]) := by
  intro σ
  have hfollow : follow (closer :: σ) closer = some σ := by
    rw [follow, hclose.2, if_pos hclose.1]
    exact if_pos rfl
  rw [List.cons_append, followAll, follow, hopen, Option.bind_some, followAll_append, h,
    Option.bind_some, followAll, hfollow]
  rfl

end Neutral

theorem Optional.neutral {ps ps' : List Symbol} (h : Optional ps ps') (hps : Neutral ps) :
    Neutral ps' := by
  cases h with
  | absent => exact .nil
  | present => exact hps

theorem Items.neutral {g : Part} {ps : List Symbol} (h : Items g ps) : Neutral ps := by
  induction h with
  | nil => exact .nil
  | last => exact .part g .nil
  | cons _ ih => exact .part g (.text (by decide) ih)

theorem Elements.neutral {ps : List Symbol} (h : Elements ps) : Neutral ps := by
  induction h with
  | nil => exact .nil
  | last => exact .part _ .nil
  | hole _ ih => exact .text (by decide) ih
  | cons _ ih => exact .part _ (.text (by decide) ih)

theorem Tail.neutral {g : Part} {ps : List Symbol} (h : Tail g ps) : Neutral ps := by
  induction h with
  | nil => exact .nil
  | cons _ ih => exact .text (by decide) (.part g ih)

theorem IsArguments.neutral {ps : List Symbol} (h : IsArguments ps) : Neutral ps := by
  obtain ⟨items, hitems, rfl⟩ := h
  exact hitems.neutral.enclose (by decide) (by decide)

theorem neutral_replicate (n : Nat) (g : Part) : Neutral (List.replicate n (.part g)) := by
  induction n with
  | zero => exact .nil
  | succ n ih => exact .part g ih

/-- **Every rule leaves the stack as it was.** -/
theorem Rule.neutral {g : Part} {kind : Node.Kind} {body : List Symbol} (h : Rule g kind body) :
    Neutral body := by
  have hblock : Neutral [.part .block] := .part _ .nil
  have hsemi : Neutral [.text ";"] := .text (by decide) .nil
  have hbrackets : Neutral [.text "[", .part .expression, .text "]"] :=
    (Neutral.part .expression .nil).enclose (by decide) (by decide)
  cases h with
  | identifier => exact .nil
  | literal => exact .nil
  | this => exact .text (by decide) .nil
  | binding => exact .nil
  | name => exact .nil
  | literalKey => exact .nil
  | functionExpression hname hargs =>
      exact .text (by decide)
        (((hname.neutral (.part _ .nil)).append hargs.neutral).append hblock)
  | array hps => exact hps.neutral.enclose (by decide) (by decide)
  | object hps => exact hps.neutral.enclose (by decide) (by decide)
  | property hvalue => exact .part _ (hvalue.neutral (.text (by decide) (.part _ .nil)))
  | namedMember hdot =>
      have : ∀ s : String, s = "." ∨ s = "?." → s ∉ brackets := by
        rintro s (rfl | rfl) <;> decide
      exact .part _ (.text (this _ hdot) (.part _ .nil))
  | computedMember hdot =>
      exact .part _ ((hdot.neutral (.text (by decide) .nil)).append hbrackets)
  | call hdot hargs =>
      exact .part _ ((hdot.neutral (.text (by decide) .nil)).append hargs.neutral)
  | calleeNamedMember => exact .part _ (.text (by decide) (.part _ .nil))
  | calleeComputedMember => exact .part _ hbrackets
  | construction hargs =>
      rcases hargs with rfl | hargs
      · exact .text (by decide) (.part _ .nil)
      · exact .text (by decide) (.part _ hargs.neutral)
  | unary => exact .nil
  | prefixUpdate => exact .nil
  | postfixUpdate => exact .nil
  | binary => exact .nil
  | conditional =>
      exact .part _ (.text (by decide) (.part _ (.text (by decide) (.part _ .nil))))
  | assignment => exact .nil
  | arrow hparams =>
      have hbody : ∀ g, Neutral [.text "=>", .part g] := fun g => .text (by decide) (.part g .nil)
      rcases hparams with hargs | rfl
      · exact hargs.neutral.append (hbody _)
      · exact .part _ (hbody _)
  | sequence htail => exact .part _ htail.neutral
  | block n => exact (neutral_replicate n _).enclose (by decide) (by decide)
  | functionDeclaration hargs =>
      exact .text (by decide) (.part _ (hargs.neutral.append hblock))
  | declarator hvalue => exact .part _ (hvalue.neutral (.text (by decide) (.part _ .nil)))
  | variableDeclaration hword htail hsm =>
      have : ∀ s ∈ ["var", "let", "const"], s ∉ brackets := by decide
      exact .text (this _ hword) (.part _ (htail.neutral.append (hsm.neutral hsemi)))
  | returnStatement hvalue hsm =>
      exact .text (by decide) ((hvalue.neutral (.part _ .nil)).append (hsm.neutral hsemi))
  | ifStatement halternate =>
      have htest : Neutral [.text "(", .part .expression, .text ")"] :=
        (Neutral.part .expression .nil).enclose (by decide) (by decide)
      have helse := halternate.neutral (.text (by decide) (.part _ .nil))
      exact .text (by decide) (htest.append (.part .statement helse))
  | emptyStatement => exact hsemi
  | expressionStatement hsm => exact .part _ (hsm.neutral hsemi)

theorem Part.Wraps.closerOf? {g g' : Part} {opener closer : String}
    (h : g.Wraps opener g' closer) : Grammar.closerOf? opener = some closer ∧
      ∀ σ, follow (closer :: σ) closer = some σ := by
  cases h with
  | group => exact ⟨by decide, fun _ => rfl⟩
  | computedKey => exact ⟨by decide, fun _ => rfl⟩

/-! ## What is read is nested -/

/-- A token found by its text is at its position. -/
theorem Nests.of_is {code : Code} {p : Nat} {s : String} {σ τ : List String}
    (h : code.is p s = true) (hfollow : follow σ s = some τ) : Nests code p σ (p + 1) τ := by
  obtain ⟨e, he, htext⟩ := (Option.any_eq_true _ _).mp h
  rw [Token.is_eq_true] at htext
  exact .step he (by rw [htext]; exact hfollow) (.refl _ _)

/-- **Reading follows the brackets of what it reads**: parts change nothing, tokens what their texts do. -/
theorem Reads.nests {ar : Arena} {code : Code} (hproper : code.Proper) {ps : List Symbol}
    {ids : List NodeId} {p q : Nat} (h : Reads ar code ps p ids q) {σ τ : List String}
    (hfollow : followAll σ ps = some τ) : Nests code p σ q τ := by
  induction h generalizing σ τ with
  | nil p =>
      cases hfollow
      exact .refl _ _
  | @token t e ps ids p q hat hacc _ ih =>
      -- a text is followed as the token that has it; any other terminal is no bracket
      by_cases ht : ∃ s, t = .text s
      · obtain ⟨s, rfl⟩ := ht
        obtain ⟨υ, hs, hrest⟩ := Option.bind_eq_some_iff.mp hfollow
        have htext : e.2.text = s := Token.is_eq_true.mp hacc
        exact .step hat (htext ▸ hs) (ih hrest)
      · have hnot : e.2.text ∉ brackets :=
          Terminal.not_bracket (fun s hs => ht ⟨s, hs⟩) hacc (hproper p e hat)
        refine .step hat (follow_of_not_mem hnot σ) (ih ?_)
        cases t with
        | text s => exact absurd ⟨s, rfl⟩ ht
        | _ => exact hfollow
  | node hrule _ _ _ ihbody ih => exact (ihbody (hrule.neutral σ)).trans (ih hfollow)
  | wrap hwrap hopen _ hclose _ ihinner ih =>
      obtain ⟨hcloser, hback⟩ := hwrap.closerOf?
      have hfront : ∀ σ, follow σ _ = some _ := fun σ => by rw [follow, hcloser]
      exact ((Nests.of_is hopen (hfront σ)).trans (ihinner rfl)).trans
        ((Nests.of_is hclose (hback σ)).trans (ih hfollow))
  | lift _ _ ih => exact ih hfollow

end Grammar
end ScriptSpacing
