import Mathlib.Tactic.Tauto
import ScriptSpacing.Token.Basic

/-!
# `Proofs.Token.Gaps` — solid tokens and the whitespace between them

Spacing a text moves whitespace and nothing else. The two halves of a list of tokens are kept apart here:
its `solids`, the tokens that are not whitespace, and its `gaps`, the runs of whitespace tokens between
them. There is a gap before each solid token and one behind the last, so gap `i` lies directly before
solid `i` and gap `i + 1` directly behind it. The two halves determine the list (`eq_of_solids_gaps`).
-/

namespace ScriptSpacing
namespace Token

/-- Whether a token is whitespace; a line break is not. -/
def isWhiteSpace (t : Token) : Bool := t.kind = .whiteSpace

/-- Whether a token is anything but whitespace. -/
def isSolid (t : Token) : Bool := !t.isWhiteSpace

/-- Whether a token is a line break. -/
def isLineBreak (t : Token) : Bool := t.kind = .lineBreak

/-- The tokens that are not whitespace. -/
def solids (ts : List Token) : List Token := ts.filter isSolid

/-- The runs of whitespace tokens before, between and behind the solid tokens. -/
def gaps : List Token → List (List Token)
  | []      => [[]]
  | t :: ts => if t.isSolid then [] :: gaps ts else (gaps ts).modifyHead (t :: ·)

/-- The whitespace tokens that `n` spaces are made of. -/
def blankRun (n : Nat) : List Token := if n = 0 then [] else [spaces n]

theorem isSolid_of_mem_blankRun {n : Nat} {t : Token} (h : t ∈ blankRun n) : t.isSolid = false := by
  unfold blankRun at h
  split at h
  · simp at h
  · obtain rfl : t = spaces n := by simpa using h
    rfl

/-- The text of `n` spaces. -/
theorem source_blankRun (n : Nat) : source (blankRun n) = String.ofList (List.replicate n ' ') := by
  unfold blankRun
  split
  · next hn =>
      subst hn
      rfl
  · simp [source, spaces]

/-- What the grammar sees is solid. -/
theorem isSolid_of_isCode {t : Token} (h : t.isCode = true) : t.isSolid = true := by
  cases t with
  | mk kind text => cases kind <;> simp_all [isCode, Kind.isCode, Kind.isEmpty, isSolid, isWhiteSpace]

/-! ## Solid tokens -/

variable {A B G ts us : List Token} {x y : Token}

@[simp] theorem solids_append (A B : List Token) : solids (A ++ B) = solids A ++ solids B :=
  List.filter_append A B

theorem solids_cons_of_isSolid (hx : x.isSolid = true) (B : List Token) :
    solids (x :: B) = x :: solids B := List.filter_cons_of_pos hx

theorem solids_cons_of_not (hx : ¬ x.isSolid = true) (B : List Token) :
    solids (x :: B) = solids B := List.filter_cons_of_neg hx

/-! ## Gaps -/

theorem gaps_ne_nil : ∀ ts : List Token, gaps ts ≠ []
  | [] => by simp [gaps]
  | t :: ts => by
    unfold gaps
    split
    · simp
    · simpa [List.modifyHead_eq_nil_iff] using gaps_ne_nil ts

theorem gaps_cons_of_isSolid (hx : x.isSolid = true) (B : List Token) :
    gaps (x :: B) = [] :: gaps B := by
  rw [gaps, if_pos hx]

/-- A solid token ends one gap and begins another. -/
theorem gaps_append_cons (hx : x.isSolid = true) (A B : List Token) :
    gaps (A ++ x :: B) = gaps A ++ gaps B := by
  induction A with
  | nil => simp [gaps, hx]
  | cons a A ih =>
      rw [List.cons_append, gaps, gaps, ih]
      split
      · rfl
      · have hne := gaps_ne_nil A
        cases hg : gaps A with
        | nil => exact absurd hg hne
        | cons g gs => rfl

/-- The gap at the front takes in the whitespace put before it. -/
theorem gaps_append (h : ∀ t ∈ G, t.isSolid = false) (B : List Token) :
    gaps (G ++ B) = (gaps B).modifyHead (G ++ ·) := by
  induction G with
  | nil => cases h' : gaps B <;> simp [h']
  | cons t G ih =>
      have ht := h t List.mem_cons_self
      rw [List.cons_append, gaps, if_neg (by simp [ht]),
        ih fun u hu => h u (List.mem_cons_of_mem _ hu)]
      cases gaps B <;> rfl

/-- Whitespace in front of a solid token is a gap. -/
theorem gaps_append_cons_of_blank (h : ∀ t ∈ G, t.isSolid = false) (hy : y.isSolid = true)
    (B : List Token) : gaps (G ++ y :: B) = G :: gaps B := by
  rw [gaps_append h, gaps_cons_of_isSolid hy]
  simp

/-- Gaps are whitespace. -/
theorem isSolid_of_mem_gaps (hG : G ∈ gaps ts) {t : Token} (ht : t ∈ G) :
    t ∈ ts ∧ t.isSolid = false := by
  induction ts generalizing G with
  | nil =>
      rw [gaps, List.mem_singleton] at hG
      rw [hG] at ht
      cases ht
  | cons u us ih =>
      have hrest : ∀ {H : List Token}, H ∈ gaps us → t ∈ H → t ∈ u :: us ∧ t.isSolid = false := by
        intro H hH ht
        exact ⟨List.mem_cons_of_mem u (ih hH ht).1, (ih hH ht).2⟩
      rw [gaps] at hG
      split at hG
      · rcases List.mem_cons.mp hG with rfl | hG
        · cases ht
        · exact hrest hG ht
      · next hu =>
          obtain ⟨H, hs, hgaps⟩ := List.exists_cons_of_ne_nil (gaps_ne_nil us)
          rw [hgaps, List.modifyHead_cons] at hG
          rcases List.mem_cons.mp hG with rfl | hG
          · rcases List.mem_cons.mp ht with rfl | ht
            · exact ⟨List.mem_cons_self, by simpa using hu⟩
            · exact hrest (by rw [hgaps]; exact List.mem_cons_self) ht
          · exact hrest (by rw [hgaps]; exact List.mem_cons_of_mem H hG) ht

/-- There is one gap more than there are solid tokens. -/
theorem length_gaps (ts : List Token) : (gaps ts).length = (solids ts).length + 1 := by
  induction ts with
  | nil => rfl
  | cons t ts ih =>
      unfold gaps
      split
      · next ht => rw [solids_cons_of_isSolid ht, List.length_cons, List.length_cons, ih]
      · next ht => rw [List.length_modifyHead, ih, solids_cons_of_not ht]

/-- Solid tokens put back between their gaps. -/
def weave : List (List Token) → List Token → List Token
  | g :: gs, t :: ts => g ++ t :: weave gs ts
  | gs, _            => gs.flatten

/-- Whitespace in front of the first gap is whitespace in front of all. -/
theorem weave_modifyHead (t : Token) (us : List Token) :
    ∀ {gs : List (List Token)}, gs ≠ [] → weave (gs.modifyHead (t :: ·)) us = t :: weave gs us
  | [], h => absurd rfl h
  | g :: gs, _ => by cases us <;> simp [weave]

theorem weave_gaps_solids (ts : List Token) : weave (gaps ts) (solids ts) = ts := by
  induction ts with
  | nil => rfl
  | cons t ts ih =>
      unfold gaps
      split
      · next ht => rw [solids_cons_of_isSolid ht, weave, ih, List.nil_append]
      · next ht =>
          rw [solids_cons_of_not ht, weave_modifyHead t _ (gaps_ne_nil ts), ih]

/-- **A list is its solid tokens and its gaps.** -/
theorem eq_of_solids_gaps (hs : solids ts = solids us) (hg : gaps ts = gaps us) : ts = us := by
  rw [← weave_gaps_solids ts, hs, hg, weave_gaps_solids us]

/-! ## The gaps beside a solid token -/

theorem getElem?_gaps_append_cons (hx : x.isSolid = true) (A B : List Token) (i : Nat) :
    (gaps (A ++ x :: B))[(solids A).length + 1 + i]? = (gaps B)[i]? := by
  rw [gaps_append_cons hx, List.getElem?_append_right (by rw [length_gaps]; omega), length_gaps]
  congr 1
  omega

/-- Replacing the gap between two neighbours. -/
theorem gaps_set (hx : x.isSolid = true) (hy : y.isSolid = true) (hG : ∀ t ∈ G, t.isSolid = false)
    {G' : List Token} (hG' : ∀ t ∈ G', t.isSolid = false) (A B : List Token) :
    gaps (A ++ x :: (G' ++ y :: B)) =
      (gaps (A ++ x :: (G ++ y :: B))).set ((solids A).length + 1) G' := by
  rw [gaps_append_cons hx, gaps_append_cons hx, gaps_append_cons_of_blank hG hy,
    gaps_append_cons_of_blank hG' hy, ← length_gaps,
    List.set_append_right _ _ (Nat.le_refl _), Nat.sub_self, List.set_cons_zero]

/-! ## The gaps of a token -/

/-- The gap in front of the token at an index. -/
def gapBefore (ts : List Token) (i : Nat) : Nat := (solids (ts.take i)).length

/-- The gap behind the token at an index, when that is solid. -/
def gapAfter (ts : List Token) (i : Nat) : Nat := (solids (ts.take (i + 1))).length

/-- The solid token in front of a gap; the first gap has none. -/
def solidInFront (ts : List Token) (g : Nat) : Option Token := ((solids ts).take g).getLast?

/-- The solid token behind a gap; the last gap has none. -/
def solidBehind (ts : List Token) (g : Nat) : Option Token := (solids ts)[g]?

/-- The text of a gap. -/
def gapText (ts : List Token) (g : Nat) : Option String := (gaps ts)[g]?.map source

theorem gapBefore_append (A B : List Token) : gapBefore (A ++ B) A.length = (solids A).length := by
  rw [gapBefore, List.take_left]

theorem gapAfter_append_cons (hx : x.isSolid = true) (A B : List Token) :
    gapAfter (A ++ x :: B) A.length = (solids A).length + 1 := by
  rw [gapAfter, List.take_length_add_append, List.take_succ_cons, List.take_zero, solids_append,
    solids_cons_of_isSolid hx, List.length_append]
  rfl

theorem solidInFront_append (A B : List Token) :
    solidInFront (A ++ B) (solids A).length = (solids A).getLast? := by
  rw [solidInFront, solids_append, List.take_left]

theorem solidBehind_append_cons (hx : x.isSolid = true) (A B : List Token) :
    solidBehind (A ++ x :: B) ((solids A).length + 1) = (solids B).head? := by
  rw [solidBehind, solids_append, solids_cons_of_isSolid hx,
    List.getElem?_append_right (by omega), List.head?_eq_getElem?]
  simp

end Token
end ScriptSpacing
