import ScriptSpacing.Proofs.Token.Bytewise

/-!
# `Proofs.Token.Lossless` — a scan over bytes is safe and loses nothing

A scan starts between characters, and a step keeps the cursor there (`At.nextToken`), so every cursor that a
scan comes to is between characters (`Reaches.exists_at`). Each step therefore takes at least a byte and slices
the source on boundaries: no scan panics and none goes on forever. What it returns is what `Token.scan`
returns (`Token.scanBytes_eq`), whose tokens are the text, cut up.
-/

namespace ScriptSpacing
namespace ByteCursor
open Text

variable {s : String} {c c' : ByteCursor s} {front cs : List Char} {raw : RawToken}

/-- **The cursors that a scan comes to.** -/
inductive Reaches (s : String) : ByteCursor s → Prop where
  | start : Reaches s (start s)
  | next {c c' : ByteCursor s} {raw : RawToken} : Reaches s c →
      c.nextToken = .ok (some (raw, c')) → Reaches s c'

/-! ## One step -/

theorem At.nextToken_nil (h : At c front []) : c.nextToken = .ok none := by
  unfold ByteCursor.nextToken
  rw [if_pos (h.atEnd_iff.mpr rfl)]

/-- **What a step does between characters**: it cuts some of them, up to a cursor between characters again,
    or it stops at the end or with a flaw. -/
theorem At.nextToken_cases (h : At c front cs) :
    (∃ kind xs ys c', c.nextToken = cut kind c c' ∧ cs = xs ++ ys ∧ xs ≠ [] ∧
      At c' (front ++ xs) ys) ∨
    c.nextToken = .ok none ∨ ∃ e, c.nextToken = .error (.flaw e) := by
  cases cs with
  | nil => exact .inr (.inl h.nextToken_nil)
  | cons x cs =>
      have hfollows := h.nextToken
      cases hcut : Lexeme.next x cs with
      | error f =>
          rw [hcut] at hfollows
          exact .inr (.inr ⟨_, hfollows⟩)
      | ok l =>
          rw [hcut] at hfollows
          obtain ⟨c', hstep, hat⟩ := hfollows
          exact .inl ⟨l.kind, l.text, l.rest, c', hstep, (Lexeme.next_text_append_rest hcut).symm,
            Lexeme.next_text_ne_nil hcut, hat⟩

/-- A token that a step returns goes from the cursor to the next. -/
theorem At.exists_cut (h : At c front cs) (hstep : c.nextToken = .ok (some (raw, c'))) :
    ∃ xs ys, cs = xs ++ ys ∧ xs ≠ [] ∧ raw.start = c.pos ∧ raw.stop = c'.pos ∧
      At c' (front ++ xs) ys := by
  rcases h.nextToken_cases with ⟨kind, xs, ys, d, hcut, hsplit, hne, hat⟩ | hend | ⟨e, hflaw⟩
  · cases hcut.symm.trans hstep
    exact ⟨xs, ys, hsplit, hne, rfl, rfl, hat⟩
  · cases hend.symm.trans hstep
  · cases hflaw.symm.trans hstep

/-- A step does not panic. -/
theorem At.nextToken_ne_error (h : At c front cs) {halt : Halt}
    (hstep : c.nextToken = .error halt) : ∃ e, halt = .flaw e := by
  rcases h.nextToken_cases with ⟨kind, xs, ys, d, hcut, -, -, -⟩ | hend | ⟨e, hflaw⟩
  · cases hcut.symm.trans hstep
  · cases hend.symm.trans hstep
  · cases hflaw.symm.trans hstep
    exact ⟨e, rfl⟩

/-! ## Every step of a scan -/

/-- **Every cursor that a scan comes to is between characters.** -/
theorem Reaches.exists_at (h : Reaches s c) : ∃ front cs, At c front cs := by
  induction h with
  | start => exact ⟨[], s.toList, at_start s⟩
  | next _ hstep ih =>
      obtain ⟨front, cs, hat⟩ := ih
      obtain ⟨xs, ys, -, -, -, -, hnext⟩ := hat.exists_cut hstep
      exact ⟨front ++ xs, ys, hnext⟩

/-- **A step is safe**: if it returns a token, that starts at the cursor and is at least one byte long, the
    next cursor is where it stops, on a boundary, and its text can be sliced out. -/
structure Safe (c : ByteCursor s) : Prop where
  boundary : (String.Pos.Raw.mk c.pos).IsValid s
  halts    : ∀ halt, c.nextToken = .error halt → ∃ e, halt = .flaw e
  starts   : ∀ raw c', c.nextToken = .ok (some (raw, c')) → raw.start = c.pos
  stops    : ∀ raw c', c.nextToken = .ok (some (raw, c')) → raw.stop = c'.pos
  advances : ∀ raw c', c.nextToken = .ok (some (raw, c')) → c.pos + 1 ≤ c'.pos
  lands    : ∀ raw c', c.nextToken = .ok (some (raw, c')) → (String.Pos.Raw.mk c'.pos).IsValid s
  slices   : ∀ raw c', c.nextToken = .ok (some (raw, c')) →
    (slice? s raw.start raw.stop).isSome = true

/-- A step between characters is safe. -/
theorem At.safe (h : At c front cs) : Safe c where
  boundary := h.isValid
  halts    := fun _ hstep => h.nextToken_ne_error hstep
  starts   := by
    intro raw c' hstep
    obtain ⟨xs, ys, -, -, hstart, -, -⟩ := h.exists_cut hstep
    exact hstart
  stops    := by
    intro raw c' hstep
    obtain ⟨xs, ys, -, -, -, hstop, -⟩ := h.exists_cut hstep
    exact hstop
  advances := by
    intro raw c' hstep
    obtain ⟨xs, ys, -, hne, -, -, hat⟩ := h.exists_cut hstep
    have hpos : String.utf8Len xs ≠ 0 := fun hzero => hne (String.utf8Len_eq_zero.mp hzero)
    rw [h.pos, hat.pos, String.utf8Len_append]
    omega
  lands    := by
    intro raw c' hstep
    obtain ⟨xs, ys, -, -, -, -, hat⟩ := h.exists_cut hstep
    exact hat.isValid
  slices   := by
    intro raw c' hstep
    obtain ⟨xs, ys, hsplit, -, hstart, hstop, hat⟩ := h.exists_cut hstep
    rw [hstart, hstop, At.slice?_eq (hsplit ▸ h) hat]
    rfl

/-! ## The whole scan -/

/-- A round that cuts a token goes on behind it. -/
theorem tokensFrom_cut {text : String} (hstep : c.nextToken = .ok (some (raw, c')))
    (hslice : slice? s raw.start raw.stop = some text) (hprogress : c'.remaining < c.remaining)
    (taken : List Token) : c.tokensFrom taken = c'.tokensFrom (⟨raw.kind, text⟩ :: taken) := by
  rw [tokensFrom, hstep]
  simp only [hslice, if_pos hprogress]

/-- **The tokens from a cursor on** are those that are cut from the characters behind it. -/
theorem At.tokensFrom (taken : List Token) (h : At c front cs) :
    c.tokensFrom taken = (Token.scanFrom c.pos taken cs).mapError Halt.flaw := by
  obtain ⟨offset, hoffset⟩ : ∃ offset, offset = c.pos := ⟨_, rfl⟩
  rw [← hoffset]
  fun_induction Token.scanFrom offset taken cs generalizing c front with
  | case1 offset taken =>
      rw [ByteCursor.tokensFrom, h.nextToken_nil]
      rfl
  | case2 offset taken x cs flaw hcut =>
      have hfollows := h.nextToken
      rw [hcut] at hfollows
      rw [ByteCursor.tokensFrom, show c.nextToken = fail flaw c from hfollows, hoffset]
      rfl
  | case3 offset taken x cs l hcut ih =>
      have hfollows := h.nextToken
      rw [hcut] at hfollows
      obtain ⟨c', hstep, hat⟩ := hfollows
      have hsplit := Lexeme.next_text_append_rest hcut
      have hslice : slice? s c.pos c'.pos = some (String.ofList l.text) :=
        At.slice?_eq (hsplit ▸ h) hat
      have hsize : l.token.size = String.utf8Len l.text := by
        show (String.ofList l.text).utf8ByteSize = _
        rw [String.utf8ByteSize_ofList]
      have hpos : c'.pos = offset + l.token.size := by
        rw [hat.pos, String.utf8Len_append, hoffset, h.pos, hsize]
      have hprogress : c'.remaining < c.remaining := by
        have hadvances := h.safe.advances _ c' hstep
        have hinside := c'.inside
        unfold remaining
        omega
      rw [tokensFrom_cut hstep hslice hprogress]
      exact ih hat hpos.symm

end ByteCursor

/-- **The scan over bytes returns what the scan over characters returns.** -/
theorem Token.scanBytes_eq (source : String) :
    Token.scanBytes source = (Token.scan source).mapError Halt.flaw :=
  (ByteCursor.at_start source).tokensFrom []

/-- A scan stops with a flaw alone. -/
theorem Token.scanBytes_ne_error {halt : Halt} (hhalt : ∀ e, halt ≠ .flaw e) (source : String) :
    Token.scanBytes source ≠ .error halt := by
  rw [Token.scanBytes_eq]
  cases Token.scan source with
  | ok ts => exact fun h => by cases h
  | error e => exact fun h => hhalt e (Except.error.inj h).symm

/-- A scan leaves no token empty. -/
theorem Token.text_ne_empty_of_scanFrom {offset : Nat} {taken ts : List Token} {cs : List Char}
    (h : Token.scanFrom offset taken cs = .ok ts) (htaken : ∀ t ∈ taken, t.text ≠ "") :
    ∀ t ∈ ts, t.text ≠ "" := by
  fun_induction Token.scanFrom offset taken cs with
  | case1 offset taken =>
      cases h
      intro t ht
      exact htaken t (List.mem_reverse.mp ht)
  | case2 => cases h
  | case3 offset taken x cs l hcut ih =>
      apply ih h
      intro t ht
      rcases List.mem_cons.mp ht with rfl | ht
      · intro hempty
        exact Lexeme.next_text_ne_nil hcut (String.ofList_eq_empty_iff.mp hempty)
      · exact htaken t ht

/-- The bytes of some tokens are those of their text. -/
theorem Token.flatMap_bytes (ts : List Token) :
    ts.flatMap (fun t => Text.bytes t.text) = Text.bytes (Token.source ts) := by
  simp only [Text.bytes_eq_encode, toList_source]
  unfold Text.encode
  rw [List.flatMap_assoc]

/-- **A text is scanned safely and without loss.** Every step of a scan over its bytes is safe; the scan ends,
    neither in a panic nor by going on forever; and if it returns tokens, none is empty and their bytes, put
    together, are those of the text. -/
theorem scanBytes_lossless (source : String) :
    (∀ c, ByteCursor.Reaches source c → c.Safe) ∧
    Token.scanBytes source ≠ .error .panic ∧
    Token.scanBytes source ≠ .error .stalled ∧
    (∀ ts, Token.scanBytes source = .ok ts →
      (∀ t ∈ ts, t.text ≠ "") ∧ ts.flatMap (fun t => Text.bytes t.text) = Text.bytes source) ∧
    Token.scanBytes source = (Token.scan source).mapError .flaw := by
  refine ⟨?_, ?_, ?_, ?_, Token.scanBytes_eq source⟩
  · intro c hc
    obtain ⟨front, cs, hat⟩ := hc.exists_at
    exact hat.safe
  · exact Token.scanBytes_ne_error (fun e he => by cases he) source
  · exact Token.scanBytes_ne_error (fun e he => by cases he) source
  · intro ts hscan
    rw [Token.scanBytes_eq] at hscan
    cases h : Token.scan source with
    | error e =>
        rw [h] at hscan
        cases hscan
    | ok us =>
        rw [h] at hscan
        cases hscan
        refine ⟨Token.text_ne_empty_of_scanFrom h (fun t ht => ?_), ?_⟩
        · cases ht
        · rw [Token.flatMap_bytes, Token.source_scan h]

/-- The backslash takes one byte of the letter along, and a zero byte is not the end. -/
example : Token.scanBytes "'\\é\x00';" = .ok [⟨.string, "'\\é\x00'"⟩, ⟨.punctuator, ";"⟩] := by
  decide +kernel

end ScriptSpacing
