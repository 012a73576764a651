import ScriptSpacing.Token.Basic

/-!
# `Token.Chain` — an editable sequence of tokens with stable handles

A chain keeps its tokens in an array of slots and their order in links between the slots. A token is
addressed by its slot, so inserting or removing tokens relinks neighbours but never invalidates a
handle that a syntax tree or a recorded edit holds. A removed token keeps its slot and its text; it is
only no longer linked. Handles are numbers without a bound. Where they have 32 bits, a chain has at most
2³² slots, those of removed tokens included, and the program stops at the next token; nothing is said here
about a chain beyond that.

All edits are made of one primitive: `join left right` makes two slots neighbours, a missing side
standing for the end of the sequence. `splice` allocates a token and joins it on both sides; `push`,
`insertBefore` and `insertAfter` are splices, and `remove` joins the two neighbours of the token it
takes out.
-/

namespace ScriptSpacing

/-- The handle of a token: its slot, counted in the order of allocation. -/
abbrev TokenId := Nat

/-- A token and its place among its neighbours. -/
structure Slot where
  token  : Token
  prev   : Option TokenId := none
  next   : Option TokenId := none
  linked : Bool := true
deriving Repr, DecidableEq, Inhabited

/-- A doubly linked sequence of tokens over an array of slots. -/
structure Chain where
  slots : Array Slot := #[]
  first : Option TokenId := none
  last  : Option TokenId := none
  live  : Nat := 0
deriving Repr, DecidableEq, Inhabited

namespace Chain

/-- The chain without tokens. -/
def empty : Chain := {}

/-! ## Reading -/

/-- The handle that the next allocated token gets. -/
def fresh (ch : Chain) : TokenId := ch.slots.size

/-- The token of a handle, a removed one included. -/
def get? (ch : Chain) (id : TokenId) : Option Token := ch.slots[id]?.map (·.token)

/-- Whether a handle is linked into the sequence. -/
def contains (ch : Chain) (id : TokenId) : Bool := ch.slots[id]?.any (·.linked)

/-- The handle before a linked one. -/
def prev (ch : Chain) (id : TokenId) : Option TokenId := ch.slots[id]?.bind (·.prev)

/-- The handle after a linked one. -/
def next (ch : Chain) (id : TokenId) : Option TokenId := ch.slots[id]?.bind (·.next)

/-- Whether the token of a handle exists and satisfies `p`. -/
def test (ch : Chain) (p : Token → Bool) (id : TokenId) : Bool := (ch.get? id).any p

/-- The number of linked tokens. -/
def length (ch : Chain) : Nat := ch.live

/-- Whether no token is linked. -/
def isEmpty (ch : Chain) : Bool := ch.live == 0

/-! ## Editing -/

/-- Makes `left` and `right` neighbours; where one is missing, the other becomes that end of the
    sequence. -/
def join (left right : Option TokenId) (ch : Chain) : Chain :=
  { slots := modifyAt right (fun s => { s with prev := left })
      (modifyAt left (fun s => { s with next := right }) ch.slots)
    first := if left.isNone then right else ch.first
    last  := if right.isNone then left else ch.last
    live  := ch.live }
where
  /-- Changes one slot, if there is one to change. -/
  modifyAt (id : Option TokenId) (f : Slot → Slot) (slots : Array Slot) : Array Slot :=
    match id with
    | some id => slots.modify id f
    | none    => slots

/-- Allocates a linked slot for `t`, joined to nothing yet. -/
def alloc (t : Token) (ch : Chain) : Chain :=
  { ch with slots := ch.slots.push { token := t }, live := ch.live + 1 }

/-- Places a new token between `left` and `right`. -/
def splice (left : Option TokenId) (t : Token) (right : Option TokenId) (ch : Chain) : Chain :=
  let id := ch.fresh
  ((ch.alloc t).join left (some id)).join (some id) right

/-- Appends a token. -/
def push (ch : Chain) (t : Token) : Chain := ch.splice ch.last t none

/-- Places a token directly before the linked token `anchor`. -/
def insertBefore (ch : Chain) (anchor : TokenId) (t : Token) : Chain :=
  ch.splice (ch.prev anchor) t (some anchor)

/-- Places a token directly after the linked token `anchor`. -/
def insertAfter (ch : Chain) (anchor : TokenId) (t : Token) : Chain :=
  ch.splice (some anchor) t (ch.next anchor)

/-- Takes a token out of the sequence; one that is not linked stays as it is. -/
def remove (ch : Chain) (id : TokenId) : Chain :=
  if ch.contains id then
    let left := ch.prev id
    let right := ch.next id
    let joined := ch.join left right
    { joined with
      slots := joined.slots.modify id fun s => { s with prev := none, next := none, linked := false }
      live := joined.live - 1 }
  else ch

/-- Replaces the text of a token, linked or not; its kind and its place stay. -/
def setText (ch : Chain) (id : TokenId) (text : String) : Chain :=
  { ch with slots := ch.slots.modify id fun s => { s with token := { s.token with text := text } } }

/-- The chain of a list of tokens: the token at position `i` gets the handle `i`. -/
def ofList (ts : List Token) : Chain := ts.foldl push empty

/-! ## Walking

A walk never visits a slot twice, so the number of slots bounds its length. -/

/-- The handles from `cursor` on, following `step` at most `n` times. -/
def follow (step : TokenId → Option TokenId) : Nat → Option TokenId → List TokenId
  | n + 1, some id => id :: follow step n (step id)
  | _, _ => []

/-- The first handle from `cursor` on that passes `accept`. -/
def seek (step : TokenId → Option TokenId) (accept : TokenId → Bool) :
    Nat → Option TokenId → Option TokenId
  | n + 1, some id => if accept id then some id else seek step accept n (step id)
  | _, _ => none

/-- **Seeking is searching the walk.** -/
theorem seek_eq_find? (step : TokenId → Option TokenId) (accept : TokenId → Bool) (n : Nat)
    (cursor : Option TokenId) :
    seek step accept n cursor = (follow step n cursor).find? accept := by
  fun_induction follow step n cursor with
  | case1 n id ih => simp only [seek, List.find?_cons, ih]; cases accept id <;> rfl
  | case2 n cursor h =>
      cases n with
      | zero => rfl
      | succ n => cases cursor with
        | none => rfl
        | some id => exact absurd rfl (h n id rfl)

/-- The linked handles, front to back. -/
def ids (ch : Chain) : List TokenId := follow ch.next ch.slots.size ch.first

/-- The linked handles from `id` on; none when `id` is not linked. -/
def idsFrom (ch : Chain) (id : TokenId) : List TokenId :=
  if ch.contains id then follow ch.next ch.slots.size (some id) else []

/-- The nearest token strictly before `id` that satisfies `p`. -/
def findPrev? (ch : Chain) (id : TokenId) (p : Token → Bool) : Option TokenId :=
  seek ch.prev (ch.test p) ch.slots.size (ch.prev id)

/-- The nearest token strictly after `id` that satisfies `p`. -/
def findNext? (ch : Chain) (id : TokenId) (p : Token → Bool) : Option TokenId :=
  seek ch.next (ch.test p) ch.slots.size (ch.next id)

/-- The nearest code token before `id`. -/
def prevCode? (ch : Chain) (id : TokenId) : Option TokenId := ch.findPrev? id Token.isCode

/-- The nearest code token after `id`. -/
def nextCode? (ch : Chain) (id : TokenId) : Option TokenId := ch.findNext? id Token.isCode

/-- Handles with their tokens. -/
def entriesOf (ch : Chain) (ids : List TokenId) : List (TokenId × Token) :=
  ids.filterMap fun id => (ch.get? id).map (id, ·)

/-- The linked tokens with their handles, front to back. -/
def entries (ch : Chain) : List (TokenId × Token) := ch.entriesOf ch.ids

/-- The linked tokens, front to back. -/
def toList (ch : Chain) : List Token := ch.entries.map (·.2)

/-- The text of a chain: the texts of its linked tokens, put together. -/
def source (ch : Chain) : String := Token.source ch.toList

/-! ## What an edit leaves alone -/

@[simp] theorem fresh_alloc (ch : Chain) (t : Token) : (ch.alloc t).fresh = ch.fresh + 1 := by
  simp [fresh, alloc]

@[simp] theorem fresh_join (ch : Chain) (left right : Option TokenId) :
    (ch.join left right).fresh = ch.fresh := by
  cases left <;> cases right <;> simp [fresh, join, join.modifyAt]

@[simp] theorem fresh_splice (ch : Chain) (left right : Option TokenId) (t : Token) :
    (ch.splice left t right).fresh = ch.fresh + 1 := by
  simp [splice]

@[simp] theorem fresh_setText (ch : Chain) (id : TokenId) (text : String) :
    (ch.setText id text).fresh = ch.fresh := by
  simp [fresh, setText]

@[simp] theorem fresh_remove (ch : Chain) (id : TokenId) : (ch.remove id).fresh = ch.fresh := by
  unfold remove
  split
  · simpa [fresh] using fresh_join ch (ch.prev id) (ch.next id)
  · rfl

/-- **Joining keeps every token**: only links change. -/
@[simp] theorem get?_join (ch : Chain) (left right : Option TokenId) (id : TokenId) :
    (ch.join left right).get? id = ch.get? id := by
  cases left <;> cases right <;>
    simp only [get?, join, join.modifyAt, Array.getElem?_modify] <;>
    (repeat' split) <;> simp [Option.map_map, Function.comp_def]

/-- A token taken out keeps its slot and its text. -/
@[simp] theorem get?_remove (ch : Chain) (id other : TokenId) :
    (ch.remove id).get? other = ch.get? other := by
  unfold remove
  split
  · rw [← get?_join ch (ch.prev id) (ch.next id) other]
    simp only [get?, Array.getElem?_modify]
    split <;> simp [Option.map_map, Function.comp_def]
  · rfl

end Chain
end ScriptSpacing
