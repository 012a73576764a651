/-!
# `Token.Basic` — tokens and their lexical kinds

A token is a kind and the text it was cut from, nothing else: where it stands is the business of the
chain that holds it. Kinds split three ways. *Empty* tokens (whitespace, line breaks) and *comments*
are trivia; every other token is *code*, and code is all that the grammar ever sees. `Kind.isCode` is
defined as what is left over, so the three classes partition the kinds.
-/

namespace ScriptSpacing

/-- The lexical kind of a token. -/
inductive Token.Kind where
  | whiteSpace | lineBreak | lineComment | blockComment
  | identifier | keyword | boolean | null | numeric | string | punctuator
deriving Repr, DecidableEq, Inhabited

/-- A token: its kind and its literal text. -/
structure Token where
  kind : Token.Kind
  text : String
deriving Repr, DecidableEq, Inhabited

namespace Token
namespace Kind

/-- Every kind, trivia first. -/
def all : List Kind :=
  [.whiteSpace, .lineBreak, .lineComment, .blockComment, .identifier, .keyword, .boolean, .null,
    .numeric, .string, .punctuator]

/-- The printed name of a kind. -/
def name : Kind → String
  | .whiteSpace   => "WhiteSpace"
  | .lineBreak    => "LineBreak"
  | .lineComment  => "LineComment"
  | .blockComment => "BlockComment"
  | .identifier   => "Identifier"
  | .keyword      => "Keyword"
  | .boolean      => "Boolean"
  | .null         => "Null"
  | .numeric      => "Numeric"
  | .string       => "String"
  | .punctuator   => "Punctuator"

/-- The kind of a given name. -/
def ofName? (s : String) : Option Kind := all.find? (·.name == s)

/-- Whitespace or a line break. -/
def isEmpty : Kind → Bool
  | .whiteSpace | .lineBreak => true
  | _ => false

/-- A line or block comment. -/
def isComment : Kind → Bool
  | .lineComment | .blockComment => true
  | _ => false

/-- What is neither empty nor a comment. -/
def isCode (k : Kind) : Bool := !k.isEmpty && !k.isComment

theorem mem_all (k : Kind) : k ∈ all := by cases k <;> decide

/-- **Names are read back**: `ofName?` inverts `name`. -/
theorem ofName?_name (k : Kind) : ofName? k.name = some k := by cases k <;> decide

end Kind

/-- Whether the token's text is exactly `s`. -/
def is (t : Token) (s : String) : Bool := t.text == s

/-- Whether the grammar sees the token. -/
def isCode (t : Token) : Bool := t.kind.isCode

/-- A whitespace token of `n` spaces. -/
def spaces (n : Nat) : Token := ⟨.whiteSpace, String.ofList (List.replicate n ' ')⟩

/-- A punctuator token. -/
def punctuator (s : String) : Token := ⟨.punctuator, s⟩

/-- The number of UTF-8 bytes of the token's text. -/
def size (t : Token) : Nat := t.text.utf8ByteSize

@[simp] theorem is_eq_true {t : Token} {s : String} : t.is s = true ↔ t.text = s := by
  simp [is]

end Token

/-- The text of a list of tokens: their texts one after the other. -/
def Token.source (ts : List Token) : String := String.join (ts.map Token.text)

end ScriptSpacing
