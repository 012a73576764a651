import ScriptSpacing.Decimal.Binary64
import ScriptSpacing.Json.Cursor
import ScriptSpacing.Text.Class

/-!
# `Json.Number` — numbers

A number is read as an integer when it is written as one and 64 bits hold it, and otherwise as the
binary number that its digits come to. Digits that the 64-bit significand has no room for only move the
exponent. `-0` is no integer, since only the other form keeps its sign.
-/

namespace ScriptSpacing
namespace Json
open Text

/-- A number as it was read. -/
inductive Number where
  /-- an integer without a sign, below `2 ^ 64` -/
  | unsigned (n : Nat)
  /-- a negative integer, from `-2 ^ 63` on -/
  | negative (n : Int)
  | float (isNegative : Bool) (magnitude : Binary64)
deriving Repr, DecidableEq, Inhabited

/-- The value of a decimal digit. -/
def digitValue (c : Char) : Nat := c.toNat - '0'.toNat

/-- Takes digits into a significand below `limit` as long as it stays there; gives the digits that found
    no room. -/
def absorb (limit : Nat) (significand : Nat) : List Char → Nat × List Char
  | d :: ds =>
    if significand * 10 + digitValue d < limit then
      absorb limit (significand * 10 + digitValue d) ds
    else (significand, d :: ds)
  | [] => (significand, [])

/-- The significand's limit. -/
def significandLimit : Nat := Nat.pow 2 64

/-- The largest magnitude of a negative integer of 64 bits. -/
def signLimit : Nat := Nat.pow 2 63

/-- The exponent's limit. -/
def exponentLimit : Nat := Nat.pow 2 31

/-- The digits at the cursor, and the cursor after them. -/
def digits (k : Cursor) : List Char × Cursor :=
  (k.rest.takeWhile isDigit, k.skipWhile isDigit)

/-- Whether an exponent begins at the cursor. -/
def atExponent (k : Cursor) : Bool := k.peek? = some 'e' || k.peek? = some 'E'

/-- The number with these parts. -/
def ofParts (isNegative : Bool) (significand : Nat) (exponent : Int) (k : Cursor) : Result Number :=
  match Binary64.ofParts? significand exponent with
  | some x => .ok (.float isNegative x, k)
  | none   => k.fault .numberOutOfRange

/-- The sign of an exponent, `true` for minus, and the cursor after it. -/
def exponentSign (k : Cursor) : Bool × Cursor :=
  match k.peek? with
  | some '+' => (false, k.advance)
  | some '-' => (true, k.advance)
  | _        => (false, k)

/-- Reads an exponent, its mark being next, and gives the number. An exponent beyond its limit makes zero
    of a number unless the number is beyond all bounds. -/
def readExponent (isNegative : Bool) (significand : Nat) (exponent : Int) (k : Cursor) :
    Result Number :=
  let (down, k) := exponentSign k.advance
  match k.peek? with
  | none => k.fault .endInValue
  | some c =>
    if isDigit c then
      let (ds, after) := digits k
      let (power, excess) := absorb exponentLimit 0 ds
      if excess.isEmpty then
        ofParts isNegative significand (if down then exponent - power else exponent + power) after
      else if significand ≠ 0 && !down then
        .error ⟨.numberOutOfRange, k.index + (ds.length - excess.length) + 1⟩
      else .ok (.float isNegative .zero, after)
    else .error ⟨.invalidNumber, k.index + 1⟩

/-- Reads a fraction, its point being next, and an exponent if one follows. -/
def readFraction (isNegative : Bool) (significand : Nat) (exponent : Int) (k : Cursor) :
    Result Number :=
  let k := k.advance
  let (ds, after) := digits k
  if ds.isEmpty then
    if k.rest.isEmpty then k.fault .endInValue else k.faultAtNext .invalidNumber
  else
    let (significand, excess) := absorb significandLimit significand ds
    let exponent := exponent - (ds.length - excess.length : Nat)
    if atExponent after then readExponent isNegative significand exponent after
    else ofParts isNegative significand exponent after

/-- The number of an integer of which `excess` digits found no room. -/
def ofInteger (isNegative : Bool) (significand excess : Nat) (k : Cursor) : Result Number :=
  if excess ≠ 0 then ofParts isNegative significand excess k
  else if !isNegative then .ok (.unsigned significand, k)
  else if significand = 0 || signLimit < significand then ofParts isNegative significand 0 k
  else .ok (.negative (-significand), k)

/-- What follows the integer digits of a number. -/
def readAfterInteger (isNegative : Bool) (significand excess : Nat) (k : Cursor) : Result Number :=
  if k.peek? = some '.' then readFraction isNegative significand excess k
  else if atExponent k then readExponent isNegative significand excess k
  else ofInteger isNegative significand excess k

/-- Reads a number whose sign has been read. -/
def readNumber (isNegative : Bool) (k : Cursor) : Result Number :=
  match k.peek? with
  | none => k.fault .endInValue
  | some c =>
    if c = '0' then
      let k := k.advance
      if k.peek?.any isDigit then k.faultAtNext .invalidNumber
      else readAfterInteger isNegative 0 0 k
    else if isDigit c then
      let (ds, after) := digits k
      let (significand, excess) := absorb significandLimit 0 ds
      readAfterInteger isNegative significand excess.length after
    else .error ⟨.invalidNumber, k.index + 1⟩

/-! ## Passing over a number -/

/-- Passes over an exponent, its mark being next. -/
def skipExponent (k : Cursor) : Except (Placed Fault) Cursor :=
  let k := (exponentSign k.advance).2
  if k.peek?.any isDigit then .ok (k.skipWhile isDigit) else k.faultAtNext .invalidNumber

/-- Passes over a fraction, its point being next, and an exponent if one follows. -/
def skipFraction (k : Cursor) : Except (Placed Fault) Cursor :=
  let k := k.advance
  if k.peek?.any isDigit then
    let k := k.skipWhile isDigit
    if atExponent k then skipExponent k else .ok k
  else k.faultAtNext .invalidNumber

/-- Passes over what follows the integer digits of a number. -/
def skipAfterInteger (k : Cursor) : Except (Placed Fault) Cursor :=
  if k.peek? = some '.' then skipFraction k
  else if atExponent k then skipExponent k
  else .ok k

/-- Passes over a number whose sign has been read. -/
def skipNumber (k : Cursor) : Except (Placed Fault) Cursor :=
  match k.peek? with
  | some c =>
    if c = '0' then
      if k.advance.peek?.any isDigit then k.advance.faultAtNext .invalidNumber
      else skipAfterInteger k.advance
    else if isDigit c then skipAfterInteger (k.skipWhile isDigit)
    else k.faultAtNext .invalidNumber
  | none => k.faultAtNext .invalidNumber

end Json
end ScriptSpacing
