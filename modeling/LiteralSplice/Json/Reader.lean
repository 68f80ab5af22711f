/-
Reading JSON.

* **`Json.read`**: the value of a text, or the first place where the text is no JSON;
* **`Json.readDocument`**: the same for the text of a file, which must not begin with a byte
  order mark;
* **`Json.Fault`**: what stopped the reading, with line, column and position.

Design notes: a reader takes what is left of the text and returns a value with what is left
after it.  A place in the text is given by how much is left at it, and becomes a line and a
column only at the end, where the whole text is known.  The recursion is bounded by a number
computed from the length of the text: a value costs at most two steps per code point.  How deep
arrays and objects may be nested is another number, which goes down by one at each opening bracket;
it is asked for there, before anything else is looked at behind the bracket.  Escaped surrogates are
joined where a first and a second half stand next to each other; a half that was not written as an
escape never takes part.
-/
import LiteralSplice.Json.Stack
import LiteralSplice.Text.Integer

namespace LiteralSplice

namespace Json

/-- What was expected or refused at a place in the text. -/
inductive Reason where
  | value
  | name
  | colon
  | comma
  | extra
  | unterminated
  | control
  | escape
  | unicodeEscape
  | byteOrderMark
  deriving DecidableEq, Repr

def Reason.message : Reason → Text
  | .value => "Expecting value"
  | .name => "Expecting property name enclosed in double quotes"
  | .colon => "Expecting ':' delimiter"
  | .comma => "Expecting ',' delimiter"
  | .extra => "Extra data"
  | .unterminated => "Unterminated string starting at"
  | .control => "Invalid control character at"
  | .escape => "Invalid \\escape"
  | .unicodeEscape => "Invalid \\uXXXX escape"
  | .byteOrderMark => "Unexpected UTF-8 BOM (decode using utf-8-sig)"

/-- What opens with a bracket. -/
inductive Bracket where
  | array
  | object
  deriving DecidableEq, Repr

def Bracket.word : Bracket → Text
  | .array => "array"
  | .object => "object"

/-- What is more than can be read: an integer with so many digits, or one level of nesting. -/
inductive Excess where
  | digits (count : Nat)
  | nesting (bracket : Bracket)
  deriving DecidableEq, Repr

def Excess.message : Excess → Text
  | .digits count => Text.tooLongMessage count
  | .nesting bracket =>
    "maximum recursion depth exceeded while decoding a JSON " ++ bracket.word
      ++ " from a unicode string"

/-- Why reading stopped, and how much of the text was left there. -/
inductive Stop where
  | refused (reason : Reason) (left : Nat)
  | exceeded (excess : Excess)
  deriving DecidableEq, Repr

/-! ### Blanks and strings -/

/-- The four blanks that may stand between the parts of a value. -/
def isSpace (c : CodePoint) : Bool :=
  c == ' ' || c == '\t' || c == '\n' || c == '\r'

/-- What is left after the blanks. -/
def skip (t : Text) : Text := t.dropWhile isSpace

/-- The unit written by four hexadecimal digits. -/
def unit? (a b c d : CodePoint) : Option CodePoint := do
  let a ← a.hexValue?
  let b ← b.hexValue?
  let c ← c.hexValue?
  let d ← d.hexValue?
  return CodePoint.ofNat (((a * 16 + b) * 16 + c) * 16 + d)

/-- What a letter after a backslash stands for, `u` apart. -/
def escaped? (c : CodePoint) : Option CodePoint :=
  if c = '"' ∨ c = '\\' ∨ c = '/' then some c
  else if c = 'b' then some (CodePoint.ofNat 0x08)
  else if c = 'f' then some (CodePoint.ofNat 0x0C)
  else if c = 'n' then some '\n'
  else if c = 'r' then some '\r'
  else if c = 't' then some '\t'
  else none

/-- A code point of a string, and whether it was written as a `\u` escape. -/
structure Piece where
  code : CodePoint
  numbered : Bool
  deriving DecidableEq, Repr

/-- The text of the pieces of a string, with neighbouring escaped halves joined. -/
def joinPieces : List Piece → Text
  | [] => []
  | [p] => [p.code]
  | p :: q :: rest =>
    if p.numbered ∧ q.numbered ∧ p.code.isHighSurrogate ∧ q.code.isLowSurrogate then
      CodePoint.joinHalves p.code q.code :: joinPieces rest
    else p.code :: joinPieces (q :: rest)

/-- The pieces of a string up to its closing quote; `opening` is what was left at the opening
quote. -/
def stringPieces (opening : Nat) : Text → Except Stop (List Piece × Text)
  | [] => .error (.refused .unterminated opening)
  | c :: r =>
    if c = '"' then .ok ([], r)
    else if c = '\\' then
      match r with
      | [] => .error (.refused .unterminated opening)
      | e :: r' =>
        if e = 'u' then
          match r' with
          | h₁ :: h₂ :: h₃ :: h₄ :: next :: r'' =>
            match unit? h₁ h₂ h₃ h₄ with
            | some u => do
              let (pieces, rest) ← stringPieces opening (next :: r'')
              return (⟨u, true⟩ :: pieces, rest)
            | none => .error (.refused .unicodeEscape r.length)
          | _ => .error (.refused .unicodeEscape r.length)
        else
          match escaped? e with
          | some u => do
            let (pieces, rest) ← stringPieces opening r'
            return (⟨u, false⟩ :: pieces, rest)
          | none => .error (.refused .escape (r.length + 1))
    else if c.val < 0x20 then .error (.refused .control (r.length + 1))
    else do
      let (pieces, rest) ← stringPieces opening r
      return (⟨c, false⟩ :: pieces, rest)

/-- The string whose opening quote has just been passed. -/
def stringBody (t : Text) : Except Stop (Text × Text) := do
  let (pieces, rest) ← stringPieces (t.length + 1) t
  return (joinPieces pieces, rest)

/-! ### Numbers and words -/

/-- The decimal value of a list of ASCII digits. -/
def digitsValue (digits : Text) : Nat :=
  Text.ofDigits (digits.map (·.val - 0x30))

/-- The digits before the point: a single zero, or digits that start with another. -/
def wholeDigits (t : Text) : Text × Text :=
  match t with
  | c :: r =>
    if c = '0' then ([c], r)
    else (t.takeWhile CodePoint.isDigit, t.dropWhile CodePoint.isDigit)
  | [] => ([], [])

/-- The digits after a point, where a point with a digit follows. -/
def fractionDigits (t : Text) : Text × Text :=
  match t with
  | c :: r =>
    let digits := r.takeWhile CodePoint.isDigit
    if c = '.' ∧ digits ≠ [] then (digits, r.dropWhile CodePoint.isDigit) else ([], t)
  | [] => ([], [])

/-- The exponent, where a letter `e`, a sign at will and a digit follow. -/
def exponent? (t : Text) : Option Int × Text :=
  match t with
  | c :: r =>
    let (negative, r') : Bool × Text :=
      match r with
      | s :: r' => if s = '-' then (true, r') else if s = '+' then (false, r') else (false, r)
      | [] => (false, [])
    let digits := r'.takeWhile CodePoint.isDigit
    if (c = 'e' ∨ c = 'E') ∧ digits ≠ [] then
      let size : Int := digitsValue digits
      (some (if negative then -size else size), r'.dropWhile CodePoint.isDigit)
    else (none, t)
  | [] => (none, [])

/-- The longest number at the start of a text. -/
def number (t : Text) : Except Stop (Json × Text) :=
  let (negative, body) : Bool × Text :=
    match t with
    | c :: r => if c = '-' then (true, r) else (false, t)
    | [] => (false, [])
  let (whole, r₁) := wholeDigits body
  let (fraction, r₂) := fractionDigits r₁
  let (exponent, r₃) := exponent? r₂
  if whole = [] then .error (.refused .value t.length)
  else if fraction = [] ∧ exponent = none then
    if Text.digitLimit < whole.length then .error (.exceeded (.digits whole.length))
    else
      let size : Int := digitsValue whole
      .ok (int (if negative then -size else size), r₃)
  else
    .ok (float (Binary64.ofDecimal negative (digitsValue (whole ++ fraction))
      (exponent.getD 0 - fraction.length)), r₃)

/-- The words that stand for values. -/
def words : List (Text × Json) :=
  [("null", null), ("true", bool true), ("false", bool false), ("NaN", float .nan),
    ("Infinity", float (.infinite false)), ("-Infinity", float (.infinite true))]

/-- The word at the start of a text. -/
def word? (t : Text) : Option (Json × Text) :=
  (words.find? fun (w, _) => w.isPrefixOf t).map fun (w, v) => (v, t.drop w.length)

/-! ### Values -/

mutual

/-- The value at the start of a text, nested in no more than `levels` brackets. -/
def value : Nat → Nat → Text → Except Stop (Json × Text)
  | _, 0, t => .error (.refused .value t.length)
  | _, _ + 1, [] => .error (.refused .value 0)
  | levels, fuel + 1, c :: r =>
    if c = '"' then do
      let (s, rest) ← stringBody r
      return (string s, rest)
    else if c = '\x7b' then
      match levels with
      | 0 => .error (.exceeded (.nesting .object))
      | levels + 1 =>
        match skip r with
        | d :: rest =>
          if d = '\x7d' then .ok (object [], rest)
          else do
            let (ms, rest) ← members levels fuel (d :: rest)
            return (object (ms.foldl (fun ms (k, v) => insert ms k v) []), rest)
        | [] => .error (.refused .name 0)
    else if c = '[' then
      match levels with
      | 0 => .error (.exceeded (.nesting .array))
      | levels + 1 =>
        match skip r with
        | d :: rest =>
          if d = ']' then .ok (array [], rest)
          else do
            let (vs, rest) ← items levels fuel (d :: rest)
            return (array vs, rest)
        | [] => .error (.refused .value 0)
    else
      match word? (c :: r) with
      | some found => .ok found
      | none => number (c :: r)

/-- The items of an array from one of them on, up to the closing bracket. -/
def items : Nat → Nat → Text → Except Stop (List Json × Text)
  | _, 0, t => .error (.refused .value t.length)
  | levels, fuel + 1, t => do
    let (v, r) ← value levels fuel t
    match skip r with
    | d :: rest =>
      if d = ']' then return ([v], rest)
      else if d = ',' then
        let (vs, rest) ← items levels fuel (skip rest)
        return (v :: vs, rest)
      else .error (.refused .comma (rest.length + 1))
    | [] => .error (.refused .comma 0)

/-- The members of an object from one of them on, up to the closing brace. -/
def members : Nat → Nat → Text → Except Stop (List (Text × Json) × Text)
  | _, 0, t => .error (.refused .name t.length)
  | _, _ + 1, [] => .error (.refused .name 0)
  | levels, fuel + 1, c :: r =>
    if c = '"' then do
      let (k, r) ← stringBody r
      match skip r with
      | d :: rest =>
        if d = ':' then
          let (v, r) ← value levels fuel (skip rest)
          match skip r with
          | d :: rest =>
            if d = '\x7d' then return ([(k, v)], rest)
            else if d = ',' then
              let (ms, rest) ← members levels fuel (skip rest)
              return ((k, v) :: ms, rest)
            else .error (.refused .comma (rest.length + 1))
          | [] => .error (.refused .comma 0)
        else .error (.refused .colon (rest.length + 1))
      | [] => .error (.refused .colon 0)
    else .error (.refused .name (r.length + 1))

end

/-! ### Whole texts -/

/-- A place in a text: its line and column, both counted from one, and its position, counted
from zero. -/
structure Place where
  line : Nat
  column : Nat
  position : Nat
  deriving DecidableEq, Repr

/-- The place at a position. -/
def Place.of (t : Text) (position : Nat) : Place :=
  let before := t.take position
  let lineFeed := CodePoint.ofChar '\n'
  ⟨before.count lineFeed + 1, (before.reverse.takeWhile (· != lineFeed)).length + 1, position⟩

/-- Why a text is no JSON value. -/
inductive Fault where
  | malformed (reason : Reason) (place : Place)
  | exceeded (excess : Excess)
  deriving DecidableEq, Repr

def Fault.message : Fault → Text
  | .malformed reason place =>
    reason.message ++ ": line " ++ Text.ofNat place.line ++ " column " ++ Text.ofNat place.column
      ++ " (char " ++ Text.ofNat place.position ++ ")"
  | .exceeded excess => excess.message

/-- A stop within a text as a fault of the text. -/
def Stop.fault (t : Text) : Stop → Fault
  | .refused reason left => .malformed reason (Place.of t (t.length - left))
  | .exceeded excess => .exceeded excess

section

variable [Stack]

/-- The one value of a text, with blanks around it. -/
def read (t : Text) : Except Fault Json :=
  match value Stack.levels (2 * t.length + 2) (skip t) with
  | .error stop => .error (stop.fault t)
  | .ok (v, rest) =>
    match skip rest with
    | [] => .ok v
    | left => .error (Stop.fault t (.refused .extra left.length))

/-- The one value of a text that does not begin with a byte order mark. -/
def readDocument (t : Text) : Except Fault Json :=
  if t.head? = some (CodePoint.ofNat 0xFEFF) then
    .error (Stop.fault t (.refused .byteOrderMark t.length))
  else read t

end

end Json

end LiteralSplice
