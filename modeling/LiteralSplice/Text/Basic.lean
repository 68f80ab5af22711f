/-
Code points and texts.

A `Text` is a sequence of Unicode code points.  Surrogates are code points like any other:
a text read from an escape such as `\ud800` holds one, and only an encoder may refuse it.

* **`CodePoint`**: a number below `0x110000`;
* **`Text`**: a list of code points, so that the lemmas on lists are the lemmas on texts;
* **`Text.ofString`**, **`Text.asString`**: between strings and texts;
* **`Text.ofNat`**, **`Text.ofInt`**: numbers in decimal;
* **`Text.hex`**, **`Text.hexUpper`**: a fixed number of hexadecimal digits;
* **`Text.split`**, **`Text.join`**: pieces between separators, and back.

Design notes: string literals coerce to `Text`, so that a message is written as a
concatenation of literals and texts.  Order is by code point (`Text.lt`), which is the order
in which names are listed wherever a list of names is printed.
-/

namespace LiteralSplice

/-- A Unicode code point, surrogates included. -/
abbrev CodePoint := Fin 0x110000

namespace CodePoint

/-- The code point of a character. -/
def ofChar (c : Char) : CodePoint :=
  ⟨c.toNat, by
    have h : c.toNat < 0xd800 ∨ 0xdfff < c.toNat ∧ c.toNat < 0x110000 := c.valid
    omega⟩

instance : Coe Char CodePoint := ⟨ofChar⟩

/-- A surrogate: half of a pair of UTF-16 units, and no character by itself. -/
def isSurrogate (c : CodePoint) : Bool :=
  0xD800 ≤ c.val && c.val ≤ 0xDFFF

/-- The first half of a surrogate pair. -/
def isHighSurrogate (c : CodePoint) : Bool :=
  0xD800 ≤ c.val && c.val ≤ 0xDBFF

/-- The second half of a surrogate pair. -/
def isLowSurrogate (c : CodePoint) : Bool :=
  0xDC00 ≤ c.val && c.val ≤ 0xDFFF

/-- A digit `0` to `9`. -/
def isDigit (c : CodePoint) : Bool :=
  0x30 ≤ c.val && c.val ≤ 0x39

/-- Printable ASCII, from the space to the tilde. -/
def isPrintableAscii (c : CodePoint) : Bool :=
  0x20 ≤ c.val && c.val ≤ 0x7E

/-- The code point of a number; a number beyond the last code point wraps around. -/
def ofNat (n : Nat) : CodePoint := Fin.ofNat 0x110000 n

/-- The code point that the two halves of a surrogate pair stand for. -/
def joinHalves (high low : CodePoint) : CodePoint :=
  ofNat (0x10000 + (high.val - 0xD800) * 0x400 + (low.val - 0xDC00))

/-- The decimal digit for a number below ten. -/
def digit (n : Nat) : CodePoint := ofNat (0x30 + n)

/-- The value of a hexadecimal digit with capital letters. -/
def hexUpperValue? (c : CodePoint) : Option Nat :=
  if 0x30 ≤ c.val ∧ c.val ≤ 0x39 then some (c.val - 0x30)
  else if 0x41 ≤ c.val ∧ c.val ≤ 0x46 then some (c.val - 0x37)
  else none

/-- The value of a hexadecimal digit with capital or small letters. -/
def hexValue? (c : CodePoint) : Option Nat :=
  if 0x61 ≤ c.val ∧ c.val ≤ 0x66 then some (c.val - 0x57) else c.hexUpperValue?

/-- An ASCII capital letter becomes its small letter; every other code point stays. -/
def lowerAscii (c : CodePoint) : CodePoint :=
  if 0x41 ≤ c.val ∧ c.val ≤ 0x5A then ofNat (c.val + 0x20) else c

end CodePoint

/-- A sequence of code points. -/
abbrev Text := List CodePoint

namespace Text

/-- The code points of a string. -/
def ofString (s : String) : Text := s.toList.map CodePoint.ofChar

instance : Coe String Text := ⟨ofString⟩

/-- The string of a text; a surrogate, which no string can hold, becomes the zero character. -/
def asString (t : Text) : String := String.ofList (t.map fun c => Char.ofNat c.val)

/-- The digits of a number, most significant first. -/
def ofNat (n : Nat) : Text :=
  if n < 10 then [CodePoint.digit n] else ofNat (n / 10) ++ [CodePoint.digit (n % 10)]

/-- A number in decimal, with a minus sign where it is negative. -/
def ofInt : Int → Text
  | .ofNat n => ofNat n
  | .negSucc n => "-" ++ ofNat (n + 1)

/-- The digit of a number below sixteen, with small or capital letters. -/
def hexDigit (capital : Bool) (n : Nat) : CodePoint :=
  if n < 10 then CodePoint.digit n
  else CodePoint.ofNat ((if capital then 0x41 else 0x61) + (n - 10))

/-- The lowest `width` hexadecimal digits of a number. -/
def hexDigits (capital : Bool) : Nat → Nat → Text
  | 0, _ => []
  | width + 1, n => hexDigits capital width (n / 16) ++ [hexDigit capital (n % 16)]

/-- Hexadecimal digits with small letters. -/
def hex (width n : Nat) : Text := hexDigits false width n

/-- Hexadecimal digits with capital letters. -/
def hexUpper (width n : Nat) : Text := hexDigits true width n

/-- Texts in order of their first different code point, a beginning before its continuations. -/
def lt (a b : Text) : Bool :=
  match a, b with
  | _, [] => false
  | [], _ :: _ => true
  | x :: a', y :: b' => x.val < y.val || (x == y && lt a' b')

/-- Texts one after the other with a separator between them. -/
def join (separator : Text) (pieces : List Text) : Text :=
  separator.intercalate pieces

/-- The pieces between occurrences of a code point; there is always at least one. -/
def split (separator : CodePoint) : Text → List Text
  | [] => [[]]
  | c :: r =>
    if c = separator then [] :: split separator r
    else
      match split separator r with
      | [] => [[c]]
      | piece :: pieces => (c :: piece) :: pieces

/-- The text with every ASCII capital letter made small. -/
def lowerAscii (t : Text) : Text := t.map CodePoint.lowerAscii

/-- What stands before and after the last occurrence of a code point. -/
def splitLast? (separator : CodePoint) : Text → Option (Text × Text)
  | [] => none
  | c :: r =>
    match splitLast? separator r with
    | some (before, after) => some (c :: before, after)
    | none => if c = separator then some ([], r) else none

/-- What stands before and after the first occurrence of a code point. -/
def splitFirst? (separator : CodePoint) : Text → Option (Text × Text)
  | [] => none
  | c :: r =>
    if c = separator then some ([], r)
    else (splitFirst? separator r).map fun (before, after) => (c :: before, after)

end Text

end LiteralSplice
