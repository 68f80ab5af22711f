/-
Integers written in text.

* **`Text.readInteger`**: the integer that a text spells, blanks around it and digits of any
  script allowed;
* **`Text.digitLimit`**: the greatest number of digits that is converted;
* **`Text.shownLimit`**: how much of a text that is no integer is shown.

Design notes: a single underscore may stand between two digits.  The length of a number is
looked at as soon as its digits end, so a number that is too long is reported as such even
where something else follows it.  A text that is no integer is quoted in the message, and what
goes beyond the limit is cut off, the closing quote included.
-/
import LiteralSplice.Text.Blank
import LiteralSplice.Text.DecimalDigit
import LiteralSplice.Text.Quoted

namespace LiteralSplice

namespace Text

/-- The greatest number of digits an integer may have. -/
def digitLimit : Nat := 4300

/-- How much of a quoted text is shown in the message about it. -/
def shownLimit : Nat := 200

/-- Why a text is no integer. -/
inductive IntegerFault where
  | malformed (text : Text)
  | tooLong (digits : Nat)
  deriving DecidableEq, Repr

/-- The message about a number with more digits than are converted. -/
def tooLongMessage (digits : Nat) : Text :=
  "Exceeds the limit (" ++ ofNat digitLimit ++ " digits) for integer string conversion: value has "
    ++ ofNat digits ++ " digits; use sys.set_int_max_str_digits() to increase the limit"

def IntegerFault.message : IntegerFault → Text
  | .malformed t => "invalid literal for int() with base 10: " ++ (quoted t).take shownLimit
  | .tooLong digits => tooLongMessage digits

/-- The blanks that may surround an integer: all but the ASCII separators. -/
def isMargin (c : CodePoint) : Bool :=
  c.isBlank && !(0x1C ≤ c.val && c.val ≤ 0x1F)

/-- The number that a list of decimal digits spells, most significant first. -/
def ofDigits (digits : List Nat) : Nat :=
  digits.foldl (fun n d => 10 * n + d) 0

/-- The integer that a text spells. -/
def readInteger (t : Text) : Except IntegerFault Int :=
  let core := trimBy isMargin t
  let (negative, body) :=
    match core with
    | c :: r => if c = '-' then (true, r) else if c = '+' then (false, r) else (false, core)
    | [] => (false, [])
  let inNumber (c : CodePoint) : Bool := c.decimal?.isSome || c == '_'
  let number := body.takeWhile inNumber
  let digits := number.filterMap CodePoint.decimal?
  if (split '_' number).any List.isEmpty then .error (.malformed t)
  else if digitLimit < digits.length then .error (.tooLong digits.length)
  else if !(body.dropWhile inNumber).isEmpty then .error (.malformed t)
  else .ok (if negative then -(ofDigits digits : Int) else ofDigits digits)

end Text

end LiteralSplice
