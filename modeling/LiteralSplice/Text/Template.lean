/-
Templates: texts with places that are filled with values.

* **`Template.Value`**: what a place can show;
* **`Template.Style`**: how a place shows its value;
* **`Template.expand`**: a template with its places filled.

Design notes: a place starts with a percent sign and ends with the letter of a conversion.
Between the two may stand, in this order, the name of a field in parentheses, flags, a width, a
precision and a letter for a size, which is ignored.  A place without a name shows all fields, or
what is left of the value of the place before it: a value is shown once, and an asterisk for a
width or a precision uses it up too.  Two percent signs next to each other stand for one.
-/
import LiteralSplice.Text.Quoted

namespace LiteralSplice

namespace Template

/-! ### Values -/

/-- What a place can show. -/
inductive Value where
  | absent
  | flag (b : Bool)
  | text (t : Text)
  | list (ts : List Text)
  /-- Something else, of a kind, that is shown as it is. -/
  | thing (kind shown : Text)
  deriving DecidableEq, Repr

namespace Value

/-- What kind of value it is. -/
def kind : Value → Text
  | absent => "NoneType"
  | flag _ => "bool"
  | text _ => "str"
  | list _ => "list"
  | thing kind _ => kind

/-- A value with its texts between quotes. -/
def quoted : Value → Text
  | absent => "None"
  | flag true => "True"
  | flag false => "False"
  | text t => t.quoted
  | list ts => "[" ++ Text.join ", " (ts.map Text.quoted) ++ "]"
  | thing _ shown => shown

/-- A value as it is. -/
def display : Value → Text
  | text t => t
  | v => v.quoted

/-- The number that a value stands for, if it stands for one. -/
def number? : Value → Option Nat
  | flag b => some (if b then 1 else 0)
  | _ => none

/-- The values of all fields as one. -/
def ofFields (fields : List (Text × Value)) : Value :=
  let members := fields.map fun (name, v) => name.quoted ++ ": " ++ v.quoted
  .thing "dict" ("\x7b" ++ Text.join ", " members ++ "\x7d")

end Value

/-- Why a template cannot be filled. -/
inductive Fault where
  | incomplete
  | incompleteName
  | unknownField (name : Text)
  | unknownConversion (c : CodePoint) (position : Nat)
  | widthTooBig
  | precisionTooBig
  | precisionTooLarge
  | tooLong
  | notANumber (conversion : CodePoint) (kind : Text)
  | notAnInteger (conversion : CodePoint) (kind : Text)
  | notReal (kind : Text)
  | notACharacter
  | notACount
  | tooFewValues
  deriving DecidableEq, Repr

def Fault.message : Fault → Text
  | .incomplete => "incomplete format"
  | .incompleteName => "incomplete format key"
  | .unknownField name => name.quoted
  | .unknownConversion c position =>
    let shown : CodePoint := if 31 ≤ c.val ∧ c.val ≤ 126 then c else '?'
    let digits := max 1 ((List.range 8).filter fun n => Nat.pow 16 n ≤ c.val).length
    "unsupported format character '" ++ [shown] ++ "' (0x" ++ Text.hex digits c.val ++ ") at index "
      ++ Text.ofNat position
  | .widthTooBig => "width too big"
  | .precisionTooBig => "precision too big"
  | .precisionTooLarge => "precision too large"
  | .tooLong => []
  | .notANumber c kind => "%" ++ [c] ++ " format: a real number is required, not " ++ kind
  | .notAnInteger c kind => "%" ++ [c] ++ " format: an integer is required, not " ++ kind
  | .notReal kind => "must be real number, not " ++ kind
  | .notACharacter => "%c requires int or char"
  | .notACount => "* wants int"
  | .tooFewValues => "not enough arguments for format string"

/-! ### Showing a value -/

/-- How a place shows its value. -/
structure Style where
  leftmost : Bool
  plus : Bool
  blank : Bool
  marked : Bool
  zeros : Bool
  width : Nat
  precision : Option Nat
  deriving DecidableEq, Repr

/-- The greatest width, the greatest precision, and the greatest precision of an integer. -/
def widthLimit : Nat := 9223372036854775807
def precisionLimit : Nat := 2147483647
def digitsLimit : Nat := precisionLimit - 3

/-- The length from which on a text is too long to be held. -/
def lengthLimit : Nat := 4294967296

namespace Style

/-- What is lacking to the width asked for. -/
def padding (s : Style) (filler : CodePoint) (length : Nat) : Except Fault Text :=
  if lengthLimit ≤ s.width then .error .tooLong
  else .ok (List.replicate (s.width - length) filler)

/-- A text in a field of the width asked for. -/
def pad (s : Style) (t : Text) : Except Fault Text := do
  let gap ← s.padding ' ' t.length
  return if s.leftmost then t ++ gap else gap ++ t

/-- A number in a field of the width asked for: a sign, a mark that says how it is written, and
its digits. -/
def padNumber (s : Style) (mark digits : Text) : Except Fault Text :=
  let sign : Text := if s.plus then "+" else if s.blank then " " else []
  let lead := sign ++ mark
  if s.zeros && !s.leftmost then do
    let gap ← s.padding '0' (lead ++ digits).length
    return lead ++ gap ++ digits
  else s.pad (lead ++ digits)

/-- The beginning of a text, as long as the precision allows. -/
def cut (s : Style) (t : Text) : Text :=
  match s.precision with
  | some n => t.take n
  | none => t

/-- A number of at most one digit with places after a point. -/
def places (s : Style) (n count : Nat) : Text :=
  let point : Text := if 0 < count ∨ s.marked then "." else []
  [CodePoint.digit n] ++ point ++ List.replicate count (CodePoint.ofChar '0')

/-- A number of at most one digit as an integer, with a mark for its base if asked. -/
def integer (s : Style) (mark : Text) (n : Nat) : Except Fault Text :=
  let count := s.precision.getD 1
  if digitsLimit < count then .error .precisionTooLarge
  else
    let zeros := List.replicate (count - 1) (CodePoint.ofChar '0')
    s.padNumber (if s.marked then mark else []) (zeros ++ [CodePoint.digit n])

/-- A value as a conversion shows it; `position` is where the letter of the conversion stands. -/
def render (s : Style) (conversion : CodePoint) (position : Nat) (v : Value) : Except Fault Text :=
  let count := s.precision.getD 6
  let real (f : Nat → Text) : Except Fault Text :=
    match v.number? with
    | some n => s.padNumber [] (f n)
    | none => .error (.notReal v.kind)
  let whole (mark : Text) (fault : Fault) : Except Fault Text :=
    match v.number? with
    | some n => s.integer mark n
    | none => .error fault
  let inTens := whole [] (.notANumber conversion v.kind)
  let inBase (mark : Text) := whole mark (.notAnInteger conversion v.kind)
  let shortest (n : Nat) : Text := s.places n (if s.marked then max 1 count - 1 else 0)
  if conversion = 's' then s.pad (s.cut v.display)
  else if conversion = 'r' then s.pad (s.cut v.quoted)
  else if conversion = 'a' then s.pad (s.cut v.quoted.inAscii)
  else if conversion = 'd' ∨ conversion = 'i' ∨ conversion = 'u' then inTens
  else if conversion = 'o' then inBase "0o"
  else if conversion = 'x' then inBase "0x"
  else if conversion = 'X' then inBase "0X"
  else if conversion = 'e' then real fun n => s.places n count ++ "e+00"
  else if conversion = 'E' then real fun n => s.places n count ++ "E+00"
  else if conversion = 'f' ∨ conversion = 'F' then real fun n => s.places n count
  else if conversion = 'g' ∨ conversion = 'G' then real shortest
  else if conversion = 'c' then
    match v.number? with
    | some n => s.pad [CodePoint.ofNat n]
    | none => .error .notACharacter
  else .error (.unknownConversion conversion position)

end Style

/-! ### Reading a place -/

/-- The value for what comes next, and whether it has been used up. -/
structure Supply where
  value : Value
  used : Bool

/-- The value, which is used up by taking it. -/
def Supply.take (s : Supply) : Except Fault (Value × Supply) :=
  if s.used then .error .tooFewValues else .ok (s.value, { s with used := true })

/-- A name up to the parenthesis that closes it, and what follows; `depth` parentheses are open
inside the name. -/
def readName? (depth : Nat) : Text → Option (Text × Text)
  | [] => none
  | c :: rest =>
    let more (depth : Nat) := (readName? depth rest).map fun (name, rest) => (c :: name, rest)
    if c = '(' then more (depth + 1)
    else if c = ')' then
      match depth with
      | 0 => some ([], rest)
      | depth + 1 => more depth
    else more depth

/-- A number up to a limit: in digits, or taken from the supply for an asterisk. -/
def readCount (limit : Nat) (tooBig : Fault) (s : Supply) (t : Text) :
    Except Fault (Option Nat × Supply × Text) :=
  let digits := t.takeWhile CodePoint.isDigit
  let n := digits.foldl (fun n c => 10 * n + (c.val - 0x30)) 0
  match t with
  | c :: rest =>
    if c = '*' then do
      let (v, s) ← s.take
      match v.number? with
      | some n => return (some n, s, rest)
      | none => .error .notACount
    else if digits.isEmpty then .ok (none, s, t)
    else if limit < n then .error tooBig
    else .ok (some n, s, t.drop digits.length)
  | [] => .ok (none, s, [])

/-- A precision after its point; none after it is a precision of zero. -/
def readPrecision (s : Supply) (t : Text) : Except Fault (Option Nat × Supply × Text) :=
  match t with
  | c :: rest =>
    if c = '.' then do
      let (n, s, rest) ← readCount precisionLimit .precisionTooBig s rest
      return (some (n.getD 0), s, rest)
    else .ok (none, s, t)
  | [] => .ok (none, s, [])

/-- A letter for a size is left out. -/
def skipSize : Text → Text
  | c :: rest => if ("hlL" : Text).contains c then rest else c :: rest
  | [] => []

/-- What a place shows, given what follows its percent sign in a template of a given length; the
supply and the text that are left. -/
def readPlace (length : Nat) (fields : List (Text × Value)) (s : Supply) (t : Text) :
    Except Fault (Text × Supply × Text) := do
  let (s, t) ←
    match t with
    | c :: rest =>
      if c = '(' then
        match readName? 0 rest with
        | none => .error .incompleteName
        | some (name, rest) =>
          match fields.lookup name with
          | none => .error (.unknownField name)
          | some v => .ok (⟨v, false⟩, rest)
      else .ok (s, t)
    | [] => .ok (s, [])
  let flags := t.takeWhile fun c => ("-+ #0" : Text).contains c
  let has (flag : CodePoint) : Bool := flags.contains flag
  let (width, s, t) ← readCount widthLimit .widthTooBig s (t.drop flags.length)
  let (precision, s, t) ← readPrecision s t
  let style : Style :=
    ⟨has '-', has '+', has ' ', has '#', has '0', width.getD 0, precision⟩
  match skipSize t with
  | [] => .error .incomplete
  | conversion :: rest =>
    let (v, s) ← s.take
    return (← style.render conversion (length - rest.length - 1) v, s, rest)

/-- Goes through a template; every turn takes at least one code point. -/
def expandFrom (length : Nat) (fields : List (Text × Value)) :
    Nat → Supply → Text → Except Fault Text
  | 0, _, _ => .ok []
  | _ + 1, _, [] => .ok []
  | fuel + 1, s, c :: rest =>
    if c ≠ '%' then do return c :: (← expandFrom length fields fuel s rest)
    else if rest.head? = some (CodePoint.ofChar '%') then do
      return "%" ++ (← expandFrom length fields fuel s (rest.drop 1))
    else do
      let (shown, s, rest) ← readPlace length fields s rest
      return shown ++ (← expandFrom length fields fuel s rest)

/-- A template with its places filled. -/
def expand (fields : List (Text × Value)) (t : Text) : Except Fault Text :=
  expandFrom t.length fields t.length ⟨.ofFields fields, false⟩ t

end Template

end LiteralSplice
