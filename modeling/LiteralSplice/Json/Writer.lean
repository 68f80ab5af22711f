/-
Writing JSON.

* **`Json.Written.quote`**: a text between double quotes, with quotes, backslashes and control
  characters escaped and everything else kept;
* **`Json.compact`**: a value without any blanks;
* **`Json.indented`**: a value with one item or member per line and two blanks per level.

Design notes: integers are written with all their digits, however many there are.  A writer that
turns no integer of more than 4300 digits into text, as the reader turns no such text into an
integer, fails for one with an error of its own.  No value that has been read holds such an integer;
only the numbers of a layout that was made by hand can be that long.
-/
import LiteralSplice.Json.Value

namespace LiteralSplice

namespace Json

namespace Written

/-- How one code point of a string is written. -/
def escape (c : CodePoint) : Text :=
  if c = '"' then "\\\""
  else if c = '\\' then "\\\\"
  else if c = '\n' then "\\n"
  else if c = '\r' then "\\r"
  else if c = '\t' then "\\t"
  else if c.val = 0x08 then "\\b"
  else if c.val = 0x0C then "\\f"
  else if c.val < 0x20 then "\\u" ++ Text.hex 4 c.val
  else [c]

/-- A string between its quotes. -/
def quote (t : Text) : Text :=
  "\"" ++ t.flatMap escape ++ "\""

/-- A binary number: its shortest decimal text, or a word where it has none. -/
def number : Binary64 → Text
  | .nan => "NaN"
  | .infinite false => "Infinity"
  | .infinite true => "-Infinity"
  | x => x.text

/-- How the pieces of an array or object are set apart. -/
structure Layout where
  /-- Between a key and its value. -/
  afterKey : Text
  /-- Whether each item starts a line of its own. -/
  spread : Bool

/-- Pieces between brackets, at a given depth. -/
def Layout.enclose (layout : Layout) (depth : Nat) (opening closing : CodePoint)
    (pieces : List Text) : Text :=
  let line (depth : Nat) : Text := CodePoint.ofChar '\n' :: List.replicate (2 * depth) ' '
  match pieces with
  | [] => [opening, closing]
  | _ =>
    if layout.spread then
      opening :: line (depth + 1) ++ Text.join ("," ++ line (depth + 1)) pieces
        ++ line depth ++ [closing]
    else opening :: Text.join "," pieces ++ [closing]

mutual

/-- A value in a layout, at a given depth; its integers may have any number of digits. -/
def write (layout : Layout) (depth : Nat) : Json → Text
  | null => "null"
  | bool true => "true"
  | bool false => "false"
  | int n => Text.ofInt n
  | float x => number x
  | string t => quote t
  | array items => layout.enclose depth '[' ']' (writeItems layout (depth + 1) items)
  | object members =>
    layout.enclose depth '\x7b' '\x7d' (writeMembers layout (depth + 1) members)

/-- The items of an array, each written. -/
def writeItems (layout : Layout) (depth : Nat) : List Json → List Text
  | [] => []
  | v :: rest => write layout depth v :: writeItems layout depth rest

/-- The members of an object, each written. -/
def writeMembers (layout : Layout) (depth : Nat) : List (Text × Json) → List Text
  | [] => []
  | (k, v) :: rest =>
    (quote k ++ layout.afterKey ++ write layout depth v) :: writeMembers layout depth rest

end

end Written

/-- A value without blanks between its parts. -/
def compact (v : Json) : Text := Written.write ⟨":", false⟩ 0 v

/-- A value with each item and member on a line of its own. -/
def indented (v : Json) : Text := Written.write ⟨": ", true⟩ 0 v

end Json

end LiteralSplice
