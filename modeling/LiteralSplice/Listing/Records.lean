/-
Records: the lines of a listing file.

* **`Records.ofText`**: the records of a text;
* **`Records.ofBytes`**: those of a file in UTF-8;
* **`Records.nonblank`**: the records that are not blank.

Design notes: a record ends at a line feed, and a carriage return right before the line feed
belongs to the end.  Nothing else ends a record: a lone carriage return, a form feed and the
separators of Unicode stay inside.  A line feed at the end of the text ends the last record and
starts no other, and the empty text has no record at all.
-/
import LiteralSplice.Text.Blank
import LiteralSplice.Text.Utf8

namespace LiteralSplice

namespace Records

/-- The text with a line feed alone wherever a carriage return stood before it. -/
def dropReturns : Text → Text
  | [] => []
  | [c] => [c]
  | c :: d :: rest =>
    if c = '\r' ∧ d = '\n' then d :: dropReturns rest else c :: dropReturns (d :: rest)

/-- The text without a line feed at its very end. -/
def dropFinalFeed (t : Text) : Text :=
  if t.getLast? = some (CodePoint.ofChar '\n') then t.dropLast else t

/-- The records of a text. -/
def ofText (t : Text) : List Text :=
  match dropReturns t with
  | [] => []
  | t => (dropFinalFeed t).split '\n'

/-- The records of a file in UTF-8. -/
def ofBytes (bytes : Bytes) : Except Utf8.Fault (List Text) := do
  let t ← Utf8.decode bytes
  return ofText t

/-- The records that are not blank. -/
def nonblank (records : List Text) : List Text := records.filter fun t => !t.isBlank

end Records

end LiteralSplice
