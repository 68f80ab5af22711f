/-
Quoted texts: how a text is shown inside a message.

* **`Text.quoted`**: a text between quotes, with everything that does not print written out;
* **`Text.inAscii`**: a text with everything beyond ASCII written out.

Design notes: the quote is the apostrophe, unless the text holds apostrophes and no double
quotes; so at most one of the two kinds is ever escaped.
-/
import LiteralSplice.Text.Printable

namespace LiteralSplice

namespace Text

/-- The quote that surrounds a text. -/
def quoteOf (t : Text) : CodePoint :=
  if t.contains '\'' && !t.contains '"' then '"' else '\''

/-- The number of a code point behind a backslash. -/
def numbered (c : CodePoint) : Text :=
  if c.val < 0x100 then "\\x" ++ hex 2 c.val
  else if c.val < 0x10000 then "\\u" ++ hex 4 c.val
  else "\\U" ++ hex 8 c.val

/-- How one code point is written between the given quotes. -/
def quotedOne (quote c : CodePoint) : Text :=
  if c = quote ∨ c = '\\' then ['\\', c]
  else if c = '\n' then "\\n"
  else if c = '\r' then "\\r"
  else if c = '\t' then "\\t"
  else if c.isPrintable then [c]
  else numbered c

/-- A text between quotes. -/
def quoted (t : Text) : Text :=
  let quote := quoteOf t
  quote :: t.flatMap (quotedOne quote) ++ [quote]

/-- A text with everything beyond ASCII written out. -/
def inAscii (t : Text) : Text := t.flatMap fun c => if c.val < 0x80 then [c] else numbered c

end Text

end LiteralSplice
