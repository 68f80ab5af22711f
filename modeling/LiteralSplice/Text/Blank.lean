/-
Blanks: the white space that is trimmed from a text.

* **`CodePoint.isBlank`**: the white space of Unicode, with the four ASCII separators;
* **`Text.trim`**: a text without the blanks at either end;
* **`Text.isBlank`**: a text of blanks alone.
-/
import LiteralSplice.Text.Basic

namespace LiteralSplice

/-- White space: controls `09`-`0d`, the ASCII separators `1c`-`1f`, the space, next line, and
the spaces and separators beyond ASCII. -/
def CodePoint.isBlank (c : CodePoint) : Bool :=
  let n := c.val
  (0x09 ≤ n && n ≤ 0x0D) || (0x1C ≤ n && n ≤ 0x20) || n == 0x85 || n == 0xA0 || n == 0x1680 ||
    (0x2000 ≤ n && n ≤ 0x200A) || n == 0x2028 || n == 0x2029 || n == 0x202F || n == 0x205F ||
    n == 0x3000

namespace Text

/-- A text of blanks alone, the empty text included. -/
def isBlank (t : Text) : Bool := t.all CodePoint.isBlank

/-- A text without the code points of a class at either end. -/
def trimBy (p : CodePoint → Bool) (t : Text) : Text :=
  ((t.dropWhile p).reverse.dropWhile p).reverse

/-- A text without the blanks at either end. -/
def trim (t : Text) : Text := trimBy CodePoint.isBlank t

end Text

end LiteralSplice
