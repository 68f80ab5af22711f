/-
Names of files as the system stores them.

* **`CodePoint.escapesByte`**: a surrogate that stands for a single byte;
* **`FileName.bytes`**, **`FileName.size`**: the bytes of a name, and how many they are;
* **`FileName.bytelessRun?`**: the first surrogates of a name that have no bytes.

Design notes: the system knows bytes, not texts.  A byte that is no part of a character is read as a
surrogate of its own, from `U+DC80` on, so that every name can be read, and goes back to that byte.
A text in which such surrogates stand for the bytes of a character is another name of what the text
with that character names.  The other surrogates come from texts only, and a name that holds one of
them is the name of nothing.
-/
import LiteralSplice.Text.Utf8

namespace LiteralSplice

/-- A surrogate that stands for a byte which is no part of a character. -/
def CodePoint.escapesByte (c : CodePoint) : Bool := 0xDC80 ≤ c.val && c.val ≤ 0xDCFF

namespace FileName

/-- Whether no bytes stand for a code point. -/
def isByteless (c : CodePoint) : Bool := c.isSurrogate && !c.escapesByte

/-- The bytes of a code point in a name. -/
def bytesOf (c : CodePoint) : Bytes :=
  if c.escapesByte then [UInt8.ofNat (c.val - 0xDC00)] else Utf8.bytesOf c

/-- The bytes of a name. -/
def bytes (t : Text) : Bytes := t.flatMap bytesOf

/-- How many bytes a name has. -/
def size (t : Text) : Nat := (bytes t).length

/-- The first surrogates of a name that have no bytes. -/
def bytelessRun? : Text → Option Utf8.SurrogateRun := Utf8.firstRun? isByteless

end FileName

end LiteralSplice
