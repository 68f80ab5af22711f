/-
Texts in units of two and four bytes.

* **`Utf16.decode?`**: the text of bytes in UTF-16;
* **`Utf32.decode?`**: the text of bytes in UTF-32.

Design notes: a surrogate that is half of no pair is let through.  What is refused is a unit
that lacks bytes, and a number beyond the last code point.
-/
import LiteralSplice.Text.Utf8

namespace LiteralSplice

/-- Which byte of a unit comes first. -/
inductive Endian where
  | little
  | big
  deriving DecidableEq, Repr

namespace Utf16

/-- The units of a byte sequence. -/
def units? (order : Endian) : Bytes → Option Text
  | [] => some []
  | [_] => none
  | a :: b :: rest =>
    let (high, low) :=
      match order with
      | .big => (a, b)
      | .little => (b, a)
    (units? order rest).map (CodePoint.ofNat (high.toNat * 0x100 + low.toNat) :: ·)

/-- Units with the halves of each pair joined. -/
def join : Text → Text
  | [] => []
  | [c] => [c]
  | c :: d :: rest =>
    if c.isHighSurrogate ∧ d.isLowSurrogate then CodePoint.joinHalves c d :: join rest
    else c :: join (d :: rest)

/-- The text of a byte sequence. -/
def decode? (order : Endian) (bytes : Bytes) : Option Text := (units? order bytes).map join

end Utf16

namespace Utf32

/-- The text of a byte sequence. -/
def decode? (order : Endian) : Bytes → Option Text
  | [] => some []
  | a :: b :: c :: d :: rest =>
    let n :=
      match order with
      | .big => ((a.toNat * 0x100 + b.toNat) * 0x100 + c.toNat) * 0x100 + d.toNat
      | .little => ((d.toNat * 0x100 + c.toNat) * 0x100 + b.toNat) * 0x100 + a.toNat
    if n < 0x110000 then (decode? order rest).map (CodePoint.ofNat n :: ·) else none
  | _ => none

end Utf32

end LiteralSplice
