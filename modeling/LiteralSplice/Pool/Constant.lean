/-
String constants: bytes written with printable characters.

* **`Constant.escape`**, **`Constant.body`**: bytes as the body of a constant;
* **`Constant.unescape?`**: the bytes of a body;
* **`Constant.encode`**: the body and the size of the constant for a text.

Design notes: a constant holds the UTF-8 bytes of its text and a zero byte after them, which
counts towards its size.  A byte that is printable ASCII stands for itself; a double quote, a
backslash and every other byte is a backslash with two capital hexadecimal digits.
-/
import LiteralSplice.Text.Utf8

namespace LiteralSplice

namespace Constant

/-- Whether a byte stands for itself. -/
def isPlain (b : UInt8) : Bool :=
  0x20 ≤ b.toNat && b.toNat ≤ 0x7E && b != 0x22 && b != 0x5C

/-- How one byte is written. -/
def escape (b : UInt8) : Text :=
  if isPlain b then [CodePoint.ofNat b.toNat] else "\\" ++ Text.hexUpper 2 b.toNat

/-- The body of a constant. -/
def body (bytes : Bytes) : Text := bytes.flatMap escape

/-- The bytes of a body: two digits after a backslash are one byte, any other ASCII character
is its own. -/
def unescape? : Text → Option Bytes
  | [] => some []
  | c :: r =>
    if c = '\\' then
      match r with
      | a :: b :: r' => do
        let high ← a.hexUpperValue?
        let low ← b.hexUpperValue?
        let bytes ← unescape? r'
        return UInt8.ofNat (16 * high + low) :: bytes
      | _ => none
    else if c.val < 0x80 then (unescape? r).map (UInt8.ofNat c.val :: ·)
    else none

/-- The bytes of the constant for a text. -/
def bytesOf (t : Text) : Bytes := t.flatMap Utf8.bytesOf ++ [0]

/-- The body of the constant for a text, and how many bytes it stands for. -/
def encode (t : Text) : Except Utf8.SurrogateRun (Text × Nat) :=
  match Utf8.surrogateRun? t with
  | some run => .error run
  | none => .ok (body (bytesOf t), (bytesOf t).length)

end Constant

end LiteralSplice
