/-
The encoding of JSON that arrives as bytes.

* **`Json.Encoding.detect`**: the encoding, and the bytes after a byte order mark;
* **`Json.textOfBytes?`**: the text of the bytes.

Design notes: a byte order mark settles the encoding.  Without one it shows in the zero bytes
among the first four, because a JSON value starts with an ASCII character.
-/
import LiteralSplice.Text.Wide

namespace LiteralSplice

namespace Json

/-- The encodings in which JSON may arrive. -/
inductive Encoding where
  | utf8
  | utf16 (order : Endian)
  | utf32 (order : Endian)
  deriving DecidableEq, Repr

namespace Encoding

/-- The encoding of bytes without a byte order mark. -/
def unmarked : Bytes → Encoding
  | a :: b :: c :: d :: _ =>
    if a = 0 then if b = 0 then .utf32 .big else .utf16 .big
    else if b = 0 then if c = 0 ∧ d = 0 then .utf32 .little else .utf16 .little
    else .utf8
  | [a, b] => if a = 0 then .utf16 .big else if b = 0 then .utf16 .little else .utf8
  | _ => .utf8

/-- The encoding of bytes, and the bytes after a byte order mark. -/
def detect (bytes : Bytes) : Encoding × Bytes :=
  match bytes with
  | 0x00 :: 0x00 :: 0xFE :: 0xFF :: rest => (.utf32 .big, rest)
  | 0xFF :: 0xFE :: 0x00 :: 0x00 :: rest => (.utf32 .little, rest)
  | 0xFE :: 0xFF :: rest => (.utf16 .big, rest)
  | 0xFF :: 0xFE :: rest => (.utf16 .little, rest)
  | 0xEF :: 0xBB :: 0xBF :: rest => (.utf8, rest)
  | _ => (unmarked bytes, bytes)

end Encoding

/-- The text of bytes in whatever encoding they are. -/
def textOfBytes? (bytes : Bytes) : Option Text :=
  match Encoding.detect bytes with
  | (.utf8, rest) => (Utf8.decodeWith .allowed rest).toOption
  | (.utf16 order, rest) => Utf16.decode? order rest
  | (.utf32 order, rest) => Utf32.decode? order rest

end Json

end LiteralSplice
