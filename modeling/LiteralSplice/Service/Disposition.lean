/-
The header field that names a download.

* **`Disposition.fallback`**: a name with everything but plain ASCII replaced;
* **`Disposition.percentEncode`**, **`Disposition.percentDecode?`**: bytes with percent escapes;
* **`Disposition.header`**: the field with the name in both forms.

Design notes: the first form can be read by everyone and holds neither quotes nor backslashes,
so it ends at the next quote.  The second form is exact: letters, digits and four marks stand
for themselves and every other byte is a percent sign with two capital hexadecimal digits.
-/
import LiteralSplice.Text.Utf8

namespace LiteralSplice

namespace Disposition

/-- Whether a code point may stand in the quoted form of a name. -/
def isSafe (c : CodePoint) : Bool :=
  c.isPrintableAscii && c != '"' && c != '\\'

/-- A name with an underscore in place of everything unsafe. -/
def fallback (name : Text) : Text :=
  name.map fun c => if isSafe c then c else '_'

/-- Whether a byte stands for itself in a percent encoding. -/
def isUnreserved (b : UInt8) : Bool :=
  let n := b.toNat
  (0x30 ≤ n && n ≤ 0x39) || (0x41 ≤ n && n ≤ 0x5A) || (0x61 ≤ n && n ≤ 0x7A) ||
    n == 0x2D || n == 0x2E || n == 0x5F || n == 0x7E

/-- How one byte is written in a percent encoding. -/
def percentEscape (b : UInt8) : Text :=
  if isUnreserved b then [CodePoint.ofNat b.toNat] else "%" ++ Text.hexUpper 2 b.toNat

/-- Bytes with percent escapes. -/
def percentEncode (bytes : Bytes) : Text := bytes.flatMap percentEscape

/-- The bytes that a percent encoding stands for. -/
def percentDecode? : Text → Option Bytes
  | [] => some []
  | c :: r =>
    if c = '%' then
      match r with
      | a :: b :: r' => do
        let high ← a.hexUpperValue?
        let low ← b.hexUpperValue?
        let bytes ← percentDecode? r'
        return UInt8.ofNat (16 * high + low) :: bytes
      | _ => none
    else if c.val < 0x80 then (percentDecode? r).map (UInt8.ofNat c.val :: ·)
    else none

/-- The field for a download of the given name. -/
def header (name : Text) : Except Utf8.SurrogateRun Text := do
  let bytes ← Utf8.encode name
  return "attachment; filename=\"" ++ fallback name ++ "\"; filename*=UTF-8''"
    ++ percentEncode bytes

end Disposition

end LiteralSplice
