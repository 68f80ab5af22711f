/-
UTF-8: texts as bytes and bytes as texts.

* **`Utf8.encode`**: the bytes of a text, refused where the text holds a surrogate;
* **`Utf8.decode`**: the text of a byte sequence, or the first run of bytes that is no text.

Design notes: decoding reads one byte at a time and keeps what is still owed to the character
it stands in: how many bytes, and between which bounds the next one has to lie.  The bounds on
the second byte are what excludes overlong forms, surrogates and numbers beyond the last code
point.  A reader that lets surrogates through differs in one bound only (`Surrogates`).
-/
import LiteralSplice.Text.Basic

namespace LiteralSplice

/-- A sequence of bytes. -/
abbrev Bytes := List UInt8

namespace Utf8

/-- The one to four bytes of a code point, surrogates like any other of their size. -/
def bytesOf (c : CodePoint) : Bytes :=
  let n := c.val
  if n < 0x80 then [UInt8.ofNat n]
  else if n < 0x800 then [UInt8.ofNat (0xC0 + n / 0x40), UInt8.ofNat (0x80 + n % 0x40)]
  else if n < 0x10000 then
    [UInt8.ofNat (0xE0 + n / 0x1000), UInt8.ofNat (0x80 + n / 0x40 % 0x40),
      UInt8.ofNat (0x80 + n % 0x40)]
  else
    [UInt8.ofNat (0xF0 + n / 0x40000), UInt8.ofNat (0x80 + n / 0x1000 % 0x40),
      UInt8.ofNat (0x80 + n / 0x40 % 0x40), UInt8.ofNat (0x80 + n % 0x40)]

/-! ### Encoding -/

/-- Surrogates in a text that have no bytes: the first of them, its position, and how many stand in
a row. -/
structure SurrogateRun where
  first : CodePoint
  start : Nat
  length : Nat
  deriving DecidableEq, Repr

/-- The first code point of a text that is refused, with the surrogates in a row from it on. -/
def firstRun? (refused : CodePoint → Bool) (t : Text) : Option SurrogateRun :=
  let before := t.takeWhile fun c => !refused c
  let rest := t.dropWhile fun c => !refused c
  match rest with
  | [] => none
  | c :: _ => some ⟨c, before.length, (rest.takeWhile CodePoint.isSurrogate).length⟩

/-- The first run of surrogates in a text. -/
def surrogateRun? : Text → Option SurrogateRun := firstRun? CodePoint.isSurrogate

/-- The bytes of a text. -/
def encode (t : Text) : Except SurrogateRun Bytes :=
  match surrogateRun? t with
  | some run => .error run
  | none => .ok (t.flatMap bytesOf)

namespace SurrogateRun

def message (run : SurrogateRun) : Text :=
  if run.length ≤ 1 then
    "'utf-8' codec can't encode character '\\u" ++ Text.hex 4 run.first.val ++ "' in position "
      ++ Text.ofNat run.start ++ ": surrogates not allowed"
  else
    "'utf-8' codec can't encode characters in position " ++ Text.ofNat run.start ++ "-"
      ++ Text.ofNat (run.start + run.length - 1) ++ ": surrogates not allowed"

end SurrogateRun

/-! ### Decoding -/

/-- Why a run of bytes is no character. -/
inductive Reason where
  /-- No character starts with this byte. -/
  | start
  /-- The next byte does not continue the character. -/
  | continuation
  /-- The bytes end inside the character. -/
  | truncated
  deriving DecidableEq, Repr

/-- The first run of bytes that is no character: where it starts, its first byte, its length. -/
structure Fault where
  start : Nat
  first : UInt8
  length : Nat
  reason : Reason
  deriving DecidableEq, Repr

def Reason.message : Reason → Text
  | .start => "invalid start byte"
  | .continuation => "invalid continuation byte"
  | .truncated => "unexpected end of data"

def Fault.message (fault : Fault) : Text :=
  if fault.length ≤ 1 then
    "'utf-8' codec can't decode byte 0x" ++ Text.hex 2 fault.first.toNat ++ " in position "
      ++ Text.ofNat fault.start ++ ": " ++ fault.reason.message
  else
    "'utf-8' codec can't decode bytes in position " ++ Text.ofNat fault.start ++ "-"
      ++ Text.ofNat (fault.start + fault.length - 1) ++ ": " ++ fault.reason.message

/-- Whether three-byte forms of surrogates count as characters. -/
inductive Surrogates where
  | refused
  | allowed
  deriving DecidableEq, Repr

/-- A character that has begun: its first byte, how many of its bytes have been read, how many
are owed, the value so far, and the bounds on the next byte. -/
structure Partial where
  first : UInt8
  read : Nat
  owed : Nat
  value : Nat
  least : Nat
  greatest : Nat
  deriving DecidableEq, Repr

/-- What a first byte beyond ASCII promises. -/
def Partial.ofLead? (surrogates : Surrogates) (b : UInt8) : Option Partial :=
  let n := b.toNat
  if n < 0xC2 then none
  else if n < 0xE0 then some ⟨b, 1, 1, n % 0x20, 0x80, 0xBF⟩
  else if n < 0xF0 then
    let least := if n = 0xE0 then 0xA0 else 0x80
    let greatest := if n = 0xED ∧ surrogates = .refused then 0x9F else 0xBF
    some ⟨b, 1, 2, n % 0x10, least, greatest⟩
  else if n < 0xF5 then
    let least := if n = 0xF0 then 0x90 else 0x80
    let greatest := if n = 0xF4 then 0x8F else 0xBF
    some ⟨b, 1, 3, n % 0x08, least, greatest⟩
  else none

/-- Decodes from a position on; `partly` is the character that has begun, if any. -/
def decodeFrom (surrogates : Surrogates) (position : Nat) :
    Option Partial → Bytes → Except Fault Text
  | none, [] => .ok []
  | some p, [] => .error ⟨position - p.read, p.first, p.read, .truncated⟩
  | none, b :: r =>
    if b.toNat < 0x80 then do
      let t ← decodeFrom surrogates (position + 1) none r
      return CodePoint.ofNat b.toNat :: t
    else
      match Partial.ofLead? surrogates b with
      | none => .error ⟨position, b, 1, .start⟩
      | some p => decodeFrom surrogates (position + 1) (some p) r
  | some p, b :: r =>
    if p.least ≤ b.toNat ∧ b.toNat ≤ p.greatest then
      let value := p.value * 0x40 + b.toNat % 0x40
      if p.owed ≤ 1 then do
        let t ← decodeFrom surrogates (position + 1) none r
        return CodePoint.ofNat value :: t
      else
        decodeFrom surrogates (position + 1)
          (some ⟨p.first, p.read + 1, p.owed - 1, value, 0x80, 0xBF⟩) r
    else .error ⟨position - p.read, p.first, p.read, .continuation⟩

/-- The text of a byte sequence, with surrogates refused or let through. -/
def decodeWith (surrogates : Surrogates) (bytes : Bytes) : Except Fault Text :=
  decodeFrom surrogates 0 none bytes

/-- The text of a byte sequence. -/
def decode (bytes : Bytes) : Except Fault Text :=
  decodeWith .refused bytes

end Utf8

end LiteralSplice
