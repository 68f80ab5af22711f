/-
Instruction streams under construction.

* **`Stream`**: a header of exactly `spliceIndex` lines, and the lines appended since;
* **`Stream.ofHeader`**: a stream with nothing after its header;
* **`Stream.build`**: all lines, refused while nothing has been appended;
* **`Stream.handoff`**: the hand-off of a finished stream with a pool of literals.

Design notes: the length of the header is part of the type, so that a stream with one line more
is long enough to be assembled.
-/
import LiteralSplice.Pool.Basic
import LiteralSplice.Program

namespace LiteralSplice

/-- A header, and the lines appended to it. -/
structure Stream (α : Type) where
  header : List α
  body : List α
  header_length : header.length = spliceIndex

/-- A header with another number of lines than the splice index asks for. -/
structure HeaderFault where
  count : Nat
  deriving DecidableEq, Repr

def HeaderFault.message (fault : HeaderFault) : Text :=
  "Program header must have exactly " ++ Text.ofNat spliceIndex ++ " lines, got "
    ++ Text.ofNat fault.count ++ "."

namespace Stream

variable {α : Type}

/-- A stream with the given header and nothing after it. -/
def ofHeader (header : List α) : Except HeaderFault (Stream α) :=
  if h : header.length = spliceIndex then .ok ⟨header, [], h⟩ else .error ⟨header.length⟩

/-- The header of programs that bring none of their own. -/
def defaultHeader : List Text :=
  ["; === prologue ===", "declare dso_local i32 @printf(i8*, ...)"]

/-- The stream with more lines at its end. -/
def append (s : Stream α) (lines : List α) : Stream α := { s with body := s.body ++ lines }

/-- The stream with a blank line at its end. -/
def blank [Line α] (s : Stream α) : Stream α := s.append [Line.blank]

def length (s : Stream α) : Nat := s.header.length + s.body.length

/-- All lines. -/
def build (s : Stream α) : Except TooShort (List α) :=
  if s.body.isEmpty then .error ⟨s.header.length⟩ else .ok (s.header ++ s.body)

/-- The hand-off of a finished stream; `ofText` makes lines of the pool's declarations. -/
def handoff (s : Stream α) (pool : Pool) (ofText : Text → α) (source : Text) :
    Except TooShort (Handoff α) := do
  let instructions ← s.build
  return ⟨instructions, pool.declarations.map ofText, source⟩

end Stream

end LiteralSplice
