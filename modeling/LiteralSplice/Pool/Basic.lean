/-
Literal pools: the strings that a front end has met, each once.

A pool is the list of its strings in the order in which they were first met.  The symbol of a
string is made from its place in that list, and its declaration from the symbol and the string,
so neither is stored.

* **`Pool.intern`**: the symbol of a string, which joins the pool if it is new;
* **`Pool.internAll`**: the symbols of strings that are met one after the other;
* **`Pool.symbolFor?`**: the symbol of a string that has been met;
* **`Pool.declarations`**: one line per string, in order.
-/
import LiteralSplice.Pool.Constant

namespace LiteralSplice

/-- The strings met so far, each once, in the order in which they were met. -/
structure Pool where
  strings : List Text
  deriving DecidableEq, Repr

namespace Pool

def empty : Pool := ⟨[]⟩

/-- The symbol of the string at an index: the first has no number. -/
def symbol : Nat → Text
  | 0 => "@.str"
  | n + 1 => "@.str." ++ Text.ofNat (n + 1)

/-- The line that declares a string under the symbol of its index. -/
def declaration (index : Nat) (t : Text) : Text :=
  let bytes := Constant.bytesOf t
  symbol index ++ " = private unnamed_addr constant [" ++ Text.ofNat bytes.length ++ " x i8] c\""
    ++ Constant.body bytes ++ "\", align 1"

def size (p : Pool) : Nat := p.strings.length

/-- Whether a string has been met. -/
def contains (p : Pool) (t : Text) : Bool := p.strings.contains t

/-- The symbol of a string that has been met. -/
def symbolFor? (p : Pool) (t : Text) : Option Text :=
  (p.strings.idxOf? t).map symbol

/-- The symbol of a string, and the pool with it.  A string that has no bytes is refused. -/
def intern (p : Pool) (t : Text) : Except Utf8.SurrogateRun (Text × Pool) :=
  match p.symbolFor? t with
  | some s => .ok (s, p)
  | none =>
    match Utf8.surrogateRun? t with
    | some run => .error run
    | none => .ok (symbol p.size, ⟨p.strings ++ [t]⟩)

/-- The symbols for strings that are handed in one after the other, and the pool after them. -/
def internAll (p : Pool) : List Text → Except Utf8.SurrogateRun (List Text × Pool)
  | [] => .ok ([], p)
  | v :: rest => do
    let (s, q) ← p.intern v
    let (symbols, r) ← q.internAll rest
    return (s :: symbols, r)

/-- The declarations of all strings, in order. -/
def declarations (p : Pool) : List Text :=
  p.strings.zipIdx.map fun (t, i) => declaration i t

end Pool

end LiteralSplice
