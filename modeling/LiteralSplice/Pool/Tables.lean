/-
Literal pools that store what a pool of strings makes anew.

A front end keeps its pool in two tables: what is found under a string is its symbol, and the
declarations are kept as the lines that they are.  Neither table is made from the other, so that a
new symbol is numbered by the declarations and not by the strings.

* **`Tables.intern`**: the symbol of a string, which joins both tables if it is new;
* **`Tables.internAll`**: the symbols of strings that are met one after the other;
* **`Tables.ofPool`**: the tables that belong to a pool of strings.
-/
import LiteralSplice.Pool.Basic

namespace LiteralSplice

/-- A pool that keeps the symbol of every string in one table and all declarations in another. -/
structure Tables where
  symbols : List (Text × Text)
  declarations : List Text
  deriving DecidableEq, Repr

namespace Tables

open Pool (symbol)

def empty : Tables := ⟨[], []⟩

/-- The symbol of a string: the one in the table, else the next one, which is numbered by the
declarations so far. -/
def intern (p : Tables) (v : Text) : Except Utf8.SurrogateRun (Text × Tables) :=
  match p.symbols.lookup v with
  | some s => .ok (s, p)
  | none => do
    let s := symbol p.declarations.length
    let (body, size) ← Constant.encode v
    let line := s ++ " = private unnamed_addr constant [" ++ Text.ofNat size ++ " x i8] c\""
      ++ body ++ "\", align 1"
    return (s, ⟨p.symbols ++ [(v, s)], p.declarations ++ [line]⟩)

def internAll (p : Tables) : List Text → Except Utf8.SurrogateRun (List Text × Tables)
  | [] => .ok ([], p)
  | v :: rest => do
    let (s, q) ← p.intern v
    let (symbols, r) ← q.internAll rest
    return (s :: symbols, r)

/-- The tables of a pool. -/
def ofPool (p : Pool) : Tables :=
  ⟨p.strings.zipIdx.map fun (v, i) => (v, symbol i), p.declarations⟩

end Tables

end LiteralSplice
