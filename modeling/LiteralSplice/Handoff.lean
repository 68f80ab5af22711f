/-
Hand-offs: what a front end delivers.

* **`Handoff`**: instruction lines, literal declarations, and the name of their source;
* **`Handoff.check`**: the shape that every hand-off must have, whatever way it came: all lines
  are texts, and no literal is declared twice.

Design notes: the checks run in a fixed order (instructions, literals, repetitions), so that a
hand-off with several defects is always refused for the same one.  How many instructions there
are is not looked at here: a hand-off can be well-formed and still too short to be assembled.
-/
import LiteralSplice.Line

namespace LiteralSplice

/-- What a front end delivers, with lines of any kind. -/
structure Handoff (α : Type) where
  instructions : List α
  literals : List α
  source : Text
  deriving Repr, DecidableEq

/-- The name of the source, where none is given. -/
def unnamedSource : Text := "<memory>"

/-- The two parts of a hand-off. -/
inductive Part where
  | instructions
  | literals
  deriving DecidableEq, Repr

def Part.label : Part → Text
  | .instructions => "Instruction stream"
  | .literals => "Literal pool"

/-- Why a hand-off has not the shape it must have. -/
inductive ShapeFault where
  | notText (part : Part) (index : Nat) (kind : Text)
  | repeated (source : Text) (line : Text)
  deriving DecidableEq, Repr

def ShapeFault.message : ShapeFault → Text
  | .notText part index kind =>
    part.label ++ " line " ++ Text.ofNat index ++ " is " ++ kind ++ ", expected str"
  | .repeated source line =>
    "Duplicate literal declaration in " ++ source ++ ": " ++ line.quoted

namespace Handoff

/-- The lines of a part as texts, or the first that is none; `index` counts from the start. -/
def textsFrom (part : Part) (index : Nat) : List Json → Except ShapeFault (List Text)
  | [] => .ok []
  | .string t :: rest => do
    let ts ← textsFrom part (index + 1) rest
    return t :: ts
  | v :: _ => .error (.notText part index v.kindName)

/-- The first line that equals one of those before it. -/
def firstRepeat? (seen : List Text) : List Text → Option Text
  | [] => none
  | t :: rest => if t ∈ seen then some t else firstRepeat? (t :: seen) rest

/-- The hand-off itself, provided that no literal is declared twice. -/
def checkRepeats (h : Handoff Text) : Except ShapeFault (Handoff Text) :=
  match firstRepeat? [] h.literals with
  | some t => .error (.repeated h.source t)
  | none => .ok h

/-- The hand-off with its lines as texts, provided that it has the shape it must have. -/
def check (h : Handoff Json) : Except ShapeFault (Handoff Text) := do
  let instructions ← textsFrom .instructions 0 h.instructions
  let literals ← textsFrom .literals 0 h.literals
  checkRepeats ⟨instructions, literals, h.source⟩

end Handoff

end LiteralSplice
