/-
The shape of hand-offs, checked on the values as they come.

* **`Handoff.requireTexts`**: refuses the first value that is no text;
* **`Handoff.requireDistinct`**: refuses the first value that equals an earlier one;
* **`Handoff.checkValues`**: both checks, in the order in which every hand-off is checked.

Design notes: what has been seen of the literals is kept in a set, and only some values can be.
`Handoff.check` looks for repetitions among texts alone, so it cannot say what would become of the
others.  The check on values can: it has a fault of its own for a value that is looked for in a set
and cannot be kept in one.
-/
import LiteralSplice.Handoff
import LiteralSplice.Json.Order

namespace LiteralSplice

/-- Whether a value can be kept in a set: lists and objects cannot. -/
def Json.isHashable : Json → Bool
  | array _ => false
  | object _ => false
  | _ => true

/-- Why values of any kind are no hand-off. -/
inductive ValueFault where
  | notText (part : Part) (index : Nat) (kind : Text)
  | repeated (source : Text) (value : Json)
  /-- A value that cannot be kept in a set is looked for in one. -/
  | unhashable (value : Json)

/-- The fault of texts as one of values. -/
def ShapeFault.ofValues : ShapeFault → ValueFault
  | notText part index kind => .notText part index kind
  | repeated source line => .repeated source (.string line)

namespace Handoff

/-- Refuses the first value that is no text; `index` counts from the start. -/
def requireTexts (part : Part) (index : Nat) : List Json → Except ValueFault Unit
  | [] => .ok ()
  | .string _ :: rest => requireTexts part (index + 1) rest
  | v :: _ => .error (.notText part index v.kindName)

/-- Refuses the first value that equals one of those before it, which are kept in a set. -/
def requireDistinct (source : Text) (seen : List Json) : List Json → Except ValueFault Unit
  | [] => .ok ()
  | v :: rest =>
    if v.isHashable = false then .error (.unhashable v)
    else if seen.any (Json.alike v) then .error (.repeated source v)
    else requireDistinct source (v :: seen) rest

/-- The hand-off itself, provided that it has the shape it must have. -/
def checkValues (h : Handoff Json) : Except ValueFault (Handoff Json) := do
  requireTexts .instructions 0 h.instructions
  requireTexts .literals 0 h.literals
  requireDistinct h.source [] h.literals
  return h

/-- A hand-off of texts as one of values. -/
def values (h : Handoff Text) : Handoff Json :=
  ⟨h.instructions.map .string, h.literals.map .string, h.source⟩

end Handoff

end LiteralSplice
