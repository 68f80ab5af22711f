/-
Lines of a program.

A program is spliced together without looking at its lines, so a line may be anything that has
a blank among its values and can be shown as a JSON value.  Checked lines are texts; lines as
they arrive from outside are JSON values, of which only the strings are texts.

* **`Line`**: the two operations on lines.
-/
import LiteralSplice.Json.Value

namespace LiteralSplice

/-- What can stand as a line of a program. -/
class Line (α : Type) where
  /-- The line that separates the literals from the instructions. -/
  blank : α
  /-- The line as a value. -/
  toJson : α → Json

instance : Line Text := ⟨[], .string⟩

instance : Line Json := ⟨.string [], id⟩

end LiteralSplice
