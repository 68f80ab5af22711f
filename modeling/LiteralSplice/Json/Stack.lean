/-
The stack on which JSON is read and checked.

* **`Json.depth`**: how deep arrays and objects are nested in a value;
* **`Stack`**: how deep a text may be nested to be read, and which values cannot be told to be
  wrong.

Design notes: how much of the stack is left for a value depends on what is being called when, so it
is a parameter; all that is known of it is that a nesting of a hundred levels does no harm.  A class
carries it because every reader of a text takes the same, and no statement is about a certain one.
-/
import LiteralSplice.Json.Value

namespace LiteralSplice

namespace Json

mutual

/-- How deep arrays and objects are nested in a value. -/
def depth : Json → Nat
  | null | bool _ | int _ | float _ | string _ => 0
  | array items => itemsDepth items + 1
  | object members => membersDepth members + 1

/-- How deep arrays and objects are nested in some items. -/
def itemsDepth : List Json → Nat
  | [] => 0
  | v :: rest => max (depth v) (itemsDepth rest)

/-- How deep arrays and objects are nested in some members. -/
def membersDepth : List (Text × Json) → Nat
  | [] => 0
  | (_, v) :: rest => max (depth v) (membersDepth rest)

end

/-- Lines of text are not nested. -/
@[simp] theorem itemsDepth_strings (lines : List Text) : itemsDepth (lines.map string) = 0 := by
  induction lines with
  | nil => rfl
  | cons line rest ih => rw [List.map_cons, itemsDepth, ih, depth, Nat.max_self]

end Json

/-- What is left of the stack for a value. -/
class Stack where
  /-- How deep arrays and objects may be nested to be read. -/
  levels : Nat
  /-- What is said where telling what is wrong with a value takes more than there is: comparing its
  items or showing it needs some levels for each of its own. -/
  strain : Json → Option Text
  hundred_le : 100 ≤ levels
  strain_of_depth_le : ∀ v, v.depth ≤ 100 → strain v = none

namespace Stack

/-- The stack of a run that is started from the command line, where values are told to be wrong. -/
instance ofCommandLine : Stack where
  levels := 988
  strain _ := none
  hundred_le := by decide
  strain_of_depth_le _ _ := rfl

theorem le_levels [Stack] {n : Nat} (h : n ≤ 100) : n ≤ levels := Nat.le_trans h hundred_le

end Stack

end LiteralSplice
