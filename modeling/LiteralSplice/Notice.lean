/-
Notices: what the program reports about its own work.

* **`Level`**: how important a notice is;
* **`Notice`**: a level, the component that speaks, and what it says.
-/
import LiteralSplice.Text.Basic

namespace LiteralSplice

/-- How important a notice is. -/
inductive Level where
  | debug
  | info
  deriving DecidableEq, Repr

/-- The number by which levels are compared. -/
def Level.rank : Level → Nat
  | .debug => 10
  | .info => 20

def Level.text : Level → Text
  | .debug => "DEBUG"
  | .info => "INFO"

/-- Something worth reporting. -/
structure Notice where
  level : Level
  component : Text
  message : Text
  deriving DecidableEq, Repr

end LiteralSplice
