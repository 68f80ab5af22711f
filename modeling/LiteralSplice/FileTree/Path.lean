/-
Paths as they are written.

* **`Path`**: a root, if any, and the names after it;
* **`Path.ofText`**, **`Path.text`**: reading drops empty names and single dots, writing puts one
  slash between names;
* **`Path.name`**, **`Path.stem`**, **`Path.suffix`**, **`Path.parent`**: the parts of a path;
* **`Path.join`**: a path below another.

Design notes: two dots are a name like any other here; only the tree knows what they stand for.
The suffix of a name starts at its last dot, unless that is its first or last code point.
-/
import LiteralSplice.Text.Basic

namespace LiteralSplice

/-- A path: the root is empty for a relative path, else one slash or two. -/
structure Path where
  root : Text
  names : List Text
  deriving DecidableEq, Repr

namespace Path

/-- A path as it is written; just two slashes at the start are a root of their own. -/
def ofText (t : Text) : Path :=
  let slash := CodePoint.ofChar '/'
  let slashes := (t.takeWhile (· == slash)).length
  let root : Text := if slashes = 0 then [] else if slashes = 2 then "//" else "/"
  ⟨root, (t.split slash).filter fun name => name ≠ [] ∧ name ≠ "."⟩

/-- A path in its usual writing. -/
def text (p : Path) : Text :=
  if p.root = [] ∧ p.names = [] then "." else p.root ++ Text.join "/" p.names

/-- The last name of a path, empty where there is none. -/
def name (p : Path) : Text := p.names.getLast?.getD []

/-- A name before and after the dot at which its suffix starts; the dot goes with the suffix. -/
def splitSuffix (name : Text) : Text × Text :=
  match name.splitLast? '.' with
  | some (before, after) =>
    if before = [] ∨ after = [] then (name, []) else (before, "." ++ after)
  | none => (name, [])

/-- The last name without its suffix. -/
def stem (p : Path) : Text := (splitSuffix p.name).1

/-- The suffix of the last name. -/
def suffix (p : Path) : Text := (splitSuffix p.name).2

/-- The path without its last name. -/
def parent (p : Path) : Path := { p with names := p.names.dropLast }

/-- A path below another; an absolute path stays what it is. -/
def join (p : Path) (t : Text) : Path :=
  let q := ofText t
  if q.root = [] then { p with names := p.names ++ q.names } else q

end Path

end LiteralSplice
