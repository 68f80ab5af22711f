/-
Names for output files that are not taken.

* **`OutputName.candidate`**: the names that are tried, one after the other;
* **`OutputName.firstFree`**: the first of them under which there is nothing.

Design notes: the first name is the stem with the suffix; the others have a number, from two on,
before the last dot of the suffix.  The numbered names are all different, so among as many of
them as there are entries in the tree and one more there is a free one, and the search ends.
-/
import LiteralSplice.FileTree.Basic

namespace LiteralSplice

namespace OutputName

/-- A suffix before its last dot and from that dot on. -/
def splitAtDot (suffix : Text) : Text × Text :=
  match suffix.splitLast? '.' with
  | some (before, after) => (before, "." ++ after)
  | none => (suffix, [])

/-- The name that is tried after `tried` others. -/
def candidate (stem suffix : Text) (tried : Nat) : Text :=
  if tried = 0 then stem ++ suffix
  else
    let (before, ending) := splitAtDot suffix
    stem ++ before ++ "-" ++ Text.ofNat (tried + 1) ++ ending

/-- The first free name, from the one after `tried` others on; `fuel` bounds the search. -/
def firstFreeFrom (t : FileTree) (directory : Path) (stem suffix : Text) :
    Nat → Nat → Except PathFault Path
  | 0, tried => .ok (directory.join (candidate stem suffix tried))
  | fuel + 1, tried => do
    let path := directory.join (candidate stem suffix tried)
    if ← t.holds path.text then firstFreeFrom t directory stem suffix fuel (tried + 1)
    else return path

/-- The first name under which there is nothing in a directory. -/
def firstFree (t : FileTree) (directory : Path) (stem suffix : Text) : Except PathFault Path :=
  firstFreeFrom t directory stem suffix (t.entries.length + 2) 0

end OutputName

end LiteralSplice
