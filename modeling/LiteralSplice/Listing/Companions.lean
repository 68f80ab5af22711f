/-
Companions: the two files of a listing.

* **`Companions.stemOf`**: the common part of their names;
* **`Companions.resolve`**: those of the two files that exist.

Design notes: a listing may be named by either file or by the common part.  An ending is
recognised in letters of either size, while the names of the files always have it in small
letters.  Only ASCII letters become letters of these endings when they are made small, so
`Text.lowerAscii` is enough to recognise them.
-/
import LiteralSplice.FileTree.Basic

namespace LiteralSplice

/-- The files of a listing that exist. -/
structure Companions where
  stem : Text
  instructions : Option Path
  literals : Option Path
  deriving DecidableEq, Repr

namespace Companions

/-- The ending of the file of instructions. -/
def instructionEnding : Text := ".text"

/-- The ending of the file of literals. -/
def literalEnding : Text := ".strings"

/-- Whether a name has an ending, in letters of either size, and something before it. -/
def hasEnding (ending name : Text) : Bool :=
  ending.isSuffixOf name.lowerAscii && ending.length < name.length

/-- A name without the ending of either file. -/
def stemOf (name : Text) : Text :=
  match [instructionEnding, literalEnding].find? fun ending => hasEnding ending name with
  | some ending => name.take (name.length - ending.length)
  | none => name

/-- The path of a file, if it is one. -/
def existing? (t : FileTree) (path : Path) : Except PathFault (Option Path) := do
  return if ← t.isFile path.text then some path else none

/-- The files of the listing that a path names. -/
def resolve (t : FileTree) (path : Path) : Except PathFault Companions := do
  let stem := stemOf path.name
  let instructions ← existing? t (path.parent.join (stem ++ instructionEnding))
  let literals ← existing? t (path.parent.join (stem ++ literalEnding))
  return ⟨stem, instructions, literals⟩

end Companions

end LiteralSplice
