/-
Programs: a hand-off with its literals spliced into its instructions.

The first `spliceIndex` instructions are the header.  The literals follow the header, a blank
line follows the literals, and the other instructions follow the blank line.

* **`splice`**: the merged lines, refused where there is nothing after the header;
* **`Handoff.assemble`**: the program of a hand-off;
* **`Program.literalBlock`**, **`Program.separatorIndex`**: where the literals went;
* **`Program.text`**: the program as text, each line ended by a line feed.
-/
import LiteralSplice.Handoff

namespace LiteralSplice

/-- The number of header lines, and so the index of the first literal. -/
def spliceIndex : Nat := 2

/-- The fewest instructions that leave a line after the header. -/
def leastInstructions : Nat := spliceIndex + 1

/-- An instruction stream that ends within or right after its header. -/
structure TooShort where
  count : Nat
  deriving DecidableEq, Repr

/-- How many instructions there should have been. -/
def TooShort.required (_ : TooShort) : Nat := leastInstructions

def TooShort.message (fault : TooShort) : Text :=
  "Instruction stream has " ++ Text.ofNat fault.count ++ " line(s); at least "
    ++ Text.ofNat fault.required
    ++ " are required to hold the literal splice point at index " ++ Text.ofNat spliceIndex ++ "."

/-- Whether a stream of instructions goes on after its header. -/
def checkLength {α : Type} (instructions : List α) : Except TooShort Unit :=
  if instructions.length < leastInstructions then .error ⟨instructions.length⟩ else .ok ()

/-- The header, the literals, a blank line, and the other instructions. -/
def splice {α : Type} [Line α] (instructions literals : List α) : Except TooShort (List α) := do
  checkLength instructions
  return instructions.take spliceIndex ++ literals ++ [Line.blank] ++ instructions.drop spliceIndex

/-- Merged lines, with the number of literals among them. -/
structure Program (α : Type) where
  lines : List α
  literalCount : Nat
  source : Text
  deriving Repr, DecidableEq

/-- The program of a hand-off. -/
def Handoff.assemble {α : Type} [Line α] (h : Handoff α) : Except TooShort (Program α) := do
  let lines ← splice h.instructions h.literals
  return ⟨lines, h.literals.length, h.source⟩

namespace Program

variable {α : Type}

/-- The index of the blank line after the literals. -/
def separatorIndex (p : Program α) : Nat := spliceIndex + p.literalCount

/-- The literals among the lines. -/
def literalBlock (p : Program α) : List α :=
  (p.lines.drop spliceIndex).take p.literalCount

/-- The lines one after the other, each ended by a line feed. -/
def text (p : Program Text) : Text :=
  p.lines.flatMap fun line => line ++ "\n"

end Program

end LiteralSplice
