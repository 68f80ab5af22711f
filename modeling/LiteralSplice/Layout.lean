/-
Layouts: programs as they are handed to an emitter.

An emitter takes a program that need not come from splicing.  Its lines and its source can be
any values, its count of literals need not agree with its lines, and the count can even be a
truth value, which counts as zero or one.  The count is declared to be an integer, and truth values
are the only others that are integers, too; what else somebody might put there against that
declaration is left out.

* **`Layout`**: such a program;
* **`Program.layout`**: an assembled program as a layout;
* **`Layout.literalBlock`**, **`Layout.text`**: what the layout says about itself.
-/
import LiteralSplice.Program

namespace LiteralSplice

/-- A stated number of literals. -/
inductive Count where
  | number (n : Int)
  | flag (b : Bool)
  deriving DecidableEq, Repr

def Count.toInt : Count → Int
  | .number n => n
  | .flag b => if b then 1 else 0

def Count.toJson : Count → Json
  | .number n => .int n
  | .flag b => .bool b

/-- A program as stated, consistent or not. -/
structure Layout where
  lines : List Json
  literalCount : Count
  source : Json

/-- An assembled program as a layout. -/
def Program.layout {α : Type} [Line α] (p : Program α) : Layout :=
  ⟨p.lines.map Line.toJson, .number p.literalCount, .string p.source⟩

/-- A line that is no text. -/
structure NotText where
  value : Json
  deriving Repr

def NotText.message (fault : NotText) : Text :=
  match fault.value with
  | .array _ => "can only concatenate list (not \"str\") to list"
  | v => "unsupported operand type(s) for +: '" ++ v.kindName ++ "' and 'str'"

namespace Layout

/-- The index of the line after the literals. -/
def separatorIndex (l : Layout) : Int := spliceIndex + l.literalCount.toInt

/-- The lines from the splice index up to the separator; a negative index counts from the end. -/
def literalBlock (l : Layout) : List Json :=
  let stop : Int :=
    if l.separatorIndex < 0 then l.separatorIndex + l.lines.length else l.separatorIndex
  (l.lines.take stop.toNat).drop spliceIndex

/-- The lines one after the other, each ended by a line feed. -/
def textOf : List Json → Except NotText Text
  | [] => .ok []
  | .string t :: rest => do
    let after ← textOf rest
    return t ++ "\n" ++ after
  | v :: _ => .error ⟨v⟩

def text (l : Layout) : Except NotText Text := textOf l.lines

end Layout

end LiteralSplice
