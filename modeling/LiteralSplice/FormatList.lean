/-
Lists of output formats, as given on a command line.

* **`FormatList.parse`**: the keys of a list separated by commas, each the key of an emitter.

Design notes: blanks around a key and empty places in the list are dropped.  Only a list that is
absent or empty stands for the default, which is not checked; a list of commas and blanks stands
for no format at all.
-/
import LiteralSplice.Emitter
import LiteralSplice.Text.Blank

namespace LiteralSplice

/-- A key that no emitter has. -/
structure UnknownFormat where
  key : Text
  deriving DecidableEq, Repr

def UnknownFormat.message (fault : UnknownFormat) : Text :=
  "Unknown format '" ++ fault.key ++ "'. Available formats: " ++ Emitter.keyList

namespace FormatList

/-- The keys of a list, without blanks and empty places. -/
def fields (formats : Text) : List Text :=
  ((formats.split ',').map Text.trim).filter fun field => !field.isEmpty

/-- The keys that a list stands for, or the first that no emitter has. -/
def parse (default : Text) : Option Text → Except UnknownFormat (List Text)
  | none => .ok [default]
  | some [] => .ok [default]
  | some formats =>
    match (fields formats).find? fun key => (Emitter.ofKey? key).isNone with
    | some key => .error ⟨key⟩
    | none => .ok (fields formats)

end FormatList

end LiteralSplice
