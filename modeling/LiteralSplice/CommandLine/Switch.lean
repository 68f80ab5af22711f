/-
The switches of the command line.

* **`Switch`**: everything that can be asked for with a dash;
* **`Switch.spellings`**: how each may be written;
* **`Switch.takesValue`**, **`Switch.choices`**: what may come with it.
-/
import LiteralSplice.Emitter
import LiteralSplice.Source

namespace LiteralSplice

/-- Something that can be asked for with a dash. -/
inductive Switch where
  | help
  | adapter
  | formats
  | outputDirectory
  | toStdout
  | logLevel
  deriving DecidableEq, Repr

namespace Switch

/-- Every switch, in the order in which they are listed. -/
def all : List Switch := [help, adapter, formats, outputDirectory, toStdout, logLevel]

/-- How a switch may be written. -/
def spellings : Switch → List Text
  | help => ["-h", "--help"]
  | adapter => ["--adapter"]
  | formats => ["--formats"]
  | outputDirectory => ["--output-dir"]
  | toStdout => ["--stdout"]
  | logLevel => ["--log-level"]

/-- What a switch is called in messages. -/
def label (s : Switch) : Text := Text.join "/" s.spellings

/-- Whether a value comes with a switch. -/
def takesValue : Switch → Bool
  | help => false
  | toStdout => false
  | _ => true

/-- The log levels that can be asked for. -/
def levels : List Text := ["DEBUG", "INFO", "WARNING", "ERROR"]

/-- The values that may come with a switch, if they are limited. -/
def choices : Switch → Option (List Text)
  | adapter => some (SourceKind.all.map SourceKind.key)
  | logLevel => some levels
  | _ => none

/-- Every spelling with its switch, in the order in which they are listed. -/
def table : List (Text × Switch) :=
  all.flatMap fun s => s.spellings.map fun t => (t, s)

/-- The switch with a spelling. -/
def ofSpelling? (t : Text) : Option Switch := table.lookup t

end Switch

end LiteralSplice
