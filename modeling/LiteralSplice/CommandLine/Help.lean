/-
The texts that the command line shows about itself.

* **`CommandLine.usage`**: the summary of all switches;
* **`CommandLine.help`**: the full description, under given settings;
* **`CommandLine.usageError`**: the summary with what is wrong.

Design notes: what a switch does is written as a template, which may name what is known of the
switch.  The default emitter is part of the template, so it is read as one too; a default emitter
that makes no sense as a template leaves the program without a full description.
-/
import LiteralSplice.CommandLine.Request
import LiteralSplice.Settings
import LiteralSplice.Text.Template
import LiteralSplice.Text.Wrap

namespace LiteralSplice

namespace CommandLine

/-- The name under which the program is called. -/
def programName : Text := "program-assembler"

/-- Lines, each ended by a line feed. -/
def unlines (ls : List Text) : Text := ls.flatMap fun line => line ++ "\n"

/-- The summary of all switches. -/
def usage : Text := unlines [
  "usage: program-assembler [-h] [--adapter \x7bjson,listing\x7d] [--formats FORMATS]",
  "                         [--output-dir OUTPUT_DIR] [--stdout]",
  "                         [--log-level \x7bDEBUG,INFO,WARNING,ERROR\x7d]",
  "                         input_files [input_files ...]"]

/-- What the program is for. -/
def description : Text :=
  "Splice a front end's string-literal pool into its instruction stream and write the merged "
    ++ "program."

/-- How a switch is written, with a word for its value. -/
def form : Switch → Text
  | .help => "-h, --help"
  | .adapter => "--adapter \x7bjson,listing\x7d"
  | .formats => "--formats FORMATS"
  | .outputDirectory => "--output-dir OUTPUT_DIR"
  | .toStdout => "--stdout"
  | .logLevel => "--log-level \x7bDEBUG,INFO,WARNING,ERROR\x7d"

/-- What a switch does, as a template. -/
def meaning (settings : Settings) : Switch → Text
  | .help => "show this help message and exit"
  | .adapter => "Front-end adapter to use (default: chosen by file extension)."
  | .formats =>
    "Comma-separated list of output formats. Available: " ++ Emitter.keyList ++ ". Default: "
      ++ settings.defaultEmitter ++ "."
  | .outputDirectory => "Directory to save output files (default: same as input file)."
  | .toStdout => "Write the merged program to stdout instead of saving files."
  | .logLevel => "Logging level (default: %(default)s)."

/-- What is known of a switch that takes a value, under the names that a template uses. -/
def fields (settings : Settings) (s : Switch) : List (Text × Template.Value) :=
  let field (name : Text) (v : Template.Value) : Text × Template.Value := (name, v)
  let isLevel : Bool := s == .logLevel
  let long : Text := (s.spellings.getLast?.getD []).drop 2
  [field "option_strings" (.list s.spellings),
    field "dest" (.text (Text.join "_" (long.split '-'))),
    field "nargs" .absent,
    field "const" .absent,
    field "default" (if isLevel then .text settings.logLevel else .absent),
    field "type" (if isLevel then .text "upper" else .absent),
    field "choices" (s.choices.elim .absent fun words => .text (Text.join ", " words)),
    field "required" (.flag false),
    field "help" (.text (meaning settings s)),
    field "metavar" .absent,
    field "container"
      (.thing "_ArgumentGroup" "<argparse._ArgumentGroup object at 0x7f0000000000>"),
    field "prog" (.text programName)]

/-- The column in which descriptions start. -/
def column : Nat := 24

/-- The width of a line. -/
def width : Nat := 78

/-- A text with a space in place of every run of ASCII white space, and no blanks at its ends. -/
def oneLine (t : Text) : Text :=
  let fold (c : CodePoint) (rest : Text) : Text :=
    if !Wrap.isGap c then c :: rest
    else if rest.head? = some (CodePoint.ofChar ' ') then rest
    else ' ' :: rest
  Text.trim (t.foldr fold [])

/-- A form with its description: on one line where the form leaves two blanks before it. -/
def entry (form description : Text) : List Text :=
  let spaces (n : Nat) : Text := List.replicate n ' '
  let head := spaces 2 ++ form
  let lines := Wrap.lines (width - column) (oneLine description)
  let indented (ls : List Text) : List Text := ls.map (spaces column ++ ·)
  match lines with
  | [] => [head]
  | first :: rest =>
    if head.length + 2 ≤ column then
      (head ++ spaces (column - head.length) ++ first) :: indented rest
    else head :: indented lines

/-- A switch with its description. -/
def switchEntry (settings : Settings) (s : Switch) : Except Template.Fault (List Text) :=
  (Template.expand (fields settings s) (meaning settings s)).map (entry (form s))

/-- The full description. -/
def help (settings : Settings) : Except Template.Fault Text := do
  let entries ← Switch.all.mapM (switchEntry settings)
  return usage ++ unlines ([[]] ++ Wrap.lines width description
    ++ [[], "positional arguments:"]
    ++ entry "input_files"
      "Hand-off inputs: JSON documents (.json) or instruction listings (.text)."
    ++ [[], "options:"]
    ++ entries.flatten)

/-- The summary with what is wrong. -/
def usageError (fault : UsageFault) : Text :=
  usage ++ programName ++ ": error: " ++ fault.message ++ "\n"

end CommandLine

end LiteralSplice
