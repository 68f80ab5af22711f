/-
The program itself: what it takes from the system and gives back.

* **`Outside.environment`**: the variables of the program;
* **`Outside.survey`**: the part of the file tree that a run can look at;
* **`Outside.settle`**: the files that a run has made, written;
* **`main`**: one run.

Design notes: nothing is decided here.  A run looks at its inputs, at their companions and at the
names in the directories where outputs may go, so that part of the tree is read beforehand, the
run is made on values, and what it leaves behind is written at the end.
-/
import LiteralSplice.Batch.Run
import Std.Time.Format

namespace LiteralSplice

namespace Outside

/-- The variables of the program that are set. -/
def environment : IO (List (Text × Text)) := do
  let names : List String := ["DEFAULT_EMITTER", "LOG_LEVEL", "HOST", "PORT", "MAX_UNIT_LINES"]
  let found ← names.mapM fun name => do
    let name := Text.asString Settings.variableStem ++ name
    return (← IO.getEnv name).map fun value => (Text.ofString name, Text.ofString value)
  return found.filterMap id

/-- A place as the system writes it; the names that it gives are texts throughout. -/
def pathOf (place : Location) : String :=
  Text.asString (Path.text ⟨"/", place.map fun name => (Utf8.decode name).toOption.getD []⟩)

/-- The bytes of a file. -/
def bytesOf (place : Location) : IO Bytes := do
  return (← IO.FS.readBinFile (pathOf place)).toList

/-- Whether the system finds anything under a path. -/
def finds (path : String) : IO Bool := do
  match ← (IO.FS.realPath path).toBaseIO with
  | .ok _ => return true
  | .error _ => return false

/-- What is at a place, if anything is there; the bytes of a file only where they are wanted. -/
def entryAt? (wanted : Location → Bool) (place : Location) : IO (Option Entry) := do
  match ← (IO.FS.realPath (pathOf place)).toBaseIO with
  | .error _ => return none
  | .ok path =>
    if ← finds (pathOf place ++ "/.") then return some .directory
    if ← path.isDir then return some .sealed
    if wanted place then return some (.file (← bytesOf place))
    return some (.file [])

/-- The places in a directory. -/
def placesIn (directory : Location) : IO (List Location) := do
  let path ← IO.FS.realPath (pathOf directory)
  match ← path.readDir.toBaseIO with
  | .ok found =>
    return found.toList.map fun e => directory ++ [FileName.bytes (Text.ofString e.fileName)]
  | .error _ => return []

/-- The directories on the way to a place. -/
def wayTo (place : Location) : List Location :=
  (List.range place.length).map fun n => place.take (n + 1)

/-- The places of the files that a run reads for an input. -/
def readFor (input : Path) : List Location :=
  let stem := Companions.stemOf input.name
  [input.place, .ofNames (input.parent.names ++ [stem ++ Companions.instructionEnding]),
    .ofNames (input.parent.names ++ [stem ++ Companions.literalEnding])]

/-- The working directory, with what lies around the inputs and in the directory for outputs. -/
def survey (request : Request) : IO FileTree := do
  let here := (Path.ofText (Text.ofString (← IO.currentDir).toString)).names
  let empty : FileTree := ⟨[], here⟩
  let absolute (name : Text) : Option Path := (empty.resolve (Path.ofText name)).toOption
  let inputs := request.inputs.filterMap absolute
  let asked := (request.outputDirectory.text?.bind absolute).toList
  let directories := (inputs.map Path.parent ++ asked).map Path.place
  let within ← directories.eraseDups.mapM placesIn
  let places := (directories.flatMap wayTo ++ wayTo (.ofNames here) ++ within.flatten).eraseDups
  let wanted := inputs.flatMap readFor
  let found ← places.mapM fun place => do
    return (← entryAt? wanted.contains place).map fun entry => (place, entry)
  return ⟨found.filterMap id, here⟩

/-- Writes the files that are in one tree and not in another. -/
def settle (before after : FileTree) : IO Unit := do
  for (place, entry) in after.entries do
    match entry with
    | .directory | .sealed => pure ()
    | .file content =>
      if before.entryAt? place ≠ some entry then
        IO.FS.writeBinFile (pathOf place) ⟨content.toArray⟩

/-- The time of a notice. -/
def stamp : IO Text := do
  let now ← Std.Time.PlainDateTime.now
  return Text.ofString (now.format "uuuu-MM-dd HH:mm:ss,SSS")

/-- Makes a run, shows what it shows, and gives its status. -/
def perform (settings : Settings) (arguments : List Text) : IO UInt32 := do
  let tree ←
    match CommandLine.parse arguments with
    | .ok (.work request) => survey request
    | _ => pure (FileTree.ofWorkingDirectory [])
  let outcome := Batch.main settings tree arguments
  settle tree outcome.tree
  IO.print (Text.asString outcome.stdout)
  IO.eprint (Text.asString (Event.showAll outcome.threshold (← stamp) outcome.events))
  match outcome.ending with
  | .status code => return code.toUInt32
  | .died cause =>
    IO.eprintln (Text.asString (Event.visible cause.message))
    return 1

end Outside

end LiteralSplice

open LiteralSplice in
/-- One run: the status is 0 if every input has come through, 1 if one has not, and 2 if the
arguments make no sense. -/
def main (arguments : List String) : IO UInt32 := do
  match Settings.ofEnvironment (← Outside.environment) with
  | .error fault =>
    IO.eprintln (Text.asString fault.message)
    return 1
  | .ok settings => Outside.perform settings (arguments.map Text.ofString)
