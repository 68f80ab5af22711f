/-
A whole run of the program.

* **`Batch.process`**: one input, from its name to its outputs;
* **`Batch.run`**: all inputs of a request, one after the other;
* **`Batch.main`**: a run from a list of arguments, on a disk that takes everything.

Design notes: an input that fails is reported and the run goes on.  What ends a run at once is a
`Death`: a default emitter that does not exist, a path that cannot be looked up where no input is
being read yet, a document that takes more of the stack than there is, an adapter or a log level
that is asked for and not named, a log level that cannot be used, and a full description that cannot
be made.
-/
import LiteralSplice.Batch.Saving
import LiteralSplice.CommandLine.Help
import LiteralSplice.FormatList

namespace LiteralSplice

/-- Why a run ends at once. -/
inductive Death where
  | unknownEmitter (key : Text)
  | input (fault : InputFault)
  | path (fault : PathFault)
  | level (fault : LevelFault)
  | help (fault : Template.Fault)
  | render (fault : RenderFault)

def Death.message : Death → Text
  | .unknownEmitter key => key.quoted
  | .input fault => fault.message
  | .path fault => fault.message
  | .level fault => fault.message
  | .help fault => fault.message
  | .render fault => fault.message

/-- How a run ends. -/
inductive Ending where
  | status (code : Nat)
  | died (cause : Death)

/-- How far a run has come. -/
structure Progress where
  tree : FileTree
  stdout : Text
  events : List Event
  saved : List Path
  failures : Nat

/-- What a run leaves behind. -/
structure Outcome where
  tree : FileTree
  stdout : Text
  events : List Event
  threshold : Nat
  ending : Ending

namespace Progress

/-- The line about an input that fails. -/
def fail (p : Progress) (path : Path) (fault : InputFault) : Progress :=
  { p with
    events := p.events ++ [.line ("Error: " ++ path.name ++ ": " ++ fault.message)]
    failures := p.failures + 1 }

/-- More events. -/
def tell (p : Progress) (events : List Event) : Progress := { p with events := p.events ++ events }

end Progress

namespace Batch

/-- The outputs of a program in the given formats. -/
def renderAll (formats : List Text) (p : Program Text) : Except Death (List Rendering) :=
  formats.mapM fun key =>
    match Emitter.ofKey? key with
    | none => .error (.unknownEmitter key)
    | some e => (e.render p.layout).mapError .render

section

variable [Stack]

/-- One input whose path has been made absolute. -/
def process (disk : Disk) (job : Job) (p : Progress) (path : Path) :
    Except (Progress × Death) Progress :=
  let input := Input.read job p.tree path
  let p := p.tell input.events
  match input.result with
  | .error fault => if fault.endsRun then .error (p, .input fault) else .ok (p.fail path fault)
  | .ok program =>
    if job.toStdout then
      match Utf8.surrogateRun? program.text with
      | some run => .ok (p.fail path (.unencodable run))
      | none => .ok { p with stdout := p.stdout ++ program.text }
    else
      match renderAll job.formats program with
      | .error cause => .error (p, cause)
      | .ok outputs =>
        let directory := job.outputDirectory.getD path.parent
        let saved := Saving.saveAll disk directory path.stem p.tree outputs
        let p := { p with tree := saved.tree }.tell saved.events
        match saved.result with
        | .error fault => .ok (p.fail path fault)
        | .ok paths => .ok { p with saved := p.saved ++ paths }

/-- The inputs with the given names, one after the other. -/
def processAll (disk : Disk) (job : Job) (p : Progress) :
    List Text → Except (Progress × Death) Progress
  | [] => .ok p
  | name :: rest =>
    match p.tree.resolve (Path.ofText name) with
    | .error fault => .error (p, .path fault)
    | .ok path => do processAll disk job (← process disk job p path) rest

end

/-- The lines that end a run. -/
def closing (p : Progress) : List Event :=
  [.line [], .line ("Done! Saved " ++ Text.ofNat p.saved.length ++ " file(s), "
    ++ Text.ofNat p.failures ++ " input(s) failed.")]

/-- The directory for all outputs, if one is asked for: the path must lead to a directory. -/
def outputDirectory (t : FileTree) (asked : Option Text) :
    Except Death (Except Text (Option Path)) :=
  match asked with
  | none => .ok (.ok none)
  | some [] => .ok (.ok none)
  | some name =>
    match t.isDirectory (Path.ofText name).text with
    | .error fault => .error (.path fault)
    | .ok false => .ok (.error ("Output directory does not exist: " ++ name))
    | .ok true =>
      match t.resolve (Path.ofText name) with
      | .error fault => .error (.path fault)
      | .ok path => .ok (.ok (some path))

/-- A run that does not get as far as its inputs. -/
def refusal (t : FileTree) (message : Text) : Progress × Ending :=
  (⟨t, [], [.line ("Error: " ++ message)], [], 0⟩, .status 1)

/-- All inputs of a request. -/
def run [Stack] (disk : Disk) (settings : Settings) (t : FileTree) (request : Request) :
    Progress × Ending :=
  match FormatList.parse settings.defaultEmitter request.formats.text? with
  | .error fault => refusal t fault.message
  | .ok formats =>
    match outputDirectory t request.outputDirectory.text? with
    | .error cause => (⟨t, [], [], [], 0⟩, .died cause)
    | .ok (.error message) => refusal t message
    | .ok (.ok directory) =>
      let job : Job := ⟨request.adapter, formats, directory, request.toStdout⟩
      match processAll disk job ⟨t, [], [], [], 0⟩ request.inputs with
      | .error (p, cause) => (p, .died cause)
      | .ok p =>
        let p := if request.toStdout then p else p.tell (closing p)
        (p, .status (if p.failures = 0 then 0 else 1))

/-- The least rank of notices that are shown in a run. -/
def threshold (settings : Settings) (request : Request) : Except LevelFault Nat :=
  match request.logLevel with
  | .unsaid => LogLevel.threshold settings.logLevel
  | .valueless => .error .valueless
  | .value level => LogLevel.threshold level

/-- A run from a list of arguments, on a disk of any kind. -/
def mainOn [Stack] (disk : Disk) (settings : Settings) (t : FileTree) (arguments : List Text) :
    Outcome :=
  match CommandLine.parse arguments with
  | .error fault =>
    let lines := CommandLine.usageError fault
    ⟨t, [], [.line lines.dropLast], 0, .status 2⟩
  | .ok .help =>
    match CommandLine.help settings with
    | .error fault => ⟨t, [], [], 0, .died (.help fault)⟩
    | .ok text => ⟨t, text, [], 0, .status 0⟩
  | .ok (.work request) =>
    match threshold settings request with
    | .error fault => ⟨t, [], [], 0, .died (.level fault)⟩
    | .ok threshold =>
      let (p, ending) := run disk settings t request
      ⟨p.tree, p.stdout, p.events, threshold, ending⟩

/-- A run from a list of arguments. -/
def main [Stack] : Settings → FileTree → List Text → Outcome := mainOn .sound

end Batch

end LiteralSplice
