/-
One input of a batch: from its path to its program.

* **`Job`**: what is the same for all inputs of a batch;
* **`InputFault`**: why an input fails, and which faults end the batch (`InputFault.endsRun`);
* **`Input.read`**: the program of an input, and what is shown meanwhile.

Design notes: reading looks at the tree and cannot change it.
-/
import LiteralSplice.Batch.Console
import LiteralSplice.CommandLine.Request
import LiteralSplice.Program
import LiteralSplice.Settings
import LiteralSplice.Source

namespace LiteralSplice

/-- What is the same for all inputs of a batch. -/
structure Job where
  adapter : Choice
  formats : List Text
  outputDirectory : Option Path
  toStdout : Bool
  deriving DecidableEq, Repr

/-- How the system fails to write a file: it makes none, or it makes one and takes only so many of
its bytes. -/
inductive WriteFault where
  | refused (message : Text)
  | torn (taken : Nat) (message : Text)

def WriteFault.message : WriteFault → Text
  | .refused message => message
  | .torn _ message => message

/-- Why an input fails. -/
inductive InputFault where
  | notFound (path : Path)
  | unsupported (suffix : Text)
  /-- It is said that there is an adapter, and not which; this ends the run. -/
  | namelessAdapter
  | source (fault : SourceFault)
  | tooShort (fault : TooShort)
  | unusable (fault : PathFault)
  | unencodable (run : Utf8.SurrogateRun)
  | unwritten (fault : WriteFault)

def InputFault.message : InputFault → Text
  | .notFound path => "File not found: " ++ path.text
  | .unsupported suffix =>
    "Unsupported input type '" ++ suffix ++ "'. Supported inputs: "
      ++ Text.join ", " inputSuffixes
  | .namelessAdapter => "unhashable type: 'list'"
  | .source fault => fault.message
  | .tooShort fault => fault.message
  | .unusable fault => fault.message
  | .unencodable run => run.message
  | .unwritten fault => fault.message

/-- Whether a fault ends the run. -/
def InputFault.endsRun : InputFault → Bool
  | .namelessAdapter => true
  | .source fault => fault.exhausts
  | _ => false

/-- Whether a fault is one of the system, which takes the outputs of an input away again. -/
def InputFault.isOfSystem : InputFault → Bool
  | .unusable (.refused ..) => true
  | .unwritten _ => true
  | _ => false

/-- What has been shown so far, and the result. -/
structure Shown (ε α : Type) where
  events : List Event
  result : Except ε α

namespace Input

/-- The source of an input: a file whose ending is known, unless its kind is given. -/
def source (job : Job) (t : FileTree) (path : Path) : Except InputFault Source := do
  if !(← (t.isFile path.text).mapError .unusable) then .error (.notFound path)
  else
    match job.adapter with
    | .unsaid =>
      if inputSuffixes.contains path.suffix.lowerAscii then
        (Source.ofPath t path none).mapError .source
      else .error (.unsupported path.suffix)
    | .valueless => .error .namelessAdapter
    | .value key => (Source.ofPath t path (some key)).mapError .source

/-- The line that announces an input. -/
def announcement (path : Path) (s : Source) : Event :=
  .line ("Assembling " ++ path.name ++ " (" ++ s.kind.name ++ ")...")

/-- The notice about an assembled program. -/
def assembledNotice (h : Handoff Text) (p : Program Text) : Event :=
  .notice ⟨.debug, "program_assembler.core.assembler",
    "Assembled " ++ h.source ++ ": " ++ Text.ofNat h.instructions.length
      ++ " instruction line(s), " ++ Text.ofNat h.literals.length ++ " literal(s) -> "
      ++ Text.ofNat p.lines.length ++ " line(s)"⟩

/-- The line that says how large a hand-off is. -/
def sizeLine (h : Handoff Text) : Event :=
  .line ("  " ++ Text.ofNat h.instructions.length ++ " instruction line(s), "
    ++ Text.ofNat h.literals.length ++ " literal(s)")

/-- The program of an input. -/
def read [Stack] (job : Job) (t : FileTree) (path : Path) : Shown InputFault (Program Text) :=
  match source job t path with
  | .error fault => ⟨[], .error fault⟩
  | .ok s =>
    let reply := s.handoff t
    let events := announcement path s :: reply.notices.map .notice
    match reply.answer with
    | .error fault => ⟨events, .error (.source fault)⟩
    | .ok h =>
      match h.assemble with
      | .error fault => ⟨events, .error (.tooShort fault)⟩
      | .ok p => ⟨events ++ [assembledNotice h p, sizeLine h], .ok p⟩

end Input

end LiteralSplice
