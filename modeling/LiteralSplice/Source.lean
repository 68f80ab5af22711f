/-
Sources: files that a hand-off is read from.

A source is opened under a path and read when something is first asked of it.  What has been
read once is kept, whatever becomes of the files; what could not be read leaves no trace.

* **`Source`**: a document, or the two files of a listing, read or not yet read;
* **`Source.ofPath`**: a source under a path;
* **`Source.load`**: the source with its files read;
* **`Source.handoff`**: the hand-off, with its shape checked;
* **`SourceFault.exhausts`**: the faults of a source that takes more of the stack than there is.

Design notes: the files of a listing are looked for when it is opened and read later, so they
may be gone by then.  The name of what was compiled changes when a document is read.
-/
import LiteralSplice.Document
import LiteralSplice.Listing.Companions
import LiteralSplice.Listing.Records
import LiteralSplice.Notice

namespace LiteralSplice

/-- The kinds of sources. -/
inductive SourceKind where
  | document
  | listing
  deriving DecidableEq, Repr

namespace SourceKind

/-- Every kind, in the order of their keys. -/
def all : List SourceKind := [document, listing]

/-- The word by which a kind is chosen. -/
def key : SourceKind → Text
  | document => "json"
  | listing => "listing"

def name : SourceKind → Text
  | document => "JSON hand-off"
  | listing => "Listing files"

/-- The kind with a key. -/
def ofKey? (k : Text) : Option SourceKind := all.find? fun kind => kind.key == k

/-- The kind that the ending of a path stands for. -/
def ofPath (path : Path) : SourceKind :=
  if path.suffix.lowerAscii = ".json" then document else listing

end SourceKind

/-- The lines of a listing. -/
structure ListingLines where
  instructions : List Text
  literals : List Text
  deriving DecidableEq, Repr

/-- A file that a hand-off is read from, with what has been read. -/
inductive Source where
  | document (path : Path) (read : Option Document)
  | listing (files : Companions) (read : Option ListingLines)
  deriving DecidableEq, Repr

/-- Why a file of a listing has no records. -/
inductive RecordsFault where
  | unreadable (fault : PathFault)
  | undecodable (fault : Utf8.Fault)
  deriving DecidableEq, Repr

def RecordsFault.message : RecordsFault → Text
  | .unreadable fault => fault.message
  | .undecodable fault => fault.message

/-- Why nothing comes from a source. -/
inductive SourceFault where
  /-- There is no kind with this key. -/
  | unknownKind (key : Text)
  /-- The path of a listing cannot be looked up. -/
  | unresolved (fault : PathFault)
  /-- The file of a document cannot be read. -/
  | unreadable (path : Path) (fault : PathFault)
  /-- The file of a document holds no document. -/
  | undocumented (path : Path) (fault : DocumentFault)
  /-- A listing has no file of instructions. -/
  | unlisted (stem : Text)
  /-- A file of a listing cannot be read. -/
  | unrecorded (stem : Text) (fault : RecordsFault)
  /-- The hand-off has not the shape it must have. -/
  | misshapen (fault : ShapeFault)

/-- What a place in a document is called. -/
def locationText (path : List Json.Step) : Text :=
  match path with
  | [] => "<root>"
  | _ => Text.join "/" (path.map Json.Step.text)

def SourceFault.message : SourceFault → Text
  | .unknownKind key =>
    "Unknown adapter '" ++ key ++ "'. Available adapters: "
      ++ Text.join ", " (SourceKind.all.map SourceKind.key)
  | .unresolved fault => fault.message
  | .unreadable _ .zero => PathFault.zero.message
  | .unreadable _ (.unencodable run) => run.message
  | .unreadable path fault => "Cannot read " ++ path.text ++ ": " ++ fault.message
  | .undocumented _ (.undecodable fault) => fault.message
  | .undocumented _ (.malformed (.exceeded excess)) => excess.message
  | .undocumented path (.malformed fault) =>
    "Invalid JSON in " ++ path.text ++ ": " ++ fault.message
  | .undocumented path (.mismatch m) =>
    "Hand-off document " ++ path.text ++ " is invalid at " ++ locationText m.path ++ ": "
      ++ m.complaint.message
  | .undocumented _ (.strained message) => message
  | .unlisted stem => "Instruction listing not found: " ++ stem ++ Companions.instructionEnding
  | .unrecorded stem fault => "Cannot read listing " ++ stem ++ ": " ++ fault.message
  | .misshapen fault => fault.message

/-- Whether a source cannot be read or refused on the stack there is. -/
def SourceFault.exhausts : SourceFault → Bool
  | .undocumented _ fault => fault.exhausts
  | _ => false

/-- The document in a file. -/
def Document.load [Stack] (t : FileTree) (path : Path) : Except SourceFault Document := do
  let bytes ← (t.read path.text).mapError (.unreadable path)
  (Document.ofBytes bytes).mapError (.undocumented path)

/-- The records of a file. -/
def Records.load (t : FileTree) (path : Text) : Except RecordsFault (List Text) := do
  let bytes ← (t.read path).mapError .unreadable
  (Records.ofBytes bytes).mapError .undecodable

/-- The lines of a listing. -/
def Companions.load (t : FileTree) (files : Companions) : Except SourceFault ListingLines :=
  match files.instructions with
  | none => .error (.unlisted files.stem)
  | some path => do
    let instructions ← (Records.load t path.text).mapError (.unrecorded files.stem)
    match files.literals with
    | none => return ⟨instructions, []⟩
    | some path =>
      let records ← (Records.load t path.text).mapError (.unrecorded files.stem)
      return ⟨instructions, Records.nonblank records⟩

namespace Source

/-- A source of a given kind under a path. -/
def openAs (t : FileTree) (path : Path) : SourceKind → Except SourceFault Source
  | .document => .ok (.document path none)
  | .listing => do
    let files ← (Companions.resolve t path).mapError .unresolved
    return .listing files none

/-- A source under a path, of the kind with the given key or else of the kind that the ending of
the path stands for. -/
def ofPath (t : FileTree) (path : Path) : Option Text → Except SourceFault Source
  | none => openAs t path (SourceKind.ofPath path)
  | some key =>
    match SourceKind.ofKey? key with
    | some kind => openAs t path kind
    | none => .error (.unknownKind key)

def kind : Source → SourceKind
  | document .. => .document
  | listing .. => .listing

/-- The name of what was compiled, as far as it is known. -/
def sourceName : Source → Text
  | document path read => (read.bind Document.source).getD path.name
  | listing files _ => files.stem ++ Companions.instructionEnding

/-- The source with its files read, and what there is to report about it. -/
def load [Stack] (t : FileTree) : Source → Except SourceFault (Source × List Notice)
  | document path none => do
    let d ← Document.load t path
    return (document path (some d),
      [⟨.info, "program_assembler.adapters.json_unit",
        "Loaded hand-off document " ++ path.text⟩])
  | listing files none => do
    let lines ← files.load t
    return (listing files (some lines),
      [⟨.info, "program_assembler.adapters.listing",
        "Loaded listing " ++ files.stem ++ " (" ++ Text.ofNat lines.instructions.length
          ++ " instruction line(s), " ++ Text.ofNat lines.literals.length ++ " literal(s))"⟩])
  | source => .ok (source, [])

/-- What has been read, as a hand-off. -/
def contents : Source → Handoff Text
  | document path read => (read.getD ⟨[], none, none⟩).handoff path.name
  | listing files read =>
    let lines := read.getD ⟨[], []⟩
    ⟨lines.instructions, lines.literals, files.stem ++ Companions.instructionEnding⟩

/-- An answer of a source, the source after it, and what there is to report. -/
structure Reply (α : Type) where
  answer : Except SourceFault α
  source : Source
  notices : List Notice

section

variable [Stack]

/-- Reads the source if need be and answers from what has been read. -/
def ask {α : Type} (t : FileTree) (s : Source)
    (question : Handoff Text → Except SourceFault α) : Reply α :=
  match s.load t with
  | .error fault => ⟨.error fault, s, []⟩
  | .ok (loaded, notices) => ⟨question loaded.contents, loaded, notices⟩

/-- The instruction lines. -/
def instructions (t : FileTree) (s : Source) : Reply (List Text) :=
  s.ask t fun h => .ok h.instructions

/-- The literal declarations. -/
def literals (t : FileTree) (s : Source) : Reply (List Text) :=
  s.ask t fun h => .ok h.literals

/-- The hand-off, with its shape checked. -/
def handoff (t : FileTree) (s : Source) : Reply (Handoff Text) :=
  s.ask t fun h => h.checkRepeats.mapError .misshapen

end

end Source

end LiteralSplice
