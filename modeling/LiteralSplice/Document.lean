/-
Hand-off documents: hand-offs written as JSON.

* **`Document`**: instruction lines, and literals and a source if they are given;
* **`Document.schema`**: what a document has to look like;
* **`Document.ofJson`**, **`Document.ofBytes`**: documents from values and from files;
* **`Document.refusal`**: why a value that does not fit is no document;
* **`Document.handoff`**: the hand-off of a document.

Design notes: a file is UTF-8 text; a carriage return, alone or before a line feed, counts as a
line feed, so places in the text are those of the text with line feeds alone.  A value that fits is
flat and is found to fit without much ado; telling what is wrong with one that does not may take
more of the stack than there is.
-/
import LiteralSplice.Handoff
import LiteralSplice.Json.Reader
import LiteralSplice.Json.Schema
import LiteralSplice.Text.Utf8

namespace LiteralSplice

/-- A hand-off as a document states it. -/
structure Document where
  instructions : List Text
  literals : Option (List Text)
  source : Option Text
  deriving DecidableEq, Repr

/-- Why a file is no document. -/
inductive DocumentFault where
  | undecodable (fault : Utf8.Fault)
  | malformed (fault : Json.Fault)
  | mismatch (m : Json.Mismatch)
  /-- The stack does not suffice to tell what is wrong. -/
  | strained (message : Text)

/-- Whether a file cannot be read or refused on the stack there is. -/
def DocumentFault.exhausts : DocumentFault → Bool
  | .malformed (.exceeded (.nesting _)) => true
  | .strained _ => true
  | _ => false

namespace Document

/-- Instructions are required; literals do not repeat; nothing else is allowed but a source. -/
def schema : Json.Schema :=
  .record ["instructions"]
    [("source", .string), ("instructions", .list .string 0 false),
      ("literals", .list .string 0 true)]

/-- The members of a value that fits the schema. -/
def members (v : Json) : Document :=
  ⟨((v.find? "instructions").map Json.texts).getD [], (v.find? "literals").map Json.texts,
    (v.find? "source").bind Json.text?⟩

/-- The document that a value is. -/
def ofJson (v : Json) : Except Json.Mismatch Document :=
  match Json.decisive? (schema.mismatches v) with
  | some m => .error m
  | none => .ok (members v)

/-- The text with every carriage return, alone or before a line feed, as a line feed. -/
def unifyFeeds : Text → Text
  | [] => []
  | [c] => if c = '\r' then ['\n'] else [c]
  | c :: d :: rest =>
    if c = '\r' then
      if d = '\n' then d :: unifyFeeds rest else CodePoint.ofChar '\n' :: unifyFeeds (d :: rest)
    else c :: unifyFeeds (d :: rest)

section

variable [Stack]

/-- Why a value with a mismatch is no document. -/
def refusal (v : Json) (m : Json.Mismatch) : DocumentFault :=
  match Stack.strain v with
  | some message => .strained message
  | none => .mismatch m

/-- The document that a file holds. -/
def ofBytes (bytes : Bytes) : Except DocumentFault Document := do
  let t ← (Utf8.decode bytes).mapError .undecodable
  let v ← (Json.readDocument (unifyFeeds t)).mapError .malformed
  (ofJson v).mapError (refusal v)

end

/-- The document as a value. -/
def toJson (d : Document) : Json :=
  let texts (ts : List Text) : Json := .array (ts.map .string)
  let member (name : Text) (v : Json) : Text × Json := (name, v)
  .object ((d.source.toList.map fun s => member "source" (.string s))
    ++ [member "instructions" (texts d.instructions)]
    ++ (d.literals.toList.map fun ls => member "literals" (texts ls)))

/-- The hand-off of a document; `fileName` stands in for a source that is not given. -/
def handoff (fileName : Text) (d : Document) : Handoff Text :=
  ⟨d.instructions, d.literals.getD [], d.source.getD fileName⟩

end Document

end LiteralSplice
