/-
Emitters: the forms in which a program is written.

* **`Emitter`**: plain text, or a JSON listing with the place of the literals recorded;
* **`Emitter.render`**: the one output of an emitter;
* **`Emitter.listingSchema`**: what every listing has to look like.

Design notes: the listing is checked against its schema before it is written, so an emitter can
refuse a layout.  The schema bounds each number by itself; it does not compare the numbers with
the lines.
-/
import LiteralSplice.Json.Schema
import LiteralSplice.Json.Writer
import LiteralSplice.Layout

namespace LiteralSplice

/-- A form in which a program is written. -/
inductive Emitter where
  | plainText
  | jsonListing
  deriving DecidableEq, Repr

/-- One output: what to add to the name of the file, what to write, and its media type. -/
structure Rendering where
  suffix : Text
  content : Text
  mediaType : Text
  deriving DecidableEq, Repr

/-- Why an emitter refuses a layout. -/
inductive RenderFault where
  | notText (fault : NotText)
  | mismatch (m : Json.Mismatch)

def RenderFault.message : RenderFault → Text
  | .notText fault => fault.message
  | .mismatch m => m.complaint.message

namespace Emitter

/-- Every emitter, in the order of their keys. -/
def all : List Emitter := [jsonListing, plainText]

/-- The word by which an emitter is chosen. -/
def key : Emitter → Text
  | plainText => "plain_text"
  | jsonListing => "json_listing"

def name : Emitter → Text
  | plainText => "Plain text program"
  | jsonListing => "JSON listing"

def suffix : Emitter → Text
  | plainText => ".ll"
  | jsonListing => "-listing.json"

def mediaType : Emitter → Text
  | plainText => "text/plain"
  | jsonListing => "application/json"

/-- The emitter with a key. -/
def ofKey? (k : Text) : Option Emitter := all.find? fun e => e.key == k

/-- The keys of all emitters, as they are listed in messages. -/
def keyList : Text := Text.join ", " (all.map key)

/-- What every listing has to look like: at least a header, a separator and one instruction. -/
def listingSchema : Json.Schema :=
  .record ["source", "lines", "splice"]
    [("source", .string),
      ("lines", .list .string (spliceIndex + 2) false),
      ("splice", .record ["start", "literal_count", "separator_index"]
        [("start", .exactly spliceIndex),
          ("literal_count", .integer 0),
          ("separator_index", .integer spliceIndex)])]

/-- The listing of a layout. -/
def listing (l : Layout) : Json :=
  .object [("source", l.source), ("lines", .array l.lines),
    ("splice", .object [("start", .int spliceIndex),
      ("literal_count", l.literalCount.toJson), ("separator_index", .int l.separatorIndex)])]

/-- What an emitter writes. -/
def content : Emitter → Layout → Except RenderFault Text
  | plainText, l => l.text.mapError .notText
  | jsonListing, l =>
    match Json.decisive? (listingSchema.mismatches (listing l)) with
    | some m => .error (.mismatch m)
    | none => .ok ((listing l).indented ++ "\n")

/-- The output of an emitter for a layout. -/
def render (e : Emitter) (l : Layout) : Except RenderFault Rendering := do
  let content ← e.content l
  return ⟨e.suffix, content, e.mediaType⟩

end Emitter

end LiteralSplice
