/-
The bodies of calls.

* **`Body.isJson`**: whether a content type announces JSON;
* **`Body.read`**: the value of a body;
* **`Body.handoff`**: the hand-off that a value states, or everything that is wrong with it.

Design notes: a body that is not announced as JSON is a value too, namely the string of its
text.  Nothing is converted: a line has to be a string and a list of lines a list.  Members that
are not asked for are ignored.  An answer repeats the values it complains about, but no member
whose name marks it as hidden.
-/
import LiteralSplice.Handoff
import LiteralSplice.Json.Encoding
import LiteralSplice.Json.Reader
import LiteralSplice.Json.Schema
import LiteralSplice.Service.Message
import LiteralSplice.Text.Blank

namespace LiteralSplice

/-- Something that is wrong with a body. -/
structure Issue where
  kind : Text
  path : List Json.Step
  message : Text
  input : Json
  context : Option Json

namespace Issue

/-- A step of a path as a value. -/
def stepJson : Json.Step → Json
  | .key name => .string name
  | .index i => .int i

/-- Whether a member is left out of repeated values, going by its name. -/
def isHidden (name : Text) : Bool := ("_sa" : Text).isPrefixOf name

/-- The value that an issue repeats. -/
def repeated (i : Issue) : Json := i.input.without isHidden

/-- An issue as a value. -/
def toJson (i : Issue) : Json :=
  let member (name : Text) (v : Json) : Text × Json := (name, v)
  .object ([member "type" (.string i.kind),
      member "loc" (.array (.string "body" :: i.path.map stepJson)),
      member "msg" (.string i.message), member "input" i.repeated]
    ++ i.context.toList.map (member "ctx"))

def missing (path : List Json.Step) (input : Json) : Issue :=
  ⟨"missing", path, "Field required", input, none⟩

def notList (path : List Json.Step) (input : Json) : Issue :=
  ⟨"list_type", path, "Input should be a valid list", input, none⟩

def notString (path : List Json.Step) (input : Json) : Issue :=
  ⟨"string_type", path, "Input should be a valid string", input, none⟩

def notObject (input : Json) : Issue :=
  ⟨"model_attributes_type", [],
    "Input should be a valid dictionary or object to extract fields from", input, none⟩

def notJson (reason : Json.Reason) (position : Nat) : Issue :=
  ⟨"json_invalid", [.index position], "JSON decode error", .object [],
    some (.object [("error", .string reason.message)])⟩

end Issue

/-- Why a call is refused for its body. -/
inductive BodyFault where
  /-- The body is announced as JSON and cannot be read as any text, or holds too long a number or is
  nested too deep. -/
  | unreadable
  /-- The body is not announced as JSON and is no text to repeat. -/
  | undecodable (fault : Utf8.Fault)
  | issues (list : List Issue)

namespace Body

/-- A blank that may stand around a content type: blanks beyond ASCII are part of it. -/
def isMargin (c : CodePoint) : Bool := c.isBlank && c.val < 0x80

/-- Whether a content type announces JSON: its parameters and the size of its letters do not
matter. -/
def isJson (contentType : Text) : Bool :=
  let kind := (((contentType.split ';').head?.getD []).trimBy isMargin).lowerAscii
  match kind.split '/' with
  | [main, sub] => main == "application" && (sub == "json" || ("+json" : Text).isSuffixOf sub)
  | _ => false

/-- The value of a body. -/
def read [Stack] (c : Call) : Except BodyFault Json :=
  if c.body = [] then .error (.issues [Issue.missing [] .null])
  else if (c.contentType.map isJson).getD false then
    match Json.textOfBytes? c.body with
    | none => .error .unreadable
    | some t =>
      match Json.read t with
      | .error (.malformed reason place) => .error (.issues [Issue.notJson reason place.position])
      | .error (.exceeded _) => .error .unreadable
      | .ok v => .ok v
  else
    match Utf8.decode c.body with
    | .ok t => .ok (.string t)
    | .error fault => .error (.undecodable fault)

/-- What is wrong with the lines of a list, from an index on. -/
def lineIssues (name : Text) (index : Nat) : List Json → List Issue
  | [] => []
  | .string _ :: rest => lineIssues name (index + 1) rest
  | v :: rest => Issue.notString [.key name, .index index] v :: lineIssues name (index + 1) rest

/-- What is wrong with a list of lines. -/
def listIssues (name : Text) : Json → List Issue
  | .array vs => lineIssues name 0 vs
  | v => [Issue.notList [.key name] v]

/-- What is wrong with a value that should be a hand-off. -/
def issues (v : Json) : List Issue :=
  match v with
  | .object _ =>
    (match v.find? "instructions" with
      | none => [Issue.missing [.key "instructions"] v]
      | some w => listIssues "instructions" w)
    ++ (match v.find? "literals" with
      | none => []
      | some w => listIssues "literals" w)
    ++ (match v.find? "source_filename" with
      | none => []
      | some (.string _) => []
      | some w => [Issue.notString [.key "source_filename"] w])
  | _ => [Issue.notObject v]

/-- The name of the source, where a call gives none. -/
def unnamedSource : Text := "<request>"

/-- The hand-off that a value states. -/
def handoff (v : Json) : Except BodyFault (Handoff Text) :=
  match issues v with
  | [] => .ok ⟨((v.find? "instructions").map Json.texts).getD [],
      ((v.find? "literals").map Json.texts).getD [],
      ((v.find? "source_filename").bind Json.text?).getD unnamedSource⟩
  | list => .error (.issues list)

end Body

end LiteralSplice
