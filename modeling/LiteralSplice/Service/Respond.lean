/-
The service.

* **`Route`**: the paths that the service knows;
* **`Service.assemble`**: the program of a hand-off, or why it is refused;
* **`Service.respond`**: the answer to a call.

Design notes: a call is refused first for its path, then for its method, then for its body,
then for an emitter that does not exist, then for its size, then for its shape, and last for its
length.  An answer can be known and still be impossible to send, because a text in it holds a
surrogate or is no text at all, or a number in it is not finite; this is `Unsendable`.
-/
import LiteralSplice.Emitter
import LiteralSplice.FileTree.Path
import LiteralSplice.Service.Body
import LiteralSplice.Service.Disposition

namespace LiteralSplice

/-- The paths that the service knows. -/
inductive Route where
  | health
  | emitters
  | assemble
  | emit (emitter : Text)
  deriving DecidableEq, Repr

/-- Why an answer cannot be sent. -/
inductive Unsendable where
  /-- The text of the answer holds surrogates; where they stand is counted in all of it. -/
  | surrogates (run : Utf8.SurrogateRun)
  /-- A text of a program holds surrogates; where they stand is counted in that text. -/
  | surrogatesInProgram (run : Utf8.SurrogateRun)
  | undecodable (fault : Utf8.Fault)
  | notFinite
  deriving DecidableEq, Repr

def Unsendable.message : Unsendable → Text
  | .surrogates run => run.message
  | .surrogatesInProgram run =>
    "Error serializing to JSON: UnicodeEncodeError: " ++ run.message
  | .undecodable fault => fault.message
  | .notFinite => "Out of range float values are not JSON compliant"

namespace Route

/-- A path without a line feed at its end. -/
def withoutFeed (path : Text) : Text :=
  if path.getLast? = some (CodePoint.ofChar '\n') then path.dropLast else path

/-- The route of a path. -/
def ofPath? (path : Text) : Option Route :=
  let plain := withoutFeed path
  if plain = "/health" then some health
  else if plain = "/emitters" then some emitters
  else if plain = "/assemble" then some assemble
  else
    let stem : Text := "/assemble/"
    let name := path.drop stem.length
    if stem.isPrefixOf path ∧ name ≠ [] ∧ ¬ name.contains '/' then some (emit name) else none

/-- The one method of a route. -/
def method : Route → Text
  | health => "GET"
  | emitters => "GET"
  | assemble => "POST"
  | emit _ => "POST"

end Route

namespace Service

def version : Text := "0.1.0"

/-- The answer to a question about the service itself. -/
def healthAnswer : Answer :=
  Answer.json 200 (.object [("status", .string "ok"), ("version", .string version)])

/-- The list of all emitters. -/
def emittersAnswer : Answer :=
  Answer.json 200 (.array (Emitter.all.map fun e =>
    .object [("key", .string e.key), ("name", .string e.name), ("suffix", .string e.suffix)]))

/-- Why a hand-off is refused. -/
inductive Refusal where
  | tooLarge (size : Nat) (limit : Int)
  | misshapen (fault : ShapeFault)
  | tooShort (fault : TooShort)

def Refusal.status : Refusal → Nat
  | .tooLarge .. => 413
  | .misshapen _ => 422
  | .tooShort _ => 422

def Refusal.message : Refusal → Text
  | .tooLarge size limit =>
    "Unit has " ++ Text.ofNat size ++ " lines; the limit is " ++ Text.ofInt limit ++ "."
  | .misshapen fault => fault.message
  | .tooShort fault => fault.message

def Refusal.answer (r : Refusal) : Answer := Answer.detail r.status (.string r.message)

/-- The program of a hand-off. -/
def assemble (limit : Int) (h : Handoff Text) : Except Refusal (Program Text) := do
  let size := h.instructions.length + h.literals.length
  if limit < size then .error (.tooLarge size limit)
  let h ← h.checkRepeats.mapError .misshapen
  h.assemble.mapError .tooShort

/-- The merged lines of a program and where the literals went; the first text with surrogates
cannot be sent. -/
def programAnswer (p : Program Text) : Except Unsendable Answer :=
  match (p.source :: p.lines).findSome? Utf8.surrogateRun? with
  | some run => .error (.surrogatesInProgram run)
  | none =>
    .ok (Answer.json 200 (.object [("source_filename", .string p.source),
      ("lines", .array (p.lines.map .string)), ("literal_count", .int p.literalCount),
      ("separator_index", .int p.separatorIndex)]))

/-- The name under which an output is downloaded. -/
def downloadName (source suffix : Text) : Text :=
  let stem := (Path.ofText source).stem
  let base : Text :=
    if stem = [] ∨ stem.head? = some (CodePoint.ofChar '<') then "program" else stem
  base ++ suffix

/-- A media type as a content type: text is in UTF-8. -/
def contentType (mediaType : Text) : Text :=
  if ("text/" : Text).isPrefixOf mediaType then mediaType ++ "; charset=utf-8" else mediaType

/-- An output as a download. -/
def download (source : Text) (r : Rendering) : Except Unsendable Answer := do
  let header ← (Disposition.header (downloadName source r.suffix)).mapError .surrogates
  return ⟨200, contentType r.mediaType, some header, none, r.content⟩

/-- The answer for an emitter that does not exist. -/
def unknownEmitter (key : Text) : Answer :=
  Answer.detail 404 (.string ("Unknown emitter '" ++ key ++ "'. Available emitters: "
    ++ Emitter.keyList))

/-- The answer to a hand-off. -/
def assembleAnswer (limit : Int) (h : Handoff Text) : Except Unsendable Answer :=
  match assemble limit h with
  | .error refusal => .ok refusal.answer
  | .ok p => programAnswer p

/-- The answer to a hand-off that is to be written by an emitter. -/
def emitAnswer (limit : Int) (key : Text) (h : Handoff Text) : Except Unsendable Answer :=
  match Emitter.ofKey? key with
  | none => .ok (unknownEmitter key)
  | some e =>
    match assemble limit h with
    | .error refusal => .ok refusal.answer
    | .ok p =>
      match e.render p.layout with
      | .error fault => .ok (Answer.detail 500 (.string fault.message))
      | .ok r => download p.source r

section

variable [Stack]

/-- The hand-off in the body of a call. -/
def handoff (c : Call) : Except BodyFault (Handoff Text) := do Body.handoff (← Body.read c)

/-- The answer to a call with a body that is refused; it repeats what was wrong, which it
cannot where that is no text or holds a number that is not finite. -/
def refuse : BodyFault → Except Unsendable Answer
  | .unreadable => .ok (Answer.detail 400 (.string "There was an error parsing the body"))
  | .undecodable fault => .error (.undecodable fault)
  | .issues list =>
    if list.all fun i => i.repeated.isFinite then
      .ok (Answer.detail 422 (.array (list.map Issue.toJson)))
    else .error .notFinite

/-- The answer on a route. -/
def answer (limit : Int) (c : Call) : Route → Except Unsendable Answer
  | .health => .ok healthAnswer
  | .emitters => .ok emittersAnswer
  | .assemble =>
    match handoff c with
    | .error fault => refuse fault
    | .ok h => assembleAnswer limit h
  | .emit key =>
    match handoff c with
    | .error fault => refuse fault
    | .ok h => emitAnswer limit key h

/-- The answer to a call, before it is sent. -/
def prepare (limit : Int) (c : Call) : Except Unsendable Answer :=
  match Route.ofPath? c.path with
  | none => .ok (Answer.detail 404 (.string "Not Found"))
  | some route =>
    if c.method = route.method then answer limit c route
    else
      .ok { Answer.detail 405 (.string "Method Not Allowed") with allow := some route.method }

/-- The answer to a call; its body has bytes. -/
def respond (limit : Int) (c : Call) : Except Unsendable Answer := do
  let a ← prepare limit c
  match Utf8.surrogateRun? a.body with
  | some run => .error (.surrogates run)
  | none => return a

end

end Service

end LiteralSplice
