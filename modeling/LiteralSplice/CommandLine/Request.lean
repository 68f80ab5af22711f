/-
What a command line asks for.

* **`Choice`**: what is said about something that can be chosen;
* **`Request`**: the inputs, and what the switches say about them;
* **`Word`**: an argument by itself, told apart by how it is written;
* **`CommandLine.parse`**: the request of a list of arguments;
* **`UsageFault`**: why a list of arguments makes no request.

Design notes: the arguments are looked at twice.  First each one by itself: a switch may be
shortened as long as no other begins the same way, a value may be joined to it by an equals
sign, and what begins with a dash and is no switch is set aside, unless it is a negative number
or holds a blank.  A lone double dash ends the switches.  Then they are taken from left to right.
A double dash is dropped even where it is joined to a switch, which then stands without a value.
The inputs have to stand together: once a switch follows them, further ones are set aside.
Missing inputs are reported before arguments that were set aside.
-/
import LiteralSplice.CommandLine.Switch
import LiteralSplice.Text.DecimalDigit
import LiteralSplice.Text.Upper

namespace LiteralSplice

/-- What is said about something that can be chosen. -/
inductive Choice where
  | unsaid
  /-- It is said that there is a choice, and not which. -/
  | valueless
  | value (t : Text)
  deriving DecidableEq, Repr

/-- What is chosen, if anything is. -/
def Choice.text? : Choice → Option Text
  | .value t => some t
  | _ => none

/-- What a command line asks for. -/
structure Request where
  inputs : List Text
  adapter : Choice
  formats : Choice
  outputDirectory : Choice
  toStdout : Bool
  logLevel : Choice
  deriving DecidableEq, Repr

/-- Why a list of arguments makes no request. -/
inductive UsageFault where
  | ambiguous (given : Text) (spellings : List Text)
  | valueMissing (s : Switch)
  | valueIgnored (s : Switch) (value : Text)
  | noChoice (s : Switch) (value : Text) (choices : List Text)
  | inputsMissing
  | unrecognized (arguments : List Text)
  deriving DecidableEq, Repr

def UsageFault.message : UsageFault → Text
  | .ambiguous given spellings =>
    "ambiguous option: " ++ given ++ " could match " ++ Text.join ", " spellings
  | .valueMissing s => "argument " ++ s.label ++ ": expected one argument"
  | .valueIgnored s value =>
    "argument " ++ s.label ++ ": ignored explicit argument " ++ value.quoted
  | .noChoice s value choices =>
    "argument " ++ s.label ++ ": invalid choice: " ++ value.quoted ++ " (choose from "
      ++ Text.join ", " (choices.map Text.quoted) ++ ")"
  | .inputsMissing => "the following arguments are required: input_files"
  | .unrecognized arguments => "unrecognized arguments: " ++ Text.join " " arguments

/-- An argument by itself.  A value may be joined to a switch: after an equals sign, or right after
a single letter. -/
inductive Word where
  | value (t : Text)
  | switch (s : Switch) (short : Bool) (joined : Option Text)
  | unknown (t : Text)
  | doubleDash
  deriving DecidableEq, Repr

namespace Word

/-- Whether a text is a dash with a whole or a decimal number; a line feed may follow. -/
def isNegativeNumber (t : Text) : Bool :=
  let isDigit (c : CodePoint) : Bool := c.decimal?.isSome
  match t with
  | dash :: rest =>
    let body := if rest.getLast? = some (CodePoint.ofChar '\n') then rest.dropLast else rest
    let whole := body.takeWhile isDigit
    let left := body.dropWhile isDigit
    dash == '-' &&
      match left with
      | [] => !whole.isEmpty
      | point :: places => point == '.' && !places.isEmpty && places.all isDigit
  | [] => false

/-- What is no switch: a value after all, or set aside. -/
def ofUnknown (t : Text) : Word :=
  if isNegativeNumber t || t.contains ' ' then .value t else .unknown t

/-- A shortened long switch, with or without a value. -/
def ofShortened (t stem : Text) (joined : Option Text) : Except UsageFault Word :=
  match Switch.table.filter fun (spelling, _) => stem.isPrefixOf spelling with
  | [] => .ok (ofUnknown t)
  | [(_, s)] => .ok (.switch s false joined)
  | found => .error (.ambiguous t (found.map (·.1)))

/-- A single dash with more than one letter. -/
def ofCluster (t : Text) : Word :=
  match Switch.ofSpelling? (t.take 2) with
  | some s => .switch s true (some (t.drop 2))
  | none => ofUnknown t

/-- What an argument is by itself. -/
def ofDashed (t : Text) : Except UsageFault Word :=
  let isShort (spelling : Text) : Bool := spelling.length == 2
  let parts := t.splitFirst? '='
  let joined := parts.map (·.2)
  let stem := (parts.map (·.1)).getD t
  match Switch.ofSpelling? t, Switch.ofSpelling? stem with
  | some s, _ => .ok (.switch s (isShort t) none)
  | none, some s => .ok (.switch s (isShort stem) joined)
  | none, none =>
    if ("--" : Text).isPrefixOf t then ofShortened t stem joined else .ok (ofCluster t)

/-- What the arguments are by themselves; after a lone double dash all are values. -/
def classify : List Text → Except UsageFault (List Word)
  | [] => .ok []
  | t :: rest => do
    if t = "--" then return .doubleDash :: rest.map .value
    let word ←
      if t.head? = some (CodePoint.ofChar '-') ∧ 1 < t.length then ofDashed t else .ok (.value t)
    return word :: (← classify rest)

end Word

/-- Where the inputs stand in what has been read. -/
inductive Phase where
  | before
  | inside
  | after
  deriving DecidableEq, Repr

/-- What has been read of a command line. -/
structure Reading where
  request : Request
  phase : Phase
  aside : List Text

/-- What a command line asks for: help, or the inputs to be processed. -/
inductive Asked where
  | help
  | work (request : Request)
  deriving DecidableEq, Repr

namespace Reading

/-- An input, or an argument too many. -/
def takeValue (r : Reading) (t : Text) : Reading :=
  match r.phase with
  | .after => { r with aside := r.aside ++ [t] }
  | _ => { r with phase := .inside, request := { r.request with inputs := r.request.inputs ++ [t] } }

/-- The end of a group of inputs. -/
def endGroup (r : Reading) : Reading :=
  if r.phase = .inside then { r with phase := .after } else r

/-- A switch with what is chosen by it. -/
def takeSwitch (r : Reading) (s : Switch) (choice : Choice) : Reading :=
  match s with
  | .adapter => { r with request := { r.request with adapter := choice } }
  | .formats => { r with request := { r.request with formats := choice } }
  | .outputDirectory => { r with request := { r.request with outputDirectory := choice } }
  | .toStdout => { r with request := { r.request with toStdout := true } }
  | .logLevel => { r with request := { r.request with logLevel := choice } }
  | .help => r

/-- A switch with a value, which has to be one of its choices if these are limited. -/
def takeValued (r : Reading) (s : Switch) (value : Text) : Except UsageFault Reading :=
  if value = "--" then .ok (r.takeSwitch s .valueless)
  else
    let value := if s = .logLevel then value.upper else value
    match s.choices with
    | some choices =>
      if choices.contains value then .ok (r.takeSwitch s (.value value))
      else .error (.noChoice s value choices)
    | none => .ok (r.takeSwitch s (.value value))

/-- A double dash ends the switches and is dropped, unless the inputs are complete. -/
def takeDoubleDash (r : Reading) : Reading :=
  if r.phase = .after then { r with aside := r.aside ++ [("--" : Text)] } else r

/-- The request, if nothing is missing and nothing is left over. -/
def finish (r : Reading) : Except UsageFault Asked :=
  if r.request.inputs = [] then .error .inputsMissing
  else if r.aside ≠ [] then .error (.unrecognized r.aside)
  else .ok (.work r.request)

end Reading

namespace CommandLine

/-- Whether what is joined to a switch of one letter that takes no value is allowed there: it must
be that letter, any number of times. -/
def checkCluster (s : Switch) : Text → Except UsageFault Unit
  | [] => .error (.valueIgnored s [])
  | c :: rest =>
    if Switch.ofSpelling? ['-', c] ≠ some s then .error (.valueIgnored s (c :: rest))
    else if rest = [] then .ok ()
    else checkCluster s rest

/-- Takes the words from left to right. -/
def take (r : Reading) : List Word → Except UsageFault Asked
  | [] => r.finish
  | .value t :: rest => take (r.takeValue t) rest
  | .doubleDash :: rest => take r.takeDoubleDash rest
  | .unknown t :: rest =>
    let r := r.endGroup
    take { r with aside := r.aside ++ [t] } rest
  | .switch s short joined :: rest => do
    let r := r.endGroup
    if s.takesValue then
      match joined, rest with
      | some t, rest => take (← r.takeValued s t) rest
      | none, .value t :: rest => take (← r.takeValued s t) rest
      | none, _ => .error (.valueMissing s)
    else
      match joined with
      | some t => if short then checkCluster s t else .error (.valueIgnored s t)
      | none => pure ()
      if s = .help then return .help
      take (r.takeSwitch s .valueless) rest

/-- What a list of arguments asks for. -/
def parse (arguments : List Text) : Except UsageFault Asked := do
  let words ← Word.classify arguments
  take ⟨⟨[], .unsaid, .unsaid, .unsaid, false, .unsaid⟩, .before, []⟩ words

end CommandLine

end LiteralSplice
