/-
Settings: what the environment decides.

* **`Settings`**: the default emitter, the log level, the address of the service, and the
  greatest number of lines the service takes;
* **`Settings.ofEnvironment`**: the settings under given environment variables.

Design notes: the default emitter and the log level are taken as they are; whether they name
anything is found out where they are used.
-/
import LiteralSplice.Text.Integer
import LiteralSplice.Text.Upper

namespace LiteralSplice

/-- What the environment decides. -/
structure Settings where
  defaultEmitter : Text
  logLevel : Text
  host : Text
  port : Int
  maxUnitLines : Int
  deriving DecidableEq, Repr

namespace Settings

/-- What every variable of the program starts with. -/
def variableStem : Text := "PROGRAM_ASSEMBLER_"

/-- The value of a variable of the program, or a default. -/
def valueOf (environment : List (Text × Text)) (name default : Text) : Text :=
  (environment.lookup (variableStem ++ name)).getD default

/-- The settings under given environment variables.  The port is read before the limit. -/
def ofEnvironment (environment : List (Text × Text)) : Except Text.IntegerFault Settings := do
  let port ← Text.readInteger (valueOf environment "PORT" "8000")
  let maxUnitLines ← Text.readInteger (valueOf environment "MAX_UNIT_LINES" "100000")
  return {
    defaultEmitter := valueOf environment "DEFAULT_EMITTER" "plain_text"
    logLevel := (valueOf environment "LOG_LEVEL" "WARNING").upper
    host := valueOf environment "HOST" "127.0.0.1"
    port
    maxUnitLines }

end Settings

/-- The endings of the names of inputs, in order. -/
def inputSuffixes : List Text := [".json", ".text"]

end LiteralSplice
