/-
What a run shows on the standard error.

* **`Event`**: a line about the progress of the run, or a notice;
* **`LogLevel.threshold`**: the least rank of notices that are shown;
* **`Event.show`**: the events of a run as text.

Design notes: a level is a word.  A word that names no level counts as `WARNING`, except for two
words that name something else that cannot be used as a level.
-/
import LiteralSplice.Notice
import LiteralSplice.Text.Quoted

namespace LiteralSplice

/-- Something that is shown on the standard error. -/
inductive Event where
  | line (t : Text)
  | notice (n : Notice)
  deriving DecidableEq, Repr

/-- Why something cannot be used as a level: it is a word that stands for something else, or no
word at all. -/
inductive LevelFault where
  | text (t : Text)
  | styles
  | valueless
  deriving DecidableEq, Repr

def LevelFault.message : LevelFault → Text
  | .text t => "Unknown level: " ++ t.quoted
  | .styles =>
    "Level not an integer or a valid string: \x7b'%': (<class 'logging.PercentStyle'>, "
      ++ "'%(levelname)s:%(name)s:%(message)s'), '\x7b': (<class 'logging.StrFormatStyle'>, "
      ++ "'\x7blevelname\x7d:\x7bname\x7d:\x7bmessage\x7d'), '$': "
      ++ "(<class 'logging.StringTemplateStyle'>, "
      ++ "'$\x7blevelname\x7d:$\x7bname\x7d:$\x7bmessage\x7d')\x7d"
  | .valueless => "attribute name must be string, not 'list'"

namespace LogLevel

/-- The ranks of the levels. -/
def ranks : List (Text × Nat) :=
  [("NOTSET", 0), ("DEBUG", 10), ("INFO", 20), ("WARN", 30), ("WARNING", 30), ("ERROR", 40),
    ("CRITICAL", 50), ("FATAL", 50)]

/-- The words that stand for something else than a level. -/
def otherWords : List (Text × LevelFault) :=
  [("BASIC_FORMAT", .text "%(levelname)s:%(name)s:%(message)s"), ("_STYLES", .styles)]

/-- The least rank of notices that are shown at a level. -/
def threshold (level : Text) : Except LevelFault Nat :=
  match otherWords.lookup level with
  | some fault => .error fault
  | none => .ok ((ranks.lookup level).getD 30)

end LogLevel

namespace Event

/-- A text with every surrogate written out. -/
def visible (t : Text) : Text :=
  t.flatMap fun c => if c.isSurrogate then "\\u" ++ Text.hex 4 c.val else [c]

/-- An event as text, if it is shown; `stamp` is the time of a notice. -/
def show? (threshold : Nat) (stamp : Text) : Event → Option Text
  | line t => some (t ++ "\n")
  | notice n =>
    if threshold ≤ n.level.rank then
      some (stamp ++ " " ++ n.level.text ++ " " ++ n.component ++ ": " ++ n.message ++ "\n")
    else none

/-- The events of a run as text. -/
def showAll (threshold : Nat) (stamp : Text) (events : List Event) : Text :=
  visible (events.filterMap (show? threshold stamp)).flatten

end Event

end LiteralSplice
