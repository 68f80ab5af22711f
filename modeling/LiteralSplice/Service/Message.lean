/-
What the service is asked and what it answers.

* **`Call`**: the method, the path, and the body with its content type;
* **`Answer`**: the status, the header fields and the body;
* **`Answer.json`**, **`Answer.detail`**: answers whose body is JSON.
-/
import LiteralSplice.Json.Writer
import LiteralSplice.Text.Utf8

namespace LiteralSplice

/-- What the service is asked. -/
structure Call where
  method : Text
  path : Text
  contentType : Option Text
  body : Bytes

/-- What the service answers. -/
structure Answer where
  status : Nat
  contentType : Text
  contentDisposition : Option Text
  allow : Option Text
  body : Text
  deriving DecidableEq, Repr

namespace Answer

/-- An answer with a JSON value for its body. -/
def json (status : Nat) (v : Json) : Answer :=
  ⟨status, "application/json", none, none, v.compact⟩

/-- An answer that says what is wrong. -/
def detail (status : Nat) (v : Json) : Answer := json status (.object [("detail", v)])

end Answer

end LiteralSplice
