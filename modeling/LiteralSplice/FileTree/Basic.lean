/-
File trees as values.

A tree is a list of entries, each a file with its bytes or a directory, under the names that
lead to it from the root, as the system stores them.  The root itself is a directory and is not
listed.

* **`Location`**: the bytes of the names that lead to a place;
* **`FileTree`**: the entries and the working directory;
* **`FileTree.find`**: what a path leads to, or why it leads nowhere;
* **`FileTree.isFile`**, **`FileTree.isDirectory`**, **`FileTree.holds`**: questions about a path;
* **`FileTree.read`**, **`FileTree.write`**, **`FileTree.remove`**, **`FileTree.makeDirectory`**;
* **`FileTree.resolve`**: a path made absolute, without dots.

Design notes: a path is followed one name at a time, and every name needs a directory to be
looked up in, so a missing directory and a file in the place of a directory are told apart.  A
question about a path is answered with no where the path leads nowhere, with two exceptions: a
name or path that is too long and a directory that may not be searched are errors even there.  A
path that is no path of the system, because it holds a zero or has no bytes, is refused before the
tree is looked at; only questions are answered with no.  Paths and messages keep the names as they
are written, and only their bytes are looked up.  There are no links: a tree with links is not the
subject of anything said here, and making a path absolute never needs to look at the tree.
-/
import LiteralSplice.FileTree.Name
import LiteralSplice.FileTree.Path
import LiteralSplice.Text.Quoted

namespace LiteralSplice

/-- The names that lead from the root to a place, as the system stores them. -/
abbrev Location := List Bytes

/-- The place that names lead to. -/
def Location.ofNames (names : List Text) : Location := names.map FileName.bytes

/-- The place that the names of a path lead to from the root. -/
def Path.place (p : Path) : Location := .ofNames p.names

/-- What is at a place. -/
inductive Entry where
  | file (content : Bytes)
  | directory
  /-- A directory that the program may not search. -/
  | sealed
  deriving DecidableEq, Repr

/-- Whether an entry is a directory. -/
def Entry.isDirectory : Entry → Bool
  | file _ => false
  | directory | sealed => true

/-- A tree of files and directories, and the working directory. -/
structure FileTree where
  entries : List (Location × Entry)
  here : List Text
  deriving Repr

/-- Why the system refuses a path. -/
inductive PathReason where
  | missing
  | denied
  | occupied
  | notDirectory
  | isDirectory
  | nameTooLong
  deriving DecidableEq, Repr

/-- The number and the wording of a refusal. -/
def PathReason.message : PathReason → Text
  | .missing => "[Errno 2] No such file or directory"
  | .denied => "[Errno 13] Permission denied"
  | .occupied => "[Errno 17] File exists"
  | .notDirectory => "[Errno 20] Not a directory"
  | .isDirectory => "[Errno 21] Is a directory"
  | .nameTooLong => "[Errno 36] File name too long"

/-- Why a path cannot be used: it has no bytes, it holds a zero, or the system refuses it. -/
inductive PathFault where
  | unencodable (run : Utf8.SurrogateRun)
  | zero
  | refused (reason : PathReason) (path : Text)
  deriving DecidableEq, Repr

def PathFault.message : PathFault → Text
  | .unencodable run => run.message
  | .zero => "embedded null byte"
  | .refused reason path => reason.message ++ ": " ++ path.quoted

namespace FileTree

/-- The greatest number of bytes in a name. -/
def nameLimit : Nat := 255

/-- The greatest number of bytes in a path. -/
def pathLimit : Nat := 4095

/-- Whether a name or a path has more bytes than a limit. -/
def exceeds (limit : Nat) (t : Text) : Bool := limit < FileName.size t

/-- Whether a text can be put to the system as a path. -/
def validate (path : Text) : Except PathFault Unit :=
  match FileName.bytelessRun? path with
  | some run => .error (.unencodable run)
  | none => if CodePoint.ofNat 0 ∈ path then .error .zero else .ok ()

/-- What is at a place. -/
def entryAt? (t : FileTree) (place : Location) : Option Entry :=
  if place = [] then some .directory else t.entries.lookup place

/-- The place that a name leads to from a place. -/
def step (t : FileTree) (place : Location) (name : Text) : Except PathReason Location :=
  if t.entryAt? place = some .sealed then
    if name = [] then .ok place else .error .denied
  else if t.entryAt? place ≠ some .directory then .error .notDirectory
  else if name = [] ∨ name = "." then .ok place
  else if name = ".." then .ok place.dropLast
  else if exceeds nameLimit name then .error .nameTooLong
  else if (t.entryAt? (place ++ [FileName.bytes name])).isNone then .error .missing
  else .ok (place ++ [FileName.bytes name])

/-- The place that names lead to, one after the other. -/
def follow (t : FileTree) (place : Location) (names : List Text) : Except PathReason Location :=
  names.foldlM t.step place

/-- Where following a path starts. -/
def start (t : FileTree) (path : Text) : Location :=
  if path.head? = some (CodePoint.ofChar '/') then [] else .ofNames t.here

/-- The names of a path as they are written, and the last of them. -/
def namesOf (path : Text) : List Text × Text :=
  let names := path.split '/'
  (names.dropLast, names.getLast?.getD [])

/-- What a path leads to. -/
def find (t : FileTree) (path : Text) : Except PathFault (Location × Entry) := do
  validate path
  if path = [] then .error (.refused .missing path)
  else if exceeds pathLimit path then .error (.refused .nameTooLong path)
  else
    match t.follow (t.start path) (path.split '/') with
    | .error reason => .error (.refused reason path)
    | .ok place =>
      match t.entryAt? place with
      | some entry => .ok (place, entry)
      | none => .error (.refused .missing path)

/-- The answer to a question about what a path leads to. -/
def ask (t : FileTree) (path : Text) (question : Entry → Bool) : Except PathFault Bool :=
  match t.find path with
  | .ok (_, entry) => .ok (question entry)
  | .error (.refused .nameTooLong p) => .error (.refused .nameTooLong p)
  | .error (.refused .denied p) => .error (.refused .denied p)
  | .error _ => .ok false

def isFile (t : FileTree) (path : Text) : Except PathFault Bool :=
  t.ask path fun entry => !entry.isDirectory

def isDirectory (t : FileTree) (path : Text) : Except PathFault Bool :=
  t.ask path Entry.isDirectory

/-- Whether a path leads to anything. -/
def holds (t : FileTree) (path : Text) : Except PathFault Bool := t.ask path fun _ => true

/-- The bytes of a file. -/
def read (t : FileTree) (path : Text) : Except PathFault Bytes := do
  match (← t.find path).2 with
  | .file content => return content
  | .directory => .error (.refused .isDirectory path)
  | .sealed => .error (.refused .denied path)

/-- Entries with one at a given place: in place of one that is there, else at the end. -/
def putEntry (place : Location) (entry : Entry) : List (Location × Entry) → List (Location × Entry)
  | [] => [(place, entry)]
  | (p, e) :: rest =>
    if p = place then (place, entry) :: rest else (p, e) :: putEntry place entry rest

/-- The tree with an entry at a place, in place of one that is there. -/
def put (t : FileTree) (place : Location) (entry : Entry) : FileTree :=
  { t with entries := putEntry place entry t.entries }

/-- The tree without the entry at a place. -/
def erase (t : FileTree) (place : Location) : FileTree :=
  { t with entries := t.entries.filter fun (p, _) => p ≠ place }

/-- The place at which a file can be written under a path. -/
def placeFor (t : FileTree) (path : Text) : Except PathFault Location :=
  match t.find path with
  | .ok (place, .file _) => .ok place
  | .ok (_, .directory) | .ok (_, .sealed) => .error (.refused .isDirectory path)
  | .error (.refused .missing p) =>
    let (names, last) := namesOf path
    match t.follow (t.start path) names with
    | .ok place =>
      if path = [] then .error (.refused .missing p)
      else if last = [] ∨ last = "." ∨ last = ".." then .error (.refused .isDirectory p)
      else .ok (place ++ [FileName.bytes last])
    | .error reason => .error (.refused reason p)
  | .error fault => .error fault

/-- The tree with a file under a path, in place of one that is there. -/
def write (t : FileTree) (path : Text) (content : Bytes) : Except PathFault FileTree := do
  let place ← t.placeFor path
  return t.put place (.file content)

/-- The tree without the file under a path. -/
def remove (t : FileTree) (path : Text) : Except PathFault FileTree := do
  match ← t.find path with
  | (place, .file _) => return t.erase place
  | (_, .directory) | (_, .sealed) => .error (.refused .isDirectory path)

/-- The tree with a directory at the place of a path whose parent has a directory already. -/
def makeLast (t : FileTree) (path : Path) : FileTree × Except PathFault Unit :=
  match t.find path.text, t.find path.parent.text with
  | .ok (_, .directory), _ | .ok (_, .sealed), _ => (t, .ok ())
  | .error (.refused .missing _), .ok (place, .directory) =>
    (t.put (place ++ [FileName.bytes path.name]) .directory, .ok ())
  | .error fault, _ => (t, .error fault)
  | .ok _, _ => (t, .error (.refused .occupied path.text))

/-- The tree with a directory at the place that names, the last one first, lead to. -/
def makeAlong (t : FileTree) (root : Text) : List Text → FileTree × Except PathFault Unit
  | [] => (t, .ok ())
  | name :: before =>
    let path : Path := ⟨root, (name :: before).reverse⟩
    match t.find path.text with
    | .error (.refused .missing _) =>
      match makeAlong t root before with
      | (t, .ok ()) => makeLast t path
      | (t, .error fault) => (t, .error fault)
    | _ => makeLast t path

/-- The tree with a directory under a path.  Directories that are missing on the way are made
first, and stay if it comes to nothing. -/
def makeDirectory (t : FileTree) (path : Path) : FileTree × Except PathFault Unit :=
  t.makeAlong path.root path.names.reverse

/-- A tree that holds nothing but the working directory and those that lead to it. -/
def ofWorkingDirectory (names : List Text) : FileTree :=
  ⟨(List.range names.length).map fun n => (.ofNames (names.take (n + 1)), .directory), names⟩

/-- The names of an absolute path with the names of a relative one after them, two dots going
one name back. -/
def descend (before names : List Text) : List Text :=
  names.foldl (fun before (name : Text) =>
    if name = ".." then before.dropLast else before ++ [name]) before

/-- The names that lead to the directory above: one name less, and two dots more where there is no
name to go back from. -/
def above (root : Text) (names : List Text) : List Text :=
  if names = [] ∨ names.getLast? = some ".." then
    if root = [] then names ++ [(".." : Text)] else names
  else names.dropLast

/-- Puts to the system the paths that lead to the names of a path, one after the other; `before` are
the names that lead to the first of them. -/
def validateAlong (root : Text) (before : List Text) : List Text → Except PathFault Unit
  | [] => .ok ()
  | name :: rest =>
    if name = ".." then validateAlong root (above root before) rest
    else do
      let path : Path := ⟨root, before ++ [name]⟩
      validate path.text
      validateAlong root path.names rest

/-- A path made absolute.  The system is asked about every name on the way. -/
def resolve (t : FileTree) (path : Path) : Except PathFault Path := do
  validateAlong (if path.root = [] then [] else "/") [] path.names
  return ⟨"/", descend (if path.root = [] then t.here else []) path.names⟩

/-- The files below a place, each with the names that lead to it from there. -/
def filesBelow (t : FileTree) (place : Location) : List (Location × Bytes) :=
  t.entries.filterMap fun (p, entry) =>
    match entry with
    | .file content => if place.isPrefixOf p then some (p.drop place.length, content) else none
    | .directory | .sealed => none

end FileTree

end LiteralSplice
