/-
Saving the outputs of an input.

* **`Disk`**: what the system makes of a file that is to be written;
* **`Saving.save`**: one output under the first free name;
* **`Saving.saveAll`**: all outputs of an input, one after the other.

Design notes: a file is created before its content is encoded.  If the content cannot be
encoded the empty file stays, and so do the outputs saved before it.  If the system fails to write
a file, the outputs saved before are taken away again, and what it has taken of the file stays.  A
name that is not one for the system is no failure of the system, and nothing is taken away then.
-/
import LiteralSplice.Batch.Input
import LiteralSplice.Emitter
import LiteralSplice.OutputName

namespace LiteralSplice

/-- What keeps the system from writing a content to a new file at a place of a tree. -/
abbrev Disk := FileTree → Location → Text → Option WriteFault

/-- A disk that takes everything. -/
def Disk.sound : Disk := fun _ _ _ => none

namespace Saving

/-- The tree with one output in it, and where the output went. -/
def save (disk : Disk) (t : FileTree) (directory : Path) (stem : Text) (r : Rendering) :
    FileTree × Except InputFault (Path × Location) :=
  match OutputName.firstFree t directory stem r.suffix with
  | .error fault => (t, .error (.unusable fault))
  | .ok path =>
    match t.placeFor path.text with
    | .error fault => (t, .error (.unusable fault))
    | .ok place =>
      match disk t place r.content, Utf8.encode r.content with
      | some (.refused message), _ => (t, .error (.unwritten (.refused message)))
      | _, .error run => (t.put place (.file []), .error (.unencodable run))
      | some (.torn taken message), .ok bytes =>
        (t.put place (.file (bytes.take taken)), .error (.unwritten (.torn taken message)))
      | none, .ok bytes => (t.put place (.file bytes), .ok (path, place))

/-- The tree without the outputs at given places. -/
def takeBack (t : FileTree) (places : List Location) : FileTree := places.foldl FileTree.erase t

/-- What has become of the outputs of an input. -/
structure Saved where
  tree : FileTree
  events : List Event
  result : Except InputFault (List Path)

/-- Saves the outputs of an input; `saved` are those that have been saved, the last one first. -/
def saveFrom (disk : Disk) (directory : Path) (stem : Text) (t : FileTree)
    (saved : List (Path × Location)) : List Rendering → Saved
  | [] => ⟨t, [], .ok (saved.reverse.map (·.1))⟩
  | r :: rest =>
    match save disk t directory stem r with
    | (t, .ok (path, place)) =>
      let after := saveFrom disk directory stem t ((path, place) :: saved) rest
      { after with events := .line ("  Saved: " ++ path.name) :: after.events }
    | (t, .error fault) =>
      ⟨if fault.isOfSystem then takeBack t (saved.reverse.map (·.2)) else t, [], .error fault⟩

/-- Saves the outputs of an input. -/
def saveAll (disk : Disk) (directory : Path) (stem : Text) (t : FileTree)
    (rs : List Rendering) : Saved :=
  saveFrom disk directory stem t [] rs

end Saving

end LiteralSplice
