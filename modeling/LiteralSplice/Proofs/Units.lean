/-
One input of a batch: every way in which it can come out.

* **`Batch.Processed`**: the ways, each with what is left of the progress made before;
* **`Batch.process_processed`**: there are no others;
* **`Batch.renderAll_ok`**: the outputs of a program, one for each format;
* **`Batch.isName_output`**: the names of outputs stand for themselves.
-/
import LiteralSplice.Batch.Run
import LiteralSplice.Proofs.SavedFiles

namespace LiteralSplice

namespace Path

theorem mem_of_mem_splitSuffix {name : Text} {c : CodePoint} (h : c ∈ (splitSuffix name).1) :
    c ∈ name := by
  rw [splitSuffix] at h
  split at h
  · rename_i before after hsplit
    split at h
    · exact h
    · rw [(Text.splitLast?_eq_some hsplit).1]
      exact List.mem_append_left _ h
  · exact h

/-- What is in the stem of a path is in one of its names. -/
theorem exists_name_of_mem_stem {p : Path} {c : CodePoint} (h : c ∈ p.stem) :
    ∃ n ∈ p.names, c ∈ n := by
  have hname := mem_of_mem_splitSuffix h
  rcases hlast : p.names.getLast? with _ | last
  · rw [name, hlast] at hname
    cases hname
  · rw [name, hlast] at hname
    exact ⟨last, List.mem_of_getLast? hlast, hname⟩

theorem Absolute.slash_not_mem_stem {p : Path} (h : p.Absolute) :
    CodePoint.ofChar '/' ∉ p.stem := by
  intro hmem
  obtain ⟨n, hn, hc⟩ := exists_name_of_mem_stem hmem
  exact (h.names n hn).no_slash hc

theorem Absolute.storable_stem {p : Path} (h : p.Absolute) : p.stem.Storable := by
  intro c hc
  obtain ⟨n, hn, hc⟩ := exists_name_of_mem_stem hc
  exact (h.names n hn).storable c hc

end Path

namespace Emitter

theorem render_suffix {e : Emitter} {l : Layout} {r : Rendering} (h : e.render l = .ok r) :
    r.suffix = e.suffix := by
  rw [render] at h
  rcases hc : e.content l with fault | content
  · rw [hc] at h
    cases h
  · rw [hc] at h
    cases h
    rfl

theorem isName_append_suffix {stem : Text} (e : Emitter) (h : CodePoint.ofChar '/' ∉ stem)
    (hstorable : stem.Storable) : IsName (stem ++ e.suffix) := by
  have hlength : 3 ≤ (stem ++ e.suffix).length := by
    rw [List.length_append]
    have : 3 ≤ e.suffix.length := by cases e <;> decide
    omega
  refine ⟨fun he => ?_, fun he => ?_, fun he => ?_, fun hslash => ?_, ?_⟩
  · rw [he] at hlength
    exact absurd hlength (by decide)
  · rw [he] at hlength
    exact absurd hlength (by decide)
  · rw [he] at hlength
    exact absurd hlength (by decide)
  · rcases List.mem_append.mp hslash with hs | hs
    · exact h hs
    · cases e <;> exact absurd hs (by decide)
  · refine Text.storable_append.mpr ⟨hstorable, ?_⟩
    cases e <;> decide

end Emitter

namespace Batch

variable {disk : Disk} {job : Job} {p : Progress} {path : Path} {program : Program Text}

/-- An output is what the emitter with its key makes of the program. -/
def RenderedAs (program : Program Text) (key : Text) (r : Rendering) : Prop :=
  ∃ e, Emitter.ofKey? key = some e ∧ e.render program.layout = .ok r

/-- The outputs of a program are those of the emitters with the given keys, in their order. -/
theorem renderAll_ok {formats : List Text} {outputs : List Rendering}
    (h : renderAll formats program = .ok outputs) :
    List.Forall₂ (RenderedAs program) formats outputs := by
  induction formats generalizing outputs with
  | nil =>
    cases h
    exact .nil
  | cons key rest ih =>
    rw [renderAll, List.mapM_cons, ← renderAll] at h
    rcases hkey : Emitter.ofKey? key with _ | e
    · rw [hkey] at h
      cases h
    · rw [hkey] at h
      rcases hr : e.render program.layout with fault | r
      · simp only [hr] at h
        cases h
      · simp only [hr] at h
        rcases hrest : renderAll rest program with fault | rs
        · simp only [hrest] at h
          cases h
        · simp only [hrest] at h
          cases h
          exact .cons ⟨e, hkey, hr⟩ (ih hrest)

/-- The names of the outputs of an input stand for themselves. -/
theorem isName_output {formats : List Text} {outputs : List Rendering} (hp : path.Absolute)
    (h : renderAll formats program = .ok outputs) :
    ∀ r ∈ outputs, IsName (path.stem ++ r.suffix) := by
  intro r hr
  obtain ⟨i, hi, rfl⟩ := List.getElem_of_mem hr
  -- Each output comes from the emitter of its format, and has its suffix.
  have hall := renderAll_ok h
  have hlength := hall.length_eq
  obtain ⟨e, -, hrender⟩ := hall.get (by omega) hi
  have hsuffix : outputs[i].suffix = e.suffix := Emitter.render_suffix hrender
  rw [hsuffix]
  exact e.isName_append_suffix hp.slash_not_mem_stem hp.storable_stem

/-- The directory for the outputs of an input. -/
def directoryOf (job : Job) (path : Path) : Path := job.outputDirectory.getD path.parent

/-- What comes of saving the outputs of an input. -/
def savedOf (disk : Disk) (job : Job) (t : FileTree) (path : Path) (outputs : List Rendering) :
    Saving.Saved :=
  Saving.saveAll disk (directoryOf job path) path.stem t outputs

variable [Stack]

/-- The ways in which an input can come out. -/
inductive Processed (disk : Disk) (job : Job) (p : Progress) (path : Path) :
    Except (Progress × Death) Progress → Prop
  /-- There is no program, for a reason that ends the run. -/
  | fatal (fault : InputFault) (ends : fault.endsRun = true)
      (unread : (Input.read job p.tree path).result = .error fault) :
      Processed disk job p path (.error
        (p.tell (Input.read job p.tree path).events, .input fault))
  /-- There is no program. -/
  | unread (fault : InputFault) (goesOn : fault.endsRun = false)
      (unread : (Input.read job p.tree path).result = .error fault) :
      Processed disk job p path (.ok ((p.tell (Input.read job p.tree path).events).fail path fault))
  /-- The program cannot be shown. -/
  | unshown (program : Program Text) (run : Utf8.SurrogateRun) (shown : job.toStdout = true)
      (read : (Input.read job p.tree path).result = .ok program)
      (content : Utf8.surrogateRun? program.text = some run) :
      Processed disk job p path (.ok
        ((p.tell (Input.read job p.tree path).events).fail path (.unencodable run)))
  /-- The program is shown. -/
  | shown (program : Program Text) (shown : job.toStdout = true)
      (read : (Input.read job p.tree path).result = .ok program)
      (content : Utf8.surrogateRun? program.text = none) :
      Processed disk job p path (.ok { p.tell (Input.read job p.tree path).events with
        stdout := p.stdout ++ program.text })
  /-- An emitter is missing or refuses the program. -/
  | unrendered (program : Program Text) (cause : Death) (kept : job.toStdout = false)
      (read : (Input.read job p.tree path).result = .ok program)
      (unrendered : renderAll job.formats program = .error cause) :
      Processed disk job p path (.error (p.tell (Input.read job p.tree path).events, cause))
  /-- An output cannot be saved. -/
  | unsaved (program : Program Text) (outputs : List Rendering) (fault : InputFault)
      (kept : job.toStdout = false) (read : (Input.read job p.tree path).result = .ok program)
      (rendered : renderAll job.formats program = .ok outputs)
      (unsaved : (savedOf disk job p.tree path outputs).result = .error fault) :
      Processed disk job p path (.ok
        (({ p.tell (Input.read job p.tree path).events with
            tree := (savedOf disk job p.tree path outputs).tree }.tell
          (savedOf disk job p.tree path outputs).events).fail path fault))
  /-- Every output is saved. -/
  | saved (program : Program Text) (outputs : List Rendering) (paths : List Path)
      (kept : job.toStdout = false) (read : (Input.read job p.tree path).result = .ok program)
      (rendered : renderAll job.formats program = .ok outputs)
      (saved : (savedOf disk job p.tree path outputs).result = .ok paths) :
      Processed disk job p path (.ok
        { { p.tell (Input.read job p.tree path).events with
            tree := (savedOf disk job p.tree path outputs).tree }.tell
          (savedOf disk job p.tree path outputs).events with
          saved := p.saved ++ paths })

theorem process_processed (disk : Disk) (job : Job) (p : Progress) (path : Path) :
    Processed disk job p path (process disk job p path) := by
  rw [process]
  rcases hread : (Input.read job p.tree path).result with fault | program
  · rcases hends : fault.endsRun with _ | _
    · simp only [hends, Bool.false_eq_true, if_false]
      exact .unread fault hends hread
    · simp only [hends, if_true]
      exact .fatal fault hends hread
  · rcases hout : job.toStdout with _ | _
    · rcases hrender : renderAll job.formats program with cause | outputs
      · simp only [Bool.false_eq_true, if_false, hrender]
        exact .unrendered program cause hout hread hrender
      · rcases hsaved : (savedOf disk job p.tree path outputs).result with fault | paths
        · -- Telling what has been shown leaves the tree alone, in which the outputs are saved.
          have hsaved' := hsaved
          rw [savedOf, directoryOf] at hsaved'
          simp only [Bool.false_eq_true, if_false, hrender, Progress.tell, hsaved']
          exact .unsaved program outputs fault hout hread hrender hsaved
        · have hsaved' := hsaved
          rw [savedOf, directoryOf] at hsaved'
          simp only [Bool.false_eq_true, if_false, hrender, Progress.tell, hsaved']
          exact .saved program outputs paths hout hread hrender hsaved
    · rcases htext : Utf8.surrogateRun? program.text with _ | run
      · simp only [if_true, htext]
        exact .shown program hout hread htext
      · simp only [if_true, htext]
        exact .unshown program run hout hread htext

end Batch

end LiteralSplice
