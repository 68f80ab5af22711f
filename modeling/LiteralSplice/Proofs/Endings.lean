/-
How runs end.

* **`Batch.Exhausting`**: an input is a document that takes more of the stack than there is;
* **`Batch.Fatal`**: what an input ends a run with, where it does;
* **`Batch.processAll_died_iff`**: a batch ends early exactly at a name that the system cannot be
  given or at such an input;
* **`Batch.run_ended`**: every way in which a run can end;
* **`Batch.run_ends`**: a run that does not die ends with zero or one, and has come to every input
  unless it has been refused with a message;
* **`Batch.run_dies`**: runs that die before their last input.

Design notes: what the system or a decoder has against an input is a fault that is reported, and so
is whatever is wrong with its text or its value.  That leaves what is found outside of the reading
of an input, in one of four places: the directory for outputs, the name of an input, the choice of
an adapter, and the default emitter, which is the one key that is not checked when the formats are.
And it leaves the stack, which a document may take more of than there is.
-/
import LiteralSplice.Proofs.DocumentFaults
import LiteralSplice.Proofs.Renderings
import LiteralSplice.Proofs.Runs

namespace LiteralSplice

/-- No progress yet. -/
abbrev Progress.start (t : FileTree) : Progress := ⟨t, [], [], [], 0⟩

namespace Batch

variable {disk : Disk} {job : Job} {p q : Progress} {path : Path} {t : FileTree}

/-! ### One input -/

/-- An input is to be read as a document: its name ends as one, unless its kind is given. -/
def AsDocument (job : Job) (path : Path) : Prop :=
  job.adapter = .value "json" ∨ job.adapter = .unsaid ∧ path.suffix.lowerAscii = ".json"

/-- What can come of opening the file of an input. -/
inductive Opened (job : Job) (path : Path) : Except InputFault Source → Prop
  | nameless (nameless : job.adapter = .valueless) : Opened job path (.error .namelessAdapter)
  | document (as : AsDocument job path) : Opened job path (.ok (.document path none))
  | listing (named : job.adapter ≠ .valueless) (other : ¬ AsDocument job path)
      (files : Companions) : Opened job path (.ok (.listing files none))
  | refused (named : job.adapter ≠ .valueless) (other : ¬ AsDocument job path)
      (fault : InputFault) (goesOn : fault.endsRun = false) : Opened job path (.error fault)

/-- A file is opened as one of the kind that its input is to be read as. -/
theorem openAs_opened (t : FileTree) {kind : SourceKind} (hnamed : job.adapter ≠ .valueless)
    (hkind : kind = .document ↔ AsDocument job path) :
    Opened job path ((Source.openAs t path kind).mapError .source) := by
  cases kind with
  | document => exact .document (hkind.mp rfl)
  | listing =>
    have hother : ¬ AsDocument job path := fun has => absurd (hkind.mpr has) nofun
    rw [Source.openAs]
    rcases Companions.resolve t path with fault | files
    · exact .refused hnamed hother (.source (.unresolved fault)) rfl
    · exact .listing hnamed hother files

/-- Where there is no file, that is reported. -/
theorem source_missing (hfile : t.isFile path.text ≠ .ok true) :
    ∃ cause, Input.source job t path = .error cause ∧ cause.endsRun = false := by
  rw [Input.source]
  rcases hasked : t.isFile path.text with reason | _ | _
  · exact ⟨_, rfl, rfl⟩
  · exact ⟨_, rfl, rfl⟩
  · exact absurd hasked hfile

theorem source_opened (hfile : t.isFile path.text = .ok true) :
    Opened job path (Input.source job t path) := by
  rw [Input.source, hfile]
  simp only [Except.mapError, bind, Except.bind, Bool.not_true, Bool.false_eq_true, if_false]
  rcases hadapter : job.adapter with _ | _ | key
  · have hnamed : job.adapter ≠ .valueless := by
      rw [hadapter]
      exact nofun
    have has : AsDocument job path ↔ path.suffix.lowerAscii = ".json" := by
      simp only [AsDocument, hadapter, reduceCtorEq, false_or, true_and]
    simp only
    split
    · refine openAs_opened t hnamed (Iff.trans ?_ has.symm)
      rw [SourceKind.ofPath]
      split <;> simp only [reduceCtorEq, *]
    · rename_i hunknown
      refine .refused hnamed (fun h => hunknown ?_) _ rfl
      rw [has.mp h]
      decide
  · exact .nameless hadapter
  · have hnamed : job.adapter ≠ .valueless := by
      rw [hadapter]
      exact nofun
    have has : AsDocument job path ↔ SourceKind.ofKey? key = some .document := by
      simp only [AsDocument, hadapter, Choice.value.injEq, reduceCtorEq, false_and, or_false]
      constructor
      · rintro rfl
        rfl
      · intro h
        rw [SourceKind.ofKey?] at h
        have hkey : (SourceKind.document.key == key) = true :=
          List.find?_some (p := fun kind : SourceKind => kind.key == key) h
        exact (beq_iff_eq.mp hkey).symm
    simp only [Source.ofPath]
    rcases hkind : SourceKind.ofKey? key with _ | kind
    · refine .refused hnamed (fun h => ?_) (.source (.unknownKind key)) rfl
      rw [has.mp h] at hkind
      cases hkind
    · rw [hkind, Option.some.injEq] at has
      exact openAs_opened t hnamed has.symm

section

variable [Stack]

/-- An input is a document that takes more of the stack than there is. -/
def Exhausting (job : Job) (t : FileTree) (path : Path) : Prop :=
  AsDocument job path ∧ ∃ bytes, t.read path.text = .ok bytes ∧ Document.Exhausts bytes

/-- A document takes more of the stack than there is exactly if that is why there is no hand-off. -/
theorem answer_exhausts_iff :
    (∃ fault, ((Source.document path none).handoff t).answer = .error fault ∧
        fault.exhausts = true) ↔
      ∃ bytes, t.read path.text = .ok bytes ∧ Document.Exhausts bytes := by
  simp only [Document.exhausts_iff]
  constructor
  · rintro ⟨fault, hanswer, hexhausts⟩
    rcases hread : t.read path.text with reason | bytes
    · have hload : Document.load t path = .error (.unreadable path reason) := by
        rw [Document.load, hread]
        rfl
      have hfault : SourceFault.unreadable path reason = fault :=
        Except.error.inj ((FrontEnd.translate_of_load_fault hload).symm.trans hanswer)
      rw [← hfault] at hexhausts
      cases hexhausts
    rcases hd : Document.ofBytes bytes with cause | d
    · have hload := FrontEnd.load_of_ofBytes_fault hread hd
      have hfault : SourceFault.undocumented path cause = fault :=
        Except.error.inj ((FrontEnd.translate_of_load_fault hload).symm.trans hanswer)
      rw [← hfault] at hexhausts
      exact ⟨bytes, rfl, cause, hd, hexhausts⟩
    · -- A document that is read is at most misshapen.
      rw [FrontEnd.answer_of_document hread hd] at hanswer
      rcases hcheck : (d.handoff path.name).checkRepeats with cause | h
      · rw [hcheck] at hanswer
        cases hanswer
        cases hexhausts
      · rw [hcheck] at hanswer
        cases hanswer
  · rintro ⟨bytes, hread, cause, hcause, hexhausts⟩
    exact ⟨_, FrontEnd.translate_of_load_fault (FrontEnd.load_of_ofBytes_fault hread hcause),
      hexhausts⟩

/-- A listing never takes more of the stack than there is. -/
theorem exhausts_listing {files : Companions} {fault : SourceFault}
    (h : ((Source.listing files none).handoff t).answer = .error fault) :
    fault.exhausts = false := by
  rcases hlines : files.load t with cause | lines
  · have hload : (Source.listing files none).load t = .error cause := by
      rw [Source.load, hlines]
      rfl
    obtain rfl := Except.error.inj ((FrontEnd.answer_of_fault hload).symm.trans h)
    rw [Companions.load] at hlines
    rcases hinstructions : files.instructions with _ | path
    · rw [hinstructions] at hlines
      cases hlines
      rfl
    rw [hinstructions] at hlines
    simp only [bind, Except.bind] at hlines
    rcases hfirst : Records.load t path.text with f | instructions
    · rw [hfirst] at hlines
      cases hlines
      rfl
    rw [hfirst] at hlines
    rcases hliterals : files.literals with _ | path'
    · simp only [hliterals] at hlines
      cases hlines
    simp only [hliterals, Except.mapError] at hlines
    rcases hsecond : Records.load t path'.text with f | literals
    · rw [hsecond] at hlines
      cases hlines
      rfl
    · rw [hsecond] at hlines
      cases hlines
  · have hload : ∃ notices,
        (Source.listing files none).load t = .ok (.listing files (some lines), notices) :=
      ⟨_, by rw [Source.load, hlines]; rfl⟩
    obtain ⟨notices, hload⟩ := hload
    rw [FrontEnd.answer_of_load hload] at h
    rcases hcheck : (Source.listing files (some lines)).contents.checkRepeats with cause | handoff
    · rw [hcheck] at h
      cases h
      rfl
    · rw [hcheck] at h
      cases h

/-- Reading an input whose source is opened ends the run exactly if its answer takes more of the
stack than there is. -/
theorem read_ends_opened {s : Source} (hs : Input.source job t path = .ok s) :
    (∃ fault, (Input.read job t path).result = .error fault ∧ fault.endsRun = true) ↔
      ∃ fault, (s.handoff t).answer = .error fault ∧ fault.exhausts = true := by
  rw [Input.read, hs]
  rcases hh : (s.handoff t).answer with cause | h
  · simp only [hh, Except.error.injEq, exists_eq_left']
    rfl
  · rcases ha : h.assemble with cause | program
    · simp only [hh, ha, Except.error.injEq, exists_eq_left', reduceCtorEq, false_and,
        exists_false, iff_false]
      exact Bool.false_ne_true
    · simp only [hh, ha, reduceCtorEq, false_and, exists_false]

/-- Reading an input ends the run exactly if there is a file to be read and an adapter is asked for
and not named, or the input takes more of the stack than there is. -/
theorem read_ends_iff :
    (∃ fault, (Input.read job t path).result = .error fault ∧ fault.endsRun = true) ↔
      (job.adapter = .valueless ∧ t.isFile path.text = .ok true) ∨ Exhausting job t path := by
  by_cases hfile : t.isFile path.text = .ok true
  swap
  · have hnone : ¬ Exhausting job t path := by
      rintro ⟨-, _, hread, -⟩
      exact hfile (FileTree.isFile_of_read_eq hread)
    simp only [hfile, and_false, hnone, or_self, iff_false]
    rintro ⟨fault, hread, hends⟩
    obtain ⟨cause, hcause, hgoes⟩ :
        ∃ cause, Input.source job t path = .error cause ∧ cause.endsRun = false :=
      source_missing hfile
    rw [Input.read, hcause] at hread
    cases hread
    exact absurd (hgoes.symm.trans hends) Bool.false_ne_true
  simp only [hfile, and_true]
  have hopened : Opened job path (Input.source job t path) := source_opened hfile
  generalize hsource : Input.source job t path = source at hopened
  cases hopened with
  | nameless hadapter =>
    have hresult : (Input.read job t path).result = .error .namelessAdapter := by
      rw [Input.read, hsource]
    exact ⟨fun _ => Or.inl hadapter, fun _ => ⟨_, hresult, rfl⟩⟩
  | document has =>
    have hnamed : job.adapter ≠ .valueless := by
      intro hadapter
      rw [AsDocument, hadapter] at has
      rcases has with has | ⟨has, -⟩ <;> cases has
    rw [read_ends_opened hsource, answer_exhausts_iff, or_iff_right hnamed, Exhausting, and_iff_right has]
  | listing hnamed hother files =>
    have hnone : ¬ Exhausting job t path := fun h => hother h.1
    rw [read_ends_opened hsource]
    simp only [hnamed, hnone, or_self, iff_false]
    rintro ⟨fault, hanswer, hexhausts⟩
    exact absurd ((exhausts_listing hanswer).symm.trans hexhausts) Bool.false_ne_true
  | refused hnamed hother cause hgoes =>
    have hnone : ¬ Exhausting job t path := fun h => hother h.1
    have hresult : (Input.read job t path).result = .error cause := by rw [Input.read, hsource]
    simp only [hresult, hnamed, hnone, or_self, Except.error.injEq, exists_eq_left',
      hgoes, Bool.false_eq_true]

/-- An input ends the run: there is no adapter for its file, or it takes more of the stack than
there is, or its program is to be saved and a format has no emitter. -/
inductive Fatal (job : Job) (t : FileTree) (path : Path) : Prop
  | adapter (nameless : job.adapter = .valueless) (file : t.isFile path.text = .ok true)
  | document (exhausting : Exhausting job t path)
  | emitter (kept : job.toStdout = false) (program : Program Text)
      (read : (Input.read job t path).result = .ok program) (key : Text) (mem : key ∈ job.formats)
      (missing : Emitter.ofKey? key = none)

theorem process_died_iff (disk : Disk) (job : Job) (p : Progress) (path : Path) :
    (∃ q cause, process disk job p path = .error (q, cause)) ↔ Fatal job p.tree path := by
  constructor
  · rintro ⟨q, cause, hdied⟩
    have hprocessed := process_processed disk job p path
    rw [hdied] at hprocessed
    cases hprocessed with
    | fatal fault hends hunread =>
      rcases read_ends_iff.mp ⟨fault, hunread, hends⟩ with ⟨hadapter, hfile⟩ | hexhausting
      · exact .adapter hadapter hfile
      · exact .document hexhausting
    | unrendered program cause hkept hread hunrendered =>
      obtain ⟨s, handoff, -, -, ha⟩ := read_ok hread
      rcases renderAll_assembled ha job.formats with ⟨-, outputs, hok⟩ | ⟨key, hkey, hnone, -⟩
      · rw [hok] at hunrendered
        cases hunrendered
      · exact .emitter hkept program hread key hkey hnone
  · intro hfatal
    have hunread : ∀ fault, (Input.read job p.tree path).result = .error fault →
        fault.endsRun = true → ∃ q cause, process disk job p path = .error (q, cause) := by
      intro fault hread hends
      exact ⟨p.tell (Input.read job p.tree path).events, .input fault, by
        simp only [process, hread, hends, if_true]⟩
    cases hfatal with
    | adapter hnameless hfile =>
      obtain ⟨fault, hread, hends⟩ := read_ends_iff.mpr (Or.inl ⟨hnameless, hfile⟩)
      exact hunread fault hread hends
    | document hexhausting =>
      obtain ⟨fault, hread, hends⟩ := read_ends_iff.mpr (Or.inr hexhausting)
      exact hunread fault hread hends
    | emitter hkept program hread key hkey hnone =>
      obtain ⟨s, handoff, -, -, ha⟩ := read_ok hread
      rcases renderAll_assembled ha job.formats with ⟨hall, -⟩ | ⟨key', -, -, hunrendered⟩
      · have hsome := hall key hkey
        rw [hnone] at hsome
        cases hsome
      · exact ⟨p.tell (Input.read job p.tree path).events, .unknownEmitter key', by
          simp only [process, hread, hkept, Bool.false_eq_true, if_false, hunrendered]⟩

/-- Where an adapter that is asked for is named and every format has an emitter, what an input ends
the run with is that it takes more of the stack than there is. -/
theorem fatal_iff_exhausting (hadapter : job.adapter ≠ .valueless)
    (hformats : ∀ key ∈ job.formats, (Emitter.ofKey? key).isSome) :
    Fatal job t path ↔ Exhausting job t path := by
  refine ⟨fun hfatal => ?_, .document⟩
  cases hfatal with
  | adapter hnameless => exact absurd hnameless hadapter
  | document hexhausting => exact hexhausting
  | emitter _ _ _ key hkey hnone =>
    have hsome := hformats key hkey
    rw [hnone] at hsome
    cases hsome

/-! ### All inputs of a run -/

omit [Stack] in
/-- A name that cannot be made absolute is one that the system cannot be given. -/
theorem resolve_error_iff {name : Text} :
    (∃ fault, t.resolve (Path.ofText name) = .error fault) ↔ ¬ name.Storable := by
  rw [← Path.storable_names_ofText]
  constructor
  · rintro ⟨fault, hfault⟩ hnames
    rw [FileTree.resolve_eq_ok.mpr ⟨hnames, rfl⟩] at hfault
    cases hfault
  · intro hnames
    rcases hpath : t.resolve (Path.ofText name) with fault | path
    · exact ⟨fault, rfl⟩
    · exact absurd (FileTree.resolve_eq_ok.mp hpath).1 hnames

/-- **A batch ends early exactly at a name that the system cannot be given or at a fatal input.** -/
theorem processAll_died_iff {names : List Text} :
    (∃ q cause, processAll disk job p names = .error (q, cause)) ↔
      (∃ name ∈ names, ¬ name.Storable) ∨
        ∃ u ∈ visits disk job p names, Fatal job u.1.tree u.2 := by
  induction names generalizing p with
  | nil => simp [processAll, visits]
  | cons name rest ih =>
    rw [processAll, visits]
    rcases hpath : p.tree.resolve (Path.ofText name) with fault | path
    · -- The first name is the one that the system cannot be given.
      have hname := resolve_error_iff.mp ⟨fault, hpath⟩
      simp only [List.mem_cons, exists_eq_or_imp, hname, not_false_iff, true_or, iff_true]
      exact ⟨p, .path fault, rfl⟩
    · have hname : name.Storable := by
        by_contra hnot
        obtain ⟨fault, hfault⟩ := resolve_error_iff.mpr hnot
        rw [hpath] at hfault
        cases hfault
      have hfirst := process_died_iff disk job p path
      simp only [List.mem_cons, exists_eq_or_imp, hname, not_true, false_or]
      rcases hprocess : process disk job p path with ⟨q, cause⟩ | q
      · have hfatal := hfirst.mp ⟨q, cause, hprocess⟩
        simp only [hfatal, true_or, or_true, iff_true]
        exact ⟨q, cause, rfl⟩
      · have hgoes : ¬ Fatal job p.tree path := by
          intro hfatal
          obtain ⟨q', cause, hdied⟩ := hfirst.mpr hfatal
          rw [hprocess] at hdied
          cases hdied
        simp only [hgoes, false_or]
        exact ih

/-- A batch goes on exactly if its first input is resolved and does not end it. -/
theorem processAll_cons_ok {name : Text} {rest : List Text} :
    processAll disk job p (name :: rest) = .ok q ↔
      ∃ path p', p.tree.resolve (Path.ofText name) = .ok path ∧ process disk job p path = .ok p' ∧
        processAll disk job p' rest = .ok q := by
  constructor
  · intro h
    rw [processAll] at h
    rcases hpath : p.tree.resolve (Path.ofText name) with fault | path
    · rw [hpath] at h
      cases h
    rw [hpath] at h
    rcases hprocess : process disk job p path with ⟨p', cause⟩ | p'
    · simp only [hprocess] at h
      cases h
    · simp only [hprocess] at h
      exact ⟨path, p', rfl, hprocess, h⟩
  · rintro ⟨path, p', hpath, hprocess, h⟩
    rw [processAll, hpath]
    simp only [hprocess]
    exact h

theorem visits_cons {name : Text} (rest : List Text)
    (hpath : p.tree.resolve (Path.ofText name) = .ok path)
    (h : process disk job p path = .ok q) :
    visits disk job p (name :: rest) = (p, path) :: visits disk job q rest := by
  rw [visits, hpath]
  simp only [h]

end

/-! ### Whole runs -/

/-- A run is refused with a message: there is no emitter for one of its formats, or the directory
for its outputs is none. -/
inductive Refused (settings : Settings) (t : FileTree) (request : Request) : Text → Prop
  | format {fault : UnknownFormat}
      (unknown : FormatList.parse settings.defaultEmitter request.formats.text? = .error fault) :
      Refused settings t request fault.message
  | directory {formats : List Text} {name : Text}
      (parsed : FormatList.parse settings.defaultEmitter request.formats.text? = .ok formats)
      (asked : request.outputDirectory.text? = some name) (named : name ≠ [])
      (nowhere : t.isDirectory (Path.ofText name).text = .ok false) :
      Refused settings t request ("Output directory does not exist: " ++ name)

/-- The system does not say whether the directory for outputs is one, because its path is too long
or leads through a directory that may not be searched. -/
inductive Barred (settings : Settings) (t : FileTree) (request : Request) : Prop
  | directory {formats : List Text} {name path : Text} {reason : PathReason}
      (parsed : FormatList.parse settings.defaultEmitter request.formats.text? = .ok formats)
      (asked : request.outputDirectory.text? = some name) (named : name ≠ [])
      (unanswered : reason.Unanswered)
      (barred : t.find (Path.ofText name).text = .error (.refused reason path))

theorem jobOf?_eq_some {settings : Settings} {request : Request}
    (h : jobOf? settings t request = some job) :
    FormatList.parse settings.defaultEmitter request.formats.text? = .ok job.formats ∧
      job.adapter = request.adapter ∧ job.toStdout = request.toStdout := by
  rw [jobOf?] at h
  split at h
  · rename_i formats directory hformats hdirectory
    cases h
    exact ⟨hformats, rfl, rfl⟩
  · cases h

theorem outputDirectory_some {name : Text} (h : name ≠ []) : outputDirectory t (some name)
    = match t.isDirectory (Path.ofText name).text with
      | .error fault => .error (.path fault)
      | .ok false => .ok (.error ("Output directory does not exist: " ++ name))
      | .ok true =>
        match t.resolve (Path.ofText name) with
        | .error fault => .error (.path fault)
        | .ok path => .ok (.ok (some path)) := by
  obtain ⟨c, r, rfl⟩ := List.exists_cons_of_ne_nil h
  rfl

/-- What becomes of the directory for outputs. -/
theorem outputDirectory_cases (t : FileTree) (asked : Option Text) :
    (∃ d, outputDirectory t asked = .ok (.ok d)) ∨
      ∃ name, asked = some name ∧ name ≠ [] ∧
        ((t.isDirectory (Path.ofText name).text = .ok false ∧ outputDirectory t asked
            = .ok (.error ("Output directory does not exist: " ++ name))) ∨
          ∃ reason path, PathReason.Unanswered reason ∧
            t.find (Path.ofText name).text = .error (.refused reason path) ∧
            outputDirectory t asked = .error (.path (.refused reason path))) := by
  rcases asked with _ | name
  · exact Or.inl ⟨none, rfl⟩
  by_cases hname : name = []
  · rw [hname]
    exact Or.inl ⟨none, rfl⟩
  rw [outputDirectory_some hname]
  rcases hfound : t.isDirectory (Path.ofText name).text with fault | _ | _
  · obtain ⟨reason, hreason, rfl, hfind⟩ := FileTree.ask_error hfound
    exact Or.inr ⟨name, rfl, hname, Or.inr ⟨reason, _, hreason, hfind, rfl⟩⟩
  · exact Or.inr ⟨name, rfl, hname, Or.inl ⟨hfound, rfl⟩⟩
  · -- A path that leads somewhere can be put to the system, so it can be made absolute.
    rcases hpath : t.resolve (Path.ofText name) with fault | path
    · have hnot := resolve_error_iff.mp ⟨fault, hpath⟩
      rw [← Path.storable_text_ofText] at hnot
      obtain ⟨cause, hfind, hrefused⟩ := FileTree.find_not_storable (t := t) hnot
      rw [FileTree.isDirectory,
        FileTree.ask_answered hfind fun reason s h _ => hrefused reason s h] at hfound
      cases hfound
    · exact Or.inl ⟨some path, rfl⟩

theorem Barred.not_started {settings : Settings} {request : Request}
    (h : Barred settings t request) : jobOf? settings t request = none := by
  obtain ⟨hparsed, hasked, hnamed, hunanswered, hbarred⟩ := h
  rw [jobOf?, hparsed, hasked, outputDirectory_some hnamed, FileTree.isDirectory,
    FileTree.ask_unanswered hunanswered hbarred]

theorem Refused.not_started {settings : Settings} {request : Request} {message : Text}
    (h : Refused settings t request message) :
    jobOf? settings t request = none ∧ ¬ Barred settings t request := by
  cases h with
  | format hunknown =>
    refine ⟨by rw [jobOf?, hunknown], ?_⟩
    rintro ⟨hparsed, -, -, -, -⟩
    rw [hunknown] at hparsed
    cases hparsed
  | directory hparsed hasked hnamed hnowhere =>
    refine ⟨by rw [jobOf?, hparsed, hasked, outputDirectory_some hnamed, hnowhere], ?_⟩
    rintro ⟨-, hasked', -, hunanswered, hbarred⟩
    rw [hasked, Option.some.injEq] at hasked'
    subst hasked'
    rw [FileTree.isDirectory, FileTree.ask_unanswered hunanswered hbarred] at hnowhere
    cases hnowhere

section

variable [Stack]

/-- The ways in which a run can end. -/
inductive Ended (disk : Disk) (settings : Settings) (t : FileTree) (request : Request) :
    Progress × Ending → Prop
  /-- The run does not get as far as its inputs, and says why. -/
  | refused (message : Text) (refused : Refused settings t request message) :
      Ended disk settings t request (refusal t message)
  /-- The run does not get as far as its inputs, and does not say why. -/
  | lost (cause : Death) (barred : Barred settings t request) :
      Ended disk settings t request (.start t, .died cause)
  /-- An input ends the run. -/
  | died (job : Job) (q : Progress) (cause : Death) (started : jobOf? settings t request = some job)
      (died : processAll disk job (.start t) request.inputs = .error (q, cause)) :
      Ended disk settings t request (q, .died cause)
  /-- The run has come to every input. -/
  | finished (job : Job) (q : Progress) (started : jobOf? settings t request = some job)
      (finished : processAll disk job (.start t) request.inputs = .ok q) :
      Ended disk settings t request (if job.toStdout then q else q.tell (closing q),
        .status (if q.failures = 0 then 0 else 1))

theorem run_ended (disk : Disk) (settings : Settings) (t : FileTree) (request : Request) :
    Ended disk settings t request (run disk settings t request) := by
  rw [run]
  rcases hformats : FormatList.parse settings.defaultEmitter request.formats.text? with
    fault | formats
  · exact .refused _ (.format hformats)
  rcases outputDirectory_cases t request.outputDirectory.text? with
    ⟨d, hd⟩ | ⟨name, hasked, hname, ⟨hnowhere, hd⟩ | ⟨reason, path, hreason, hfind, hd⟩⟩
  · have hstarted : jobOf? settings t request
        = some ⟨request.adapter, formats, d, request.toStdout⟩ := by rw [jobOf?, hformats, hd]
    simp only [hd]
    rcases hall : processAll disk ⟨request.adapter, formats, d, request.toStdout⟩ (.start t)
      request.inputs with ⟨q, cause⟩ | q
    · exact .died _ q cause hstarted hall
    · have hended : Ended disk settings t request _ := .finished _ q hstarted hall
      simp only at hended ⊢
      split at hended
      · rename_i hout
        rw [if_pos hout]
        exact hended
      · rename_i hkept
        rw [if_neg hkept]
        exact hended
  · simp only [hd]
    exact .refused _ (.directory hformats hasked hname hnowhere)
  · simp only [hd]
    exact .lost _ (.directory hformats hasked hname hreason hfind)

end

/-! ### Runs that die -/

instance (ending : Ending) (code : Nat) : Decidable (ending = .status code) :=
  match ending with
  | .status n => decidable_of_iff (n = code) ⟨congrArg Ending.status, Ending.status.inj⟩
  | .died _ => isFalse nofun

/-- A directory with two documents that are assembled. -/
def twoDocuments : FileTree :=
  ⟨[(.ofNames ["w"], .directory),
    (.ofNames ["w", "p.json"], .file (handedOver.flatMap Utf8.bytesOf)),
    (.ofNames ["w", "q.json"], .file (handedOver.flatMap Utf8.bytesOf))], ["w"]⟩

def plainSettings : Settings := ⟨"plain_text", "WARNING", "127.0.0.1", 8000, 100000⟩

/-- A request for both documents, in the default format. -/
def bothDocuments : Request :=
  ⟨["p.json", "q.json"], .unsaid, .unsaid, .unsaid, false, .unsaid⟩

end Batch

end LiteralSplice
