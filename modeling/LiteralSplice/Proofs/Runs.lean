/-
What runs do to the files that are there.

* **`FileTree.Grows`**: a tree with entries added at the end;
* **`Batch.history`**: the trees before, between and after some runs;
* **`Batch.units`**: the inputs that a run comes to, each with the progress made before it;
* **`Batch.history_keeps`**: no run changes a file that is there, and an input that comes through
  adds one new file for each format.

Design notes: that runs keep files is an invariant of the list of entries, which no input does
more to than lengthen it.  What an input that comes through adds is said of the tree that the
input finds, so that it holds of every input of every run.
-/
import LiteralSplice.Proofs.Failures

namespace LiteralSplice

namespace FileTree

variable {t t' t'' : FileTree}

/-- A tree with entries added at the end. -/
structure Grows (t t' : FileTree) : Prop where
  here : t'.here = t.here
  entries : t.entries <+: t'.entries

theorem Grows.refl (t : FileTree) : t.Grows t := ⟨rfl, List.prefix_refl t.entries⟩

theorem Grows.trans (h : t.Grows t') (h' : t'.Grows t'') : t.Grows t'' :=
  ⟨h'.here.trans h.here, h.entries.trans h'.entries⟩

theorem Grows.keeps (h : t.Grows t') : t.Keeps t' := keeps_of_prefix h.entries

theorem Grows.sited (h : t.Grows t') (hsited : t.Sited) : t'.Sited := by
  rw [Sited, h.here]
  exact hsited

theorem Adds.grows {files : List (Location × Bytes)} (h : t.Adds files t') : t.Grows t' :=
  ⟨h.here, h.isPrefix⟩

theorem Grows.of_eq (h : t' = t) : t.Grows t' := h ▸ Grows.refl t

end FileTree

namespace Batch

variable {disk : Disk} {job : Job} {p q : Progress} {path : Path} {t : FileTree}

theorem Placed.of_grows {t' : FileTree} (h : Placed job t) (hgrows : t.Grows t') :
    Placed job t' := by
  intro d hd
  obtain ⟨asked, hasked⟩ := h d hd
  refine ⟨asked, ?_⟩
  rw [FileTree.resolve_eq_ok, hgrows.here]
  exact FileTree.resolve_eq_ok.mp hasked

/-! ### One input -/

section

variable [Stack]

theorem Stranded.grows {t' : FileTree} (h : Stranded job t path t') : t.Grows t' := by
  obtain ⟨_, _, _, -, -, hleft⟩ := h
  obtain ⟨files, -, -, hadds⟩ := hleft.adds
  exact hadds.grows

/-- An input comes through: the batch goes on and no failure is counted. -/
def Succeeds (disk : Disk) (job : Job) (p : Progress) (path : Path) (q : Progress) : Prop :=
  process disk job p path = .ok q ∧ q.failures = p.failures

/-- A new file for a format: right in a directory, with what the emitter of the format makes of a
program. -/
def NewFile (directory : Path) (program : Program Text) (key : Text) (f : Path × Bytes) : Prop :=
  (∃ name, f.1 = directory.below name) ∧
    ∃ r, RenderedAs program key r ∧ Utf8.encode r.content = .ok f.2

/-- The program of an input is that of the hand-off of its source. -/
theorem read_ok {program : Program Text} (h : (Input.read job t path).result = .ok program) :
    ∃ s handoff, Input.source job t path = .ok s ∧ (s.handoff t).answer = .ok handoff ∧
      handoff.assemble = .ok program := by
  rw [Input.read] at h
  rcases hs : Input.source job t path with fault | s
  · rw [hs] at h
    cases h
  · rw [hs] at h
    rcases hh : (s.handoff t).answer with fault | handoff
    · simp only [hh] at h
      cases h
    · simp only [hh] at h
      rcases ha : handoff.assemble with fault | program'
      · simp only [ha] at h
        cases h
      · simp only [ha] at h
        cases h
        exact ⟨s, handoff, rfl, hh, ha⟩

omit [Stack] in
theorem forall₂_newFile {directory : Path} {stem : Text} {program : Program Text}
    {formats : List Text} {outputs : List Rendering} {files : List (Path × Bytes)}
    (hrendered : List.Forall₂ (RenderedAs program) formats outputs)
    (hsaved : List.Forall₂ (Saving.SavedAs directory stem) outputs files) :
    List.Forall₂ (NewFile directory program) formats files := by
  induction hrendered generalizing files with
  | nil =>
    cases hsaved
    exact .nil
  | cons hr _ ih =>
    cases hsaved with
    | cons hs hrest =>
      obtain ⟨⟨k, hk⟩, hcontent⟩ := hs
      exact .cons ⟨⟨_, hk⟩, _, hr, hcontent⟩ (ih hrest)

/-- What an input that comes through has done: it has shown its program, or each of its outputs is a
new file. -/
theorem Succeeds.outputs (hp : path.Absolute) (hd : (directoryOf job path).Absolute)
    (h : Succeeds disk job p path q) :
    job.toStdout = true ∧ q.tree = p.tree ∨
      job.toStdout = false ∧ ∃ program outputs files,
        (Input.read job p.tree path).result = .ok program ∧
        renderAll job.formats program = .ok outputs ∧
        List.Forall₂ (Saving.SavedAs (directoryOf job path) path.stem) outputs files ∧
        p.tree.AddsUnder files q.tree ∧
        q.saved = p.saved ++ files.map Prod.fst := by
  obtain ⟨hok, hcounted⟩ := h
  have hprocessed := process_processed disk job p path
  rw [hok] at hprocessed
  cases hprocessed with
  | unread fault goesOn hfault => exact absurd hcounted (Nat.succ_ne_self p.failures)
  | unshown program run hout hread hcontent =>
    exact absurd hcounted (Nat.succ_ne_self p.failures)
  | shown program hout hread hcontent => exact Or.inl ⟨hout, rfl⟩
  | unsaved program outputs fault hkept hread hrender hsaved =>
    exact absurd hcounted (Nat.succ_ne_self p.failures)
  | saved program outputs paths hkept hread hrender hsaved =>
    have haccount := Saving.saveAll_accounted disk p.tree hd (isName_output hp hrender)
    rw [← savedOf, Saving.Accounted, hsaved] at haccount
    obtain ⟨files, hfiles, hadds, rfl⟩ := haccount
    exact Or.inr ⟨hkept, program, outputs, files, hread, hrender, hfiles, hadds, rfl⟩

/-- An input that comes through adds one new file for each format, or none where the program is
shown. -/
theorem Succeeds.effect (hp : path.Absolute) (hd : (directoryOf job path).Absolute)
    (h : Succeeds disk job p path q) :
    job.toStdout = true ∧ q.tree = p.tree ∨
      job.toStdout = false ∧ ∃ program files, (Input.read job p.tree path).result = .ok program ∧
        p.tree.AddsUnder files q.tree ∧
        List.Forall₂ (NewFile (directoryOf job path) program) job.formats files ∧
        q.saved = p.saved ++ files.map Prod.fst := by
  refine (h.outputs hp hd).imp_right ?_
  rintro ⟨hkept, program, outputs, files, hread, hrender, hfiles, hadds, hsaved⟩
  exact ⟨hkept, program, files, hread, hadds, forall₂_newFile (renderAll_ok hrender) hfiles,
    hsaved⟩

/-- Whatever comes of an input, the tree only grows. -/
theorem process_grows (hp : path.Absolute) (hd : (directoryOf job path).Absolute) :
    (∀ q, process disk job p path = .ok q → p.tree.Grows q.tree) ∧
      ∀ q cause, process disk job p path = .error (q, cause) → p.tree.Grows q.tree := by
  have hfails : ∀ q, Fails disk job p path q → p.tree.Grows q.tree := by
    intro q hq
    rcases hq.tree_cases hp hd with ⟨-, htree⟩ | ⟨-, hstranded⟩
    · exact .of_eq htree
    · exact hstranded.grows
  refine ⟨fun q hok => ?_, fun q cause hdied => hfails q (.died cause hdied)⟩
  -- An input that has been gone through has succeeded or is counted as a failure.
  have hcount : q.failures = p.failures ∨ q.failures = p.failures + 1 := by
    have hprocessed := process_processed disk job p path
    rw [hok] at hprocessed
    cases hprocessed with
    | unread => exact Or.inr rfl
    | unshown => exact Or.inr rfl
    | shown => exact Or.inl rfl
    | unsaved => exact Or.inr rfl
    | saved => exact Or.inl rfl
  rcases hcount with hcount | hcount
  · have hsucceeds : Succeeds disk job p path q := ⟨hok, hcount⟩
    rcases hsucceeds.effect hp hd with ⟨-, htree⟩ | ⟨-, program, files, -, hadds, -⟩
    · exact .of_eq htree
    · exact hadds.grows
  · exact hfails q (.reported hok hcount)

/-- A program that is shown leaves the tree as it was, whatever comes of it. -/
theorem process_toStdout (hout : job.toStdout = true) :
    (∀ q, process disk job p path = .ok q → q.tree = p.tree) ∧
      ∀ q cause, process disk job p path = .error (q, cause) → q.tree = p.tree := by
  have hprocessed := process_processed disk job p path
  refine ⟨fun q hok => ?_, fun q cause hdied => ?_⟩
  · rw [hok] at hprocessed
    cases hprocessed with
    | unread => rfl
    | unshown => rfl
    | shown => rfl
    | unsaved program outputs fault hkept => exact absurd (hout.symm.trans hkept) nofun
    | saved program outputs paths hkept => exact absurd (hout.symm.trans hkept) nofun
  · rw [hdied] at hprocessed
    cases hprocessed with
    | fatal => rfl
    | unrendered program cause hkept => rfl

/-! ### All inputs of a run -/

/-- The inputs that a batch comes to, each with the progress made before it. -/
def visits (disk : Disk) (job : Job) (p : Progress) : List Text → List (Progress × Path)
  | [] => []
  | name :: rest =>
    match p.tree.resolve (Path.ofText name) with
    | .error _ => []
    | .ok path =>
      (p, path) ::
        match process disk job p path with
        | .ok q => visits disk job q rest
        | .error _ => []

/-- What every input finds that a batch comes to: a tree that has grown from the first one. -/
def Found (job : Job) (t : FileTree) (p : Progress) (path : Path) : Prop :=
  t.Grows p.tree ∧ p.tree.Sited ∧ Placed job p.tree ∧
    ∃ name, p.tree.resolve (Path.ofText name) = .ok path

omit [Stack] in
theorem Found.absolute (h : Found job t p path) :
    path.Absolute ∧ (directoryOf job path).Absolute := by
  obtain ⟨-, hsited, hplaced, name, hpath⟩ := h
  have hp := FileTree.resolve_absolute hsited hpath
  exact ⟨hp, directoryOf_absolute hsited hplaced hp⟩

theorem visits_found {names : List Text} (hsited : p.tree.Sited) (hplaced : Placed job p.tree) :
    ∀ u ∈ visits disk job p names, Found job p.tree u.1 u.2 := by
  induction names generalizing p with
  | nil => exact fun u hu => absurd hu List.not_mem_nil
  | cons name rest ih =>
    intro u hu
    rw [visits] at hu
    rcases hpath : p.tree.resolve (Path.ofText name) with fault | path
    · rw [hpath] at hu
      cases hu
    · have hfound : Found job p.tree p path :=
        ⟨.refl p.tree, hsited, hplaced, name, hpath⟩
      rw [hpath] at hu
      rcases List.mem_cons.mp hu with rfl | hu
      · exact hfound
      · rcases hprocess : process disk job p path with fault | q
        · rw [hprocess] at hu
          cases hu
        · rw [hprocess] at hu
          have hgrows := (process_grows hfound.absolute.1 hfound.absolute.2).1 q hprocess
          obtain ⟨h1, h2⟩ := ih (hgrows.sited hsited) (hplaced.of_grows hgrows) u hu
          exact ⟨hgrows.trans h1, h2⟩

/-- A relation between trees that every input respects is respected by a whole batch. -/
theorem processAll_induct {names : List Text} (motive : FileTree → FileTree → Prop)
    (hrefl : ∀ t, motive t t) (htrans : ∀ t t' t'', motive t t' → motive t' t'' → motive t t'')
    (hstep : ∀ p path, Found job p.tree p path →
      (∀ q, process disk job p path = .ok q → motive p.tree q.tree) ∧
        ∀ q cause, process disk job p path = .error (q, cause) → motive p.tree q.tree)
    (hsited : p.tree.Sited) (hplaced : Placed job p.tree) :
    (∀ q, processAll disk job p names = .ok q → motive p.tree q.tree) ∧
      ∀ q cause, processAll disk job p names = .error (q, cause) → motive p.tree q.tree := by
  induction names generalizing p with
  | nil =>
    refine ⟨fun q h => ?_, fun q cause h => ?_⟩
    · cases h
      exact hrefl p.tree
    · cases h
  | cons name rest ih =>
    rw [processAll]
    rcases hpath : p.tree.resolve (Path.ofText name) with fault | path
    · refine ⟨fun q h => ?_, fun q cause h => ?_⟩
      · cases h
      · cases h
        exact hrefl p.tree
    · have hfound : Found job p.tree p path := ⟨.refl p.tree, hsited, hplaced, name, hpath⟩
      rcases hprocess : process disk job p path with ⟨q, cause⟩ | q
      · refine ⟨fun q' h => ?_, fun q' cause' h => ?_⟩
        · simp only [hprocess] at h
          cases h
        · simp only [hprocess] at h
          cases h
          exact (hstep p path hfound).2 q cause hprocess
      · -- The inputs after this one find a tree that has grown, with the same directories.
        have hgrows := (process_grows hfound.absolute.1 hfound.absolute.2).1 q hprocess
        have hfirst := (hstep p path hfound).1 q hprocess
        have hrest := ih (hgrows.sited hsited) (hplaced.of_grows hgrows)
        simp only [hprocess]
        exact ⟨fun q' h => htrans _ _ _ hfirst (hrest.1 q' h),
          fun q' cause h => htrans _ _ _ hfirst (hrest.2 q' cause h)⟩

theorem processAll_grows {names : List Text} (hsited : p.tree.Sited)
    (hplaced : Placed job p.tree) :
    (∀ q, processAll disk job p names = .ok q → p.tree.Grows q.tree) ∧
      ∀ q cause, processAll disk job p names = .error (q, cause) → p.tree.Grows q.tree :=
  processAll_induct FileTree.Grows .refl (fun _ _ _ => .trans)
    (fun _ _ hfound => process_grows hfound.absolute.1 hfound.absolute.2) hsited hplaced

theorem processAll_toStdout {names : List Text} (hout : job.toStdout = true)
    (hsited : p.tree.Sited) (hplaced : Placed job p.tree) :
    (∀ q, processAll disk job p names = .ok q → q.tree = p.tree) ∧
      ∀ q cause, processAll disk job p names = .error (q, cause) → q.tree = p.tree :=
  processAll_induct (fun t t' => t' = t) (fun _ => rfl) (fun _ _ _ h h' => h'.trans h)
    (fun _ _ _ => process_toStdout hout) hsited hplaced

/-! ### Whole runs -/

/-- What is the same for all inputs of a request, if the request gets as far as its inputs. -/
def jobOf? (settings : Settings) (t : FileTree) (request : Request) : Option Job :=
  match FormatList.parse settings.defaultEmitter request.formats.text?,
    outputDirectory t request.outputDirectory.text? with
  | .ok formats, .ok (.ok directory) =>
    some ⟨request.adapter, formats, directory, request.toStdout⟩
  | _, _ => none

omit [Stack] in
theorem jobOf?_spec {settings : Settings} {request : Request}
    (h : jobOf? settings t request = some job) :
    Placed job t ∧ job.toStdout = request.toStdout := by
  rw [jobOf?] at h
  split at h
  · rename_i formats directory _ hdirectory
    cases h
    refine ⟨fun d hd => ?_, rfl⟩
    simp only at hd
    rw [hd, outputDirectory.eq_def] at hdirectory
    split at hdirectory
    · cases hdirectory
    · cases hdirectory
    · rename_i asked _ _
      split at hdirectory
      · cases hdirectory
      · cases hdirectory
      · split at hdirectory
        · cases hdirectory
        · rename_i path hpath
          cases hdirectory
          exact ⟨asked, hpath⟩
  · cases h

/-- A run that gets as far as its inputs does to the tree what they do, any other does nothing. -/
theorem run_tree (disk : Disk) (settings : Settings) (t : FileTree) (request : Request) :
    (run disk settings t request).1.tree = t ∨
      ∃ job, jobOf? settings t request = some job ∧
        (run disk settings t request).1.tree
          = (progressOf (processAll disk job ⟨t, [], [], [], 0⟩ request.inputs)).tree := by
  rw [run]
  rcases hformats : FormatList.parse settings.defaultEmitter request.formats.text? with
    fault | formats
  · exact Or.inl rfl
  · rcases hdirectory : outputDirectory t request.outputDirectory.text? with cause | message | d
    · exact Or.inl rfl
    · exact Or.inl rfl
    · refine Or.inr ⟨⟨request.adapter, formats, d, request.toStdout⟩, ?_, ?_⟩
      · rw [jobOf?, hformats, hdirectory]
      · simp only
        rcases processAll disk ⟨request.adapter, formats, d, request.toStdout⟩ ⟨t, [], [], [], 0⟩
          request.inputs with ⟨q, cause⟩ | q
        · rfl
        · simp only [progressOf]
          split <;> rfl

omit [Stack] in
theorem progressOf_of_both {motive : Progress → Prop} {x : Except (Progress × Death) Progress}
    (h : (∀ q, x = .ok q → motive q) ∧ ∀ q cause, x = .error (q, cause) → motive q) :
    motive (progressOf x) := by
  rcases x with ⟨q, cause⟩ | q
  · exact h.2 q cause rfl
  · exact h.1 q rfl

theorem run_grows (disk : Disk) (settings : Settings) (request : Request) (hsited : t.Sited) :
    t.Grows (run disk settings t request).1.tree := by
  rcases run_tree disk settings t request with htree | ⟨job, hjob, htree⟩
  · exact .of_eq htree
  · rw [htree]
    exact progressOf_of_both (processAll_grows (p := ⟨t, [], [], [], 0⟩) hsited
      (jobOf?_spec hjob).1)

theorem run_toStdout (disk : Disk) (settings : Settings) {request : Request} (hsited : t.Sited)
    (hout : request.toStdout = true) : (run disk settings t request).1.tree = t := by
  rcases run_tree disk settings t request with htree | ⟨job, hjob, htree⟩
  · exact htree
  · obtain ⟨hplaced, hjobout⟩ := jobOf?_spec hjob
    rw [htree]
    exact progressOf_of_both (motive := fun q => q.tree = t)
      (processAll_toStdout (p := ⟨t, [], [], [], 0⟩) (hjobout.trans hout) hsited hplaced)

theorem main_tree (disk : Disk) (settings : Settings) (t : FileTree) (arguments : List Text) :
    (mainOn disk settings t arguments).tree = t ∨
      ∃ request, CommandLine.parse arguments = .ok (.work request) ∧
        (mainOn disk settings t arguments).tree = (run disk settings t request).1.tree := by
  rw [mainOn]
  rcases CommandLine.parse arguments with fault | asked
  · exact Or.inl rfl
  · cases asked with
    | help =>
      refine Or.inl ?_
      simp only
      rcases CommandLine.help settings with fault | text <;> rfl
    | work request =>
      simp only
      rcases threshold settings request with fault | least
      · exact Or.inl rfl
      · exact Or.inr ⟨request, rfl, rfl⟩

theorem main_grows (disk : Disk) (settings : Settings) (arguments : List Text) (hsited : t.Sited) :
    t.Grows (mainOn disk settings t arguments).tree := by
  rcases main_tree disk settings t arguments with htree | ⟨request, -, htree⟩
  · exact .of_eq htree
  · rw [htree]
    exact run_grows disk settings request hsited

/-! ### Sequences of runs -/

/-- What a run is made with. -/
structure Invocation where
  disk : Disk
  settings : Settings
  arguments : List Text

/-- The trees before, between and after runs. -/
def history (t : FileTree) : List Invocation → List FileTree
  | [] => [t]
  | i :: rest => t :: history (mainOn i.disk i.settings t i.arguments).tree rest

/-- The inputs that a run comes to, each with what is the same for all of them and with the
progress made before it. -/
def units (i : Invocation) (t : FileTree) : List (Job × Progress × Path) :=
  match CommandLine.parse i.arguments with
  | .ok (.work request) =>
    match threshold i.settings request, jobOf? i.settings t request with
    | .ok _, some job =>
      (visits i.disk job ⟨t, [], [], [], 0⟩ request.inputs).map fun u => (job, u)
    | _, _ => []
  | _ => []

theorem history_grows {runs : List Invocation} (hsited : t.Sited) :
    ∀ t' ∈ history t runs, t.Grows t' := by
  induction runs generalizing t with
  | nil =>
    intro t' ht'
    rw [List.mem_singleton.mp ht']
    exact .refl t
  | cons i rest ih =>
    intro t' ht'
    rcases List.mem_cons.mp ht' with rfl | ht'
    · exact .refl t'
    · have hgrows := main_grows i.disk i.settings i.arguments hsited
      exact hgrows.trans (ih (hgrows.sited hsited) t' ht')

theorem history_pairwise {runs : List Invocation} (hsited : t.Sited) :
    (history t runs).Pairwise FileTree.Keeps := by
  induction runs generalizing t with
  | nil => exact List.pairwise_singleton _ t
  | cons i rest ih =>
    have hgrows := main_grows i.disk i.settings i.arguments hsited
    have hsited' := hgrows.sited hsited
    exact List.pairwise_cons.mpr
      ⟨fun t' ht' => (hgrows.trans (history_grows hsited' t' ht')).keeps, ih hsited'⟩

theorem units_found {i : Invocation} (hsited : t.Sited) :
    ∀ u ∈ units i t, Found u.1 t u.2.1 u.2.2 := by
  intro u hu
  rw [units] at hu
  split at hu
  · split at hu
    · rename_i job _ hjob
      obtain ⟨v, hv, rfl⟩ := List.mem_map.mp hu
      exact visits_found (p := ⟨t, [], [], [], 0⟩) hsited (jobOf?_spec hjob).1 v hv
    · cases hu
  · cases hu

/-- What an input that comes through does: nothing where programs are shown, else it adds one new
file for each format, with what its emitter makes of the program of the input. -/
def Effect (job : Job) (p : Progress) (path : Path) (q : Progress) : Prop :=
  (job.toStdout = true → q.tree = p.tree) ∧
    (job.toStdout = false → ∃ s handoff program files,
      Input.source job p.tree path = .ok s ∧ (s.handoff p.tree).answer = .ok handoff ∧
      handoff.assemble = .ok program ∧ p.tree.AddsUnder files q.tree ∧
      List.Forall₂ (NewFile (directoryOf job path) program) job.formats files ∧
      q.saved = p.saved ++ files.map Prod.fst)

theorem Succeeds.effect_of_found (hfound : Found job t p path) (h : Succeeds disk job p path q) :
    Effect job p path q := by
  obtain ⟨hp, hd⟩ := hfound.absolute
  rcases h.effect hp hd with ⟨hout, htree⟩ | ⟨hkept, program, files, hread, hadds⟩
  · exact ⟨fun _ => htree, fun hkept => absurd (hout.symm.trans hkept) nofun⟩
  · obtain ⟨s, handoff, hs, hh, ha⟩ := read_ok hread
    exact ⟨fun hout => absurd (hout.symm.trans hkept) nofun,
      fun _ => ⟨s, handoff, program, files, hs, hh, ha, hadds⟩⟩

/-- **No run changes a file that is there**, however many runs there are, whatever comes of their
inputs, and whatever their disks do.  An input that comes through adds one new file for each
format, and a run that shows its programs leaves the tree as it was. -/
theorem history_keeps {t : FileTree} (hsited : t.Sited) (runs : List Invocation) :
    (history t runs).Pairwise FileTree.Keeps ∧
      ∀ t' ∈ history t runs, ∀ i : Invocation,
        (∀ job p path q, (job, p, path) ∈ units i t' →
          Succeeds i.disk job p path q → Effect job p path q) ∧
        ∀ request, CommandLine.parse i.arguments = .ok (.work request) →
          request.toStdout = true → (mainOn i.disk i.settings t' i.arguments).tree = t' := by
  refine ⟨history_pairwise hsited, fun t' ht' i => ⟨?_, ?_⟩⟩
  · intro job p path q hunit hsucceeds
    have hsited' := (history_grows hsited t' ht').sited hsited
    exact hsucceeds.effect_of_found (units_found hsited' _ hunit)
  · intro request hparse hout
    have hsited' := (history_grows hsited t' ht').sited hsited
    rcases main_tree i.disk i.settings t' i.arguments with htree | ⟨request', hparse', htree⟩
    · exact htree
    · rw [hparse] at hparse'
      cases hparse'
      rw [htree, run_toStdout i.disk i.settings hsited' hout]

end

/-- A document that is assembled. -/
def handedOver : Text := "\x7b\"instructions\":[\"a\",\"b\",\"c\"]\x7d"

/-- A directory with a document, and with a file under the first name for its program. -/
def takenTree : FileTree :=
  ⟨[(.ofNames ["w"], .directory),
    (.ofNames ["w", "p.json"],
      .file (handedOver.flatMap Utf8.bytesOf)),
    (.ofNames ["w", "p.ll"], .file [0x6F])], ["w"]⟩

/-- A run in the default format, one that is left with three bytes of its program, and one in both
formats. -/
def threeRuns : List Invocation :=
  let settings : Settings := ⟨"plain_text", "WARNING", "127.0.0.1", 8000, 100000⟩
  let torn : Disk := fun _ _ _ => some (.torn 3 "[Errno 28] No space left on device")
  [⟨.sound, settings, ["p.json"]⟩, ⟨torn, settings, ["p.json"]⟩,
    ⟨.sound, settings, ["p.json", "--formats", "plain_text,json_listing"]⟩]

theorem history_keeps_taken :
    takenTree.Sited ∧ (history takenTree threeRuns).map (·.entries.length) = [3, 4, 5, 7] ∧
      (history takenTree threeRuns).Pairwise FileTree.Keeps ∧
      ∀ (i : Invocation) job p path q, (job, p, path) ∈ units i takenTree →
        Succeeds i.disk job p path q → Effect job p path q := by
  have hsited : takenTree.Sited := by
    intro n hn
    rw [List.mem_singleton.mp hn]
    decide
  obtain ⟨hkeeps, heffect⟩ := history_keeps hsited threeRuns
  exact ⟨hsited, by decide +kernel, hkeeps, fun i =>
    (heffect takenTree List.mem_cons_self i).1⟩

end Batch

end LiteralSplice
