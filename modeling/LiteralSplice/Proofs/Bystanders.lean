/-
What a failing input means for the others.

* **`Batch.process_after`**: what an input does depends on the tree alone;
* **`Batch.Came`**: how an input comes out that does not end the run;
* **`Batch.passing`**, **`Batch.failing`**: the inputs that come through, and the others;
* **`Batch.Tally`**: what a batch adds up to;
* **`Batch.Lasting`**: what it takes for a run to come to every input;
* **`Batch.run_passing`**: a run that comes to every input reports each failing one, and a run on
  the others alone leaves the same tree exactly if no input is stranding; then it does all that the
  whole run does;
* **`Batch.nested_tree_ne`**: a failing input that leaves files behind for the others to see.

Design notes: that the inputs which come through do the same without the others is an induction
with two progresses that differ in what has been shown and counted and are alike in the rest.  That
the trees differ where an input is stranding is a count of files: alone, the inputs that come
through cannot make more of them than they make in the whole run, and a stranding input makes more.
What it leaves behind may even be what keeps the others from ending the run, so nothing is said of
how they end without it.
-/
import LiteralSplice.Proofs.Endings

namespace LiteralSplice

namespace Progress

/-- Progress made after other progress, said as if there had been none before it. -/
def after (p g : Progress) : Progress :=
  ⟨g.tree, p.stdout ++ g.stdout, p.events ++ g.events, p.saved ++ g.saved,
    p.failures + g.failures⟩

/-- Two progresses are alike but for what has been shown about them and how often an input has
failed. -/
structure Alike (p g : Progress) : Prop where
  tree : g.tree = p.tree
  stdout : g.stdout = p.stdout
  saved : g.saved = p.saved

theorem Alike.refl (p : Progress) : p.Alike p := ⟨rfl, rfl, rfl⟩

theorem Alike.symm {p g : Progress} (h : p.Alike g) : g.Alike p :=
  ⟨h.tree.symm, h.stdout.symm, h.saved.symm⟩

theorem Alike.trans {p g q : Progress} (hpg : p.Alike g) (hgq : g.Alike q) : p.Alike q :=
  ⟨hgq.tree.trans hpg.tree, hgq.stdout.trans hpg.stdout, hgq.saved.trans hpg.saved⟩

end Progress

namespace Batch

variable {disk : Disk} {job : Job} {p q g : Progress} {path : Path} {t : FileTree}

/-! ### One input -/

/-- What an input does depends on the tree alone. -/
theorem process_after [Stack] (disk : Disk) (job : Job) (p : Progress) (path : Path) :
    process disk job p path = match process disk job (.start p.tree) path with
      | .ok g => .ok (p.after g)
      | .error (g, cause) => .error (p.after g, cause) := by
  rw [process, process]
  rcases (Input.read job p.tree path).result with fault | program
  · rcases hends : fault.endsRun with _ | _
    · simp [hends, Progress.after, Progress.tell, Progress.fail]
    · simp [hends, Progress.after, Progress.tell]
  by_cases hout : job.toStdout = true
  · simp only [if_pos hout]
    rcases Utf8.surrogateRun? program.text with _ | run
    · simp [Progress.after, Progress.tell]
    · simp [Progress.after, Progress.tell, Progress.fail]
  simp only [if_neg hout]
  rcases renderAll job.formats program with cause | outputs
  · simp [Progress.after, Progress.tell]
  · simp only [Progress.tell]
    rcases (Saving.saveAll disk (job.outputDirectory.getD path.parent) path.stem p.tree
      outputs).result with fault | paths
    · simp [Progress.after, Progress.fail]
    · simp [Progress.after]

/-- A line about an input that fails. -/
def isReport : Event → Bool
  | .line l => ("Error: " : Text).isPrefixOf l
  | .notice _ => false

/-- The lines about inputs that fail. -/
def reports (p : Progress) : List Event := p.events.filter isReport

/-- The line that an input which fails is reported with. -/
def Reports (path : Path) (e : Event) : Prop :=
  ∃ fault : InputFault, e = .line ("Error: " ++ path.name ++ ": " ++ fault.message)

theorem isReport_read [Stack] (job : Job) (t : FileTree) (path : Path) :
    (Input.read job t path).events.filter isReport = [] := by
  have hnotices : ∀ notices : List Notice, (notices.map Event.notice).filter isReport = [] := by
    intro notices
    rw [List.filter_eq_nil_iff]
    intro e he
    obtain ⟨notice, -, rfl⟩ := List.mem_map.mp he
    exact Bool.false_ne_true
  have hopened : ∀ s, (Input.announcement path s :: (s.handoff t).notices.map .notice).filter
      isReport = [] := by
    intro s
    rw [List.filter_cons_of_neg, hnotices]
    exact Bool.false_ne_true
  rw [Input.read]
  split
  · rfl
  · rename_i s _
    simp only
    split
    · exact hopened s
    · split
      · exact hopened s
      · rw [List.filter_append, hopened s]
        rfl

theorem isReport_saveFrom (disk : Disk) (d : Path) (stem : Text) (t : FileTree)
    (saved : List (Path × Location)) (rs : List Rendering) :
    (Saving.saveFrom disk d stem t saved rs).events.filter isReport = [] := by
  induction rs generalizing t saved with
  | nil => rfl
  | cons r rest ih =>
    rw [Saving.saveFrom]
    split
    · rename_i t' path place _
      rw [List.filter_cons_of_neg]
      · exact ih t' _
      · exact Bool.false_ne_true
    · rfl

theorem isReport_savedOf (disk : Disk) (job : Job) (t : FileTree) (path : Path)
    (outputs : List Rendering) :
    (savedOf disk job t path outputs).events.filter isReport = [] :=
  isReport_saveFrom disk _ _ t [] outputs

/-- How many files an input makes that comes through. -/
def outputCount (job : Job) : Nat := if job.toStdout then 0 else job.formats.length

section

variable [Stack]

/-- How an input comes out that does not end the run: it comes through with as many files as there
are formats, or it is reported and has made no more files than that, and none unless it is
stranding. -/
inductive Came (disk : Disk) (job : Job) (p : Progress) (path : Path) (q : Progress) : Prop
  | through (files : List (Location × Bytes)) (adds : p.tree.Adds files q.tree)
      (count : files.length = outputCount job)
      (saved : ∃ paths, q.saved = p.saved ++ paths ∧ paths.length = files.length)
      (failures : q.failures = p.failures) (quiet : reports q = reports p)
      (sound : ¬ Stranding disk job p.tree path)
  | lost (files : List (Location × Bytes)) (adds : p.tree.Adds files q.tree)
      (few : files.length ≤ outputCount job)
      (stray : files = [] ↔ ¬ Stranding disk job p.tree path)
      (stdout : q.stdout = p.stdout) (saved : q.saved = p.saved)
      (failures : q.failures = p.failures + 1)
      (report : ∃ e, Reports path e ∧ reports q = reports p ++ [e])

theorem came_of_process (hp : path.Absolute) (hd : (directoryOf job path).Absolute)
    (h : process disk job p path = .ok q) : Came disk job p path q := by
  have hprocessed := process_processed disk job p path
  -- A failing input is reported in one line, and makes files only where it is stranding.
  have hlost : q.failures = p.failures + 1 → q.stdout = p.stdout → q.saved = p.saved →
      (∃ e, Reports path e ∧ reports q = reports p ++ [e]) → Came disk job p path q := by
    intro hcounted hstdout hsaved hreport
    rcases (Fails.reported h hcounted).tree_cases hp hd with
      ⟨hnot, htree⟩ | ⟨hstranding, program, outputs, fault, -, hrender, hleft⟩
    · exact .lost [] (htree ▸ FileTree.Adds.refl p.tree) (Nat.zero_le _)
        ⟨fun _ => hnot, fun _ => rfl⟩ hstdout hsaved hcounted hreport
    · obtain ⟨files, hsome, hfew, hadds⟩ := hleft.adds
      have hcount : outputs.length = outputCount job := by
        rw [outputCount, if_neg (by simp [hstranding.1]), (renderAll_ok hrender).length_eq]
      exact .lost files hadds (hcount ▸ hfew) ⟨fun hnil => absurd hnil hsome,
        fun hnot => absurd hstranding hnot⟩ hstdout hsaved hcounted hreport
  have htold : ∀ (events : List Event) (fault : InputFault), events.filter isReport = [] →
      q.events = p.events ++ events
        ++ [.line ("Error: " ++ path.name ++ ": " ++ fault.message)] →
      ∃ e, Reports path e ∧ reports q = reports p ++ [e] := by
    intro events fault hquiet hevents
    refine ⟨_, ⟨fault, rfl⟩, ?_⟩
    rw [reports, hevents, List.filter_append, List.filter_append, hquiet, List.append_nil]
    rfl
  have hread := isReport_read job p.tree path
  rw [h] at hprocessed
  cases hprocessed with
  | unread fault goesOn hfault => exact hlost rfl rfl rfl (htold _ fault hread rfl)
  | unshown program run hout hprogram hcontent =>
    exact hlost rfl rfl rfl (htold _ (.unencodable run) hread rfl)
  | shown program hout hprogram hcontent =>
    refine .through [] (FileTree.Adds.refl p.tree) ?_ ⟨[], (List.append_nil _).symm, rfl⟩ rfl ?_ ?_
    · rw [outputCount, if_pos hout]
      rfl
    · rw [reports, Progress.tell, List.filter_append, hread, List.append_nil, reports]
    · intro hstranding
      cases hout.symm.trans hstranding.1
  | unsaved program outputs fault hkept hprogram hrender hsaved =>
    refine hlost rfl rfl rfl (htold ((Input.read job p.tree path).events
      ++ (savedOf disk job p.tree path outputs).events) fault ?_ ?_)
    · rw [List.filter_append, hread, isReport_savedOf, List.append_nil]
    · simp [Progress.tell, Progress.fail]
  | saved program outputs paths hkept hprogram hrender hsaved =>
    have haccount := Saving.saveAll_accounted disk p.tree hd (isName_output hp hrender)
    rw [← savedOf, Saving.Accounted, hsaved] at haccount
    obtain ⟨files, hfiles, hadds, rfl⟩ := haccount
    refine .through _ hadds ?_ ⟨_, rfl, ?_⟩ rfl ?_ ?_
    · rw [outputCount, if_neg (by simp [hkept]), List.length_map, ← hfiles.length_eq,
        (renderAll_ok hrender).length_eq]
    · rw [List.length_map, List.length_map]
    · simp only [reports, Progress.tell, List.filter_append, hread, isReport_savedOf,
        List.append_nil]
    · rintro ⟨-, program', outputs', fault, hprogram', hrender', hfault, -⟩
      rw [hprogram] at hprogram'
      cases hprogram'
      rw [hrender] at hrender'
      cases hrender'
      rw [hsaved] at hfault
      cases hfault

/-- An input that ends the run leaves the tree as it was. -/
theorem tree_of_died {cause : Death} (h : process disk job p path = .error (q, cause)) :
    q.tree = p.tree := by
  have hprocessed := process_processed disk job p path
  rw [h] at hprocessed
  cases hprocessed with
  | fatal => rfl
  | unrendered => rfl

/-- However an input comes out, it makes no more files than there are formats. -/
theorem few_of_process (hp : path.Absolute) (hd : (directoryOf job path).Absolute) :
    ∃ files, p.tree.Adds files (progressOf (process disk job p path)).tree ∧
      files.length ≤ outputCount job := by
  rcases h : process disk job p path with ⟨q, cause⟩ | q
  · have htree : (progressOf (.error (q, cause))).tree = p.tree := tree_of_died h
    exact ⟨[], htree ▸ FileTree.Adds.refl p.tree, Nat.zero_le _⟩
  · cases came_of_process hp hd h with
    | through files hadds hcount => exact ⟨files, hadds, hcount.le⟩
    | lost files hadds hfew => exact ⟨files, hadds, hfew⟩

/-! ### All inputs of a run -/

/-- Whether an input comes through. -/
def comesThrough (disk : Disk) (job : Job) (u : Progress × Path) : Bool :=
  match process disk job u.1 u.2 with
  | .ok q => q.failures == u.1.failures
  | .error _ => false

/-- The names of the inputs that come through. -/
def passing (disk : Disk) (job : Job) (p : Progress) (names : List Text) : List Text :=
  ((names.zip (visits disk job p names)).filter fun n => comesThrough disk job n.2).map Prod.fst

/-- The inputs that do not come through, each with the progress made before it. -/
def failing (disk : Disk) (job : Job) (p : Progress) (names : List Text) : List (Progress × Path) :=
  (visits disk job p names).filter fun u => !comesThrough disk job u

/-- No input of a run is stranding. -/
def Unstranded (disk : Disk) (job : Job) (p : Progress) (names : List Text) : Prop :=
  ∀ u ∈ visits disk job p names, ¬ Stranding disk job u.1.tree u.2

theorem unstranded_cons {name : Text} (rest : List Text)
    (hpath : p.tree.resolve (Path.ofText name) = .ok path)
    (h : process disk job p path = .ok q) :
    Unstranded disk job p (name :: rest) ↔
      ¬ Stranding disk job p.tree path ∧ Unstranded disk job q rest := by
  rw [Unstranded, visits_cons rest hpath h, List.forall_mem_cons, Unstranded]

theorem passing_cons {name : Text} (rest : List Text)
    (hpath : p.tree.resolve (Path.ofText name) = .ok path)
    (h : process disk job p path = .ok q) :
    passing disk job p (name :: rest)
      = if q.failures = p.failures then name :: passing disk job q rest
        else passing disk job q rest := by
  have hcomes : comesThrough disk job (p, path) = (q.failures == p.failures) := by
    simp only [comesThrough, h]
  rw [passing, visits_cons rest hpath h, List.zip_cons_cons, List.filter_cons, hcomes]
  split
  · rename_i heq
    rw [if_pos (by simpa using heq), List.map_cons, passing]
  · rename_i hne
    rw [if_neg (by simpa using hne), passing]

theorem failing_cons {name : Text} (rest : List Text)
    (hpath : p.tree.resolve (Path.ofText name) = .ok path)
    (h : process disk job p path = .ok q) :
    failing disk job p (name :: rest)
      = if q.failures = p.failures then failing disk job q rest
        else (p, path) :: failing disk job q rest := by
  have hcomes : comesThrough disk job (p, path) = (q.failures == p.failures) := by
    simp only [comesThrough, h]
  rw [failing, visits_cons rest hpath h, List.filter_cons, hcomes]
  by_cases hsame : q.failures = p.failures
  · simp [hsame, failing]
  · simp [hsame, failing]

/-- What a batch adds up to that has come to every input: the failures it has counted and the lines
it has reported them with, the files it remembers to have saved, and the files it has made.  There
are more of these than remembered exactly if an input is stranding. -/
structure Tally (disk : Disk) (job : Job) (p : Progress) (names : List Text) (q : Progress) :
    Prop where
  failures : q.failures = p.failures + (failing disk job p names).length
  reported : ∃ es, reports q = reports p ++ es ∧
    List.Forall₂ (fun u e => Reports u.2 e) (failing disk job p names) es
  saved : q.saved.length
    = p.saved.length + (passing disk job p names).length * outputCount job
  files : ∃ files, p.tree.Adds files q.tree ∧
    (passing disk job p names).length * outputCount job ≤ files.length ∧
    files.length ≤ names.length * outputCount job ∧
    (files.length = (passing disk job p names).length * outputCount job ↔
      Unstranded disk job p names)

/-- What one input comes to is added to what the inputs after it add up to. -/
theorem Tally.cons {name : Text} {rest : List Text} {p' : Progress}
    (hpath : p.tree.resolve (Path.ofText name) = .ok path)
    (hprocess : process disk job p path = .ok p') (hcame : Came disk job p path p')
    (hrest : Tally disk job p' rest q) : Tally disk job p (name :: rest) q := by
  obtain ⟨hfailures, ⟨es, hes, hreported⟩, hsaved, files, hadds, hleast, hmost, hexact⟩ := hrest
  have hpassing := passing_cons rest hpath hprocess
  have hfailing := failing_cons rest hpath hprocess
  have hunstranded := unstranded_cons rest hpath hprocess
  cases hcame with
  | through first hfirst hcount hpaths hsame hquiet hsound =>
    rw [if_pos hsame] at hpassing hfailing
    obtain ⟨paths, hpaths, hlength⟩ := hpaths
    refine ⟨?_, ⟨es, ?_, ?_⟩, ?_, first ++ files, hfirst.trans hadds, ?_, ?_, ?_⟩
    · rw [hfailures, hfailing, hsame]
    · rw [hes, hquiet]
    · rw [hfailing]
      exact hreported
    · rw [hsaved, hpassing, hpaths, List.length_cons, Nat.add_one_mul, List.length_append]
      omega
    · rw [hpassing, List.length_cons, Nat.add_one_mul, List.length_append]
      omega
    · rw [List.length_cons, Nat.add_one_mul, List.length_append]
      omega
    · rw [hunstranded, and_iff_right hsound, ← hexact, hpassing, List.length_cons,
        Nat.add_one_mul, List.length_append]
      omega
  | lost first hfirst hfew hstray hstdout hkept hcounted hreport =>
    have hne : p'.failures ≠ p.failures := by omega
    rw [if_neg hne] at hpassing hfailing
    obtain ⟨e, he, hmore⟩ := hreport
    refine ⟨?_, ⟨e :: es, ?_, ?_⟩, ?_, first ++ files, hfirst.trans hadds, ?_, ?_, ?_⟩
    · rw [hfailures, hfailing, hcounted, List.length_cons]
      omega
    · rw [hes, hmore, List.append_assoc]
      rfl
    · rw [hfailing]
      exact .cons he hreported
    · rw [hsaved, hpassing, hkept]
    · rw [hpassing, List.length_append]
      omega
    · rw [List.length_cons, Nat.add_one_mul, List.length_append]
      omega
    · -- What a stranding input has made is on top of what is made by the others at least.
      rw [hunstranded, ← hstray, ← hexact, hpassing, List.length_append,
        ← List.length_eq_zero_iff]
      omega

theorem tally_of_processAll {names : List Text} (hsited : p.tree.Sited)
    (hplaced : Placed job p.tree) (h : processAll disk job p names = .ok q) :
    Tally disk job p names q := by
  induction names generalizing p with
  | nil =>
    cases h
    refine ⟨rfl, ⟨[], (List.append_nil _).symm, .nil⟩, by simp [passing], [], .refl _,
      by simp [passing],
      by simp, ?_⟩
    simp [passing, Unstranded, visits]
  | cons name rest ih =>
    obtain ⟨path, p', hpath, hprocess, hrest⟩ := processAll_cons_ok.mp h
    obtain ⟨hp, hd⟩ := Found.absolute ⟨.refl p.tree, hsited, hplaced, name, hpath⟩
    have hgrows := (process_grows hp hd).1 p' hprocess
    exact .cons hpath hprocess (came_of_process hp hd hprocess)
      (ih (hgrows.sited hsited) (hplaced.of_grows hgrows) hrest)

/-- However a batch ends, it makes no more files than there are formats for each input. -/
theorem few_of_processAll {names : List Text} (hsited : p.tree.Sited)
    (hplaced : Placed job p.tree) :
    ∃ files, p.tree.Adds files (progressOf (processAll disk job p names)).tree ∧
      files.length ≤ names.length * outputCount job := by
  induction names generalizing p with
  | nil => exact ⟨[], .refl _, Nat.zero_le _⟩
  | cons name rest ih =>
    rw [processAll]
    rcases hpath : p.tree.resolve (Path.ofText name) with fault | path
    · exact ⟨[], .refl _, Nat.zero_le _⟩
    obtain ⟨hp, hd⟩ := Found.absolute ⟨.refl p.tree, hsited, hplaced, name, hpath⟩
    obtain ⟨first, hfirst, hfew⟩ : ∃ files,
        p.tree.Adds files (progressOf (process disk job p path)).tree ∧
          files.length ≤ outputCount job := few_of_process hp hd
    rw [List.length_cons, Nat.add_one_mul]
    rcases hprocess : process disk job p path with ⟨q, cause⟩ | q
    · rw [hprocess] at hfirst
      simp only [hprocess]
      exact ⟨first, hfirst, by omega⟩
    · rw [hprocess] at hfirst
      simp only [hprocess]
      have hgrows := (process_grows hp hd).1 q hprocess
      obtain ⟨files, hadds, hcount⟩ := ih (hgrows.sited hsited) (hplaced.of_grows hgrows)
      exact ⟨first ++ files, hfirst.trans hadds, by rw [List.length_append]; omega⟩

/-- The inputs that come through do the same by themselves, if none of the others is stranding. -/
theorem processAll_passing {names : List Text} (hsited : p.tree.Sited)
    (hplaced : Placed job p.tree) (hsound : Unstranded disk job p names)
    (h : processAll disk job p names = .ok q) (halike : p.Alike g) :
    ∃ q', processAll disk job g (passing disk job p names) = .ok q' ∧ q.Alike q' ∧
      q'.failures = g.failures := by
  induction names generalizing p g with
  | nil =>
    cases h
    exact ⟨g, rfl, halike, rfl⟩
  | cons name rest ih =>
    obtain ⟨path, q', hpath, hprocess, h⟩ := processAll_cons_ok.mp h
    obtain ⟨hp, hd⟩ := Found.absolute ⟨.refl p.tree, hsited, hplaced, name, hpath⟩
    have hgrows := (process_grows hp hd).1 q' hprocess
    have hpassing := passing_cons rest hpath hprocess
    rw [unstranded_cons rest hpath hprocess] at hsound
    have hrest := fun g => ih (g := g) (hgrows.sited hsited) (hplaced.of_grows hgrows) hsound.2 h
    cases came_of_process hp hd hprocess with
    | through first hfirst hcount hpaths hsame hquiet =>
      -- Both progresses go on from what the input does to the tree that they share.
      rw [if_pos hsame] at hpassing
      have halone := process_after disk job g path
      have hwhole := process_after disk job p path
      rw [halike.tree] at halone
      rcases hbase : process disk job (.start p.tree) path with ⟨b, cause⟩ | b
      · rw [hbase, hprocess] at hwhole
        cases hwhole
      · rw [hbase, hprocess] at hwhole
        rw [hbase] at halone
        cases hwhole
        have hnone : b.failures = 0 := by
          simp only [Progress.after] at hsame
          omega
        obtain ⟨q'', hok, hsimilar, hfailures⟩ := hrest (g.after b)
          ⟨rfl, congrArg (· ++ b.stdout) halike.stdout, congrArg (· ++ b.saved) halike.saved⟩
        refine ⟨q'', ?_, hsimilar, ?_⟩
        · rw [hpassing, processAll, halike.tree, hpath]
          simp only [halone]
          exact hok
        · rw [hfailures, Progress.after, hnone]
          rfl
    | lost first hfirst hfew hstray hstdout hkept hcounted =>
      -- A failing input that is not stranding leaves everything but its report as it was.
      have hne : q'.failures ≠ p.failures := by omega
      rw [if_neg hne] at hpassing
      have hnil := hstray.mpr hsound.1
      rw [hnil] at hfirst
      rw [hpassing]
      exact hrest g ⟨halike.tree.trans hfirst.eq_of_nil.symm, halike.stdout.trans hstdout.symm,
        halike.saved.trans hkept.symm⟩

/-- By themselves the inputs that come through leave the tree that the whole list leaves exactly if
no input is stranding. -/
theorem passing_tree_iff {names : List Text} (hsited : p.tree.Sited)
    (hplaced : Placed job p.tree) (h : processAll disk job p names = .ok q) :
    (progressOf (processAll disk job p (passing disk job p names))).tree = q.tree ↔
      Unstranded disk job p names := by
  constructor
  · -- By themselves they make no more files than outputs, and so does the whole list then.
    intro htree
    obtain ⟨files, hadds, hleast, -, hexact⟩ := (tally_of_processAll hsited hplaced h).files
    obtain ⟨files', hadds', hmost⟩ : ∃ files,
        p.tree.Adds files (progressOf (processAll disk job p (passing disk job p names))).tree ∧
          files.length ≤ (passing disk job p names).length * outputCount job :=
      few_of_processAll hsited hplaced
    have hlength := hadds.length_entries
    have hlength' := hadds'.length_entries
    rw [htree, hlength] at hlength'
    exact hexact.mp (by omega)
  · intro hsound
    obtain ⟨g, hpass, halike, -⟩ := processAll_passing hsited hplaced hsound h (.refl p)
    rw [hpass]
    exact halike.tree

end

/-! ### Disks and programs without stranding inputs -/

/-- A disk that takes a file as a whole or not at all. -/
def Whole (disk : Disk) : Prop :=
  ∀ t place content taken message, disk t place content ≠ some (.torn taken message)

theorem save_sound {d : Path} {stem : Text} {r : Rendering} {fault : InputFault}
    (hwhole : Whole disk) (hplain : r.content.Plain)
    (h : (Saving.save disk t d stem r).2 = .error fault) : ¬ fault.Strands := by
  have hencoded := Utf8.encode_ok.mpr ⟨hplain, rfl⟩
  rw [Saving.save] at h
  split at h
  · cases h
    exact not_false
  · split at h
    · cases h
      exact not_false
    · rw [hencoded] at h
      split at h
      · cases h
        exact not_false
      · cases ‹Except.ok _ = Except.error _›
      · exact absurd ‹disk _ _ _ = some _› (hwhole _ _ _ _ _)
      · cases h

theorem saveFrom_sound {d : Path} {stem : Text} {rs : List Rendering} {fault : InputFault}
    {saved : List (Path × Location)} (hwhole : Whole disk)
    (hplain : ∀ r ∈ rs, r.content.Plain)
    (h : (Saving.saveFrom disk d stem t saved rs).result = .error fault) : ¬ fault.Strands := by
  induction rs generalizing t saved with
  | nil => cases h
  | cons r rest ih =>
    obtain ⟨hr, hrest⟩ := List.forall_mem_cons.mp hplain
    have hsave : ∀ fault, (Saving.save disk t d stem r).2 = .error fault → ¬ fault.Strands :=
      fun _ => save_sound hwhole hr
    rw [Saving.saveFrom] at h
    generalize Saving.save disk t d stem r = attempt at h hsave
    split at h
    · exact ih hrest h
    · cases h
      exact hsave _ rfl

section

variable [Stack]

/-- No input is stranding on a disk that takes whole files, if no program has surrogates. -/
theorem unstranded_of_plain {names : List Text} (hwhole : Whole disk)
    (hplain : ∀ u ∈ visits disk job p names, ∀ program,
      (Input.read job u.1.tree u.2).result = .ok program → program.Plain) :
    Unstranded disk job p names := by
  rintro u hu ⟨-, program, outputs, fault, hread, hrender, hfault, hstrands⟩
  obtain ⟨s, handoff, -, -, ha⟩ := read_ok hread
  have hcontents : ∀ r ∈ outputs, r.content.Plain := by
    intro r hr
    obtain ⟨i, hi, rfl⟩ := List.getElem_of_mem hr
    have hall := renderAll_ok hrender
    have hlength := hall.length_eq
    obtain ⟨e, -, hrendered⟩ := hall.get (by omega) hi
    rw [e.render_assembled ha] at hrendered
    have hcontent : e.contentOf program = outputs[i].content :=
      congrArg Rendering.content (Except.ok.inj hrendered)
    rw [← hcontent]
    exact e.plain_contentOf (hplain u hu program hread)
  exact saveFrom_sound hwhole hcontents hfault hstrands

/-! ### Whole runs -/

/-- The progress of a batch with the lines that end a run. -/
def finish (job : Job) (q : Progress) : Progress :=
  if job.toStdout then q else q.tell (closing q)

omit [Stack] in
theorem finish_spec (job : Job) (q : Progress) :
    q.Alike (finish job q) ∧ (finish job q).failures = q.failures ∧
      reports (finish job q) = reports q := by
  rw [finish]
  split
  · exact ⟨.refl q, rfl, rfl⟩
  · refine ⟨⟨rfl, rfl, rfl⟩, rfl, ?_⟩
    rw [reports, Progress.tell, List.filter_append]
    exact List.append_nil _

/-- A run that gets as far as its inputs ends as they do. -/
theorem run_started {settings : Settings} {request : Request}
    (hstarted : jobOf? settings t request = some job) :
    run disk settings t request
      = match processAll disk job (.start t) request.inputs with
        | .error (q, cause) => (q, .died cause)
        | .ok q => (finish job q, .status (if q.failures = 0 then 0 else 1)) := by
  have hended := run_ended disk settings t request
  generalize run disk settings t request = outcome at hended ⊢
  cases hended with
  | refused message hrefused => exact absurd (hrefused.not_started.1.symm.trans hstarted) nofun
  | lost cause hoverlong => exact absurd (hoverlong.not_started.symm.trans hstarted) nofun
  | died job' q' cause hstarted' hdied =>
    rw [hstarted] at hstarted'
    cases hstarted'
    rw [hdied]
  | finished job' q' hstarted' hfinished =>
    rw [hstarted] at hstarted'
    cases hstarted'
    rw [hfinished]
    rfl

theorem run_of_processAll {settings : Settings} {request : Request}
    (hstarted : jobOf? settings t request = some job)
    (hall : processAll disk job (.start t) request.inputs = .ok q) :
    run disk settings t request = (finish job q, .status (if q.failures = 0 then 0 else 1)) := by
  rw [run_started hstarted, hall]

/-- What it takes for a run to come to every input: the system can be given every name, and no
document takes more of the stack than there is. -/
structure Lasting (disk : Disk) (job : Job) (p : Progress) (names : List Text) : Prop where
  storable : ∀ name ∈ names, name.Storable
  bounded : ∀ u ∈ visits disk job p names, ¬ Exhausting job u.1.tree u.2

/-- Where an adapter that is asked for is named and every format has an emitter, nothing else is
what a run dies of. -/
theorem processAll_ok_iff {names : List Text} (hadapter : job.adapter ≠ .valueless)
    (hformats : ∀ key ∈ job.formats, (Emitter.ofKey? key).isSome) :
    (∃ q, processAll disk job p names = .ok q) ↔ Lasting disk job p names := by
  have hdied : (∃ q cause, processAll disk job p names = .error (q, cause)) ↔ _ :=
    processAll_died_iff
  simp only [fatal_iff_exhausting hadapter hformats] at hdied
  constructor
  · rintro ⟨q, hall⟩
    have hlives : ¬ ∃ q cause, processAll disk job p names = .error (q, cause) := by
      rintro ⟨q', cause, h⟩
      rw [hall] at h
      cases h
    rw [hdied, not_or] at hlives
    refine ⟨fun name hname => ?_, fun u hu hexhausting => ?_⟩
    · exact not_not.mp fun hnot => hlives.1 ⟨name, hname, hnot⟩
    · exact hlives.2 ⟨u, hu, hexhausting⟩
  · intro hlasting
    rcases hall : processAll disk job p names with ⟨q, cause⟩ | q
    · rcases hdied.mp ⟨q, cause, hall⟩ with ⟨name, hname, hnot⟩ | ⟨u, hu, hexhausting⟩
      · exact absurd (hlasting.storable name hname) hnot
      · exact absurd hexhausting (hlasting.bounded u hu)
    · exact ⟨q, rfl⟩

/-- The line that ends a run. -/
def doneLine (saved failed : Nat) : Event :=
  .line ("Done! Saved " ++ Text.ofNat saved ++ " file(s), " ++ Text.ofNat failed
    ++ " input(s) failed.")

theorem tree_of_run (disk : Disk) {settings : Settings} {request : Request}
    (hstarted : jobOf? settings t request = some job) :
    (run disk settings t request).1.tree
      = (progressOf (processAll disk job (.start t) request.inputs)).tree := by
  rw [run_started hstarted]
  rcases processAll disk job (.start t) request.inputs with ⟨q, cause⟩ | q
  · rfl
  · exact (finish_spec job q).1.tree

theorem run_eq_status_iff {settings : Settings} {request : Request}
    (hstarted : jobOf? settings t request = some job) :
    (∃ code, (run disk settings t request).2 = .status code) ↔
      ∃ q, processAll disk job (.start t) request.inputs = .ok q := by
  rw [run_started hstarted]
  rcases processAll disk job (.start t) request.inputs with ⟨q, cause⟩ | q
  · exact ⟨nofun, nofun⟩
  · exact ⟨fun _ => ⟨q, rfl⟩, fun _ => ⟨_, rfl⟩⟩

/-- A run that has come to every input reports each failing one in one line, in order, ends with one
exactly if there is one, and counts them in its last line. -/
theorem run_reports {settings : Settings} {request : Request} (hsited : t.Sited)
    (hstarted : jobOf? settings t request = some job)
    (hall : processAll disk job (.start t) request.inputs = .ok q) :
    let whole := run disk settings t request
    let lost := failing disk job (.start t) request.inputs
    whole.2 = .status (if lost = [] then 0 else 1) ∧
      List.Forall₂ (fun u e => Reports u.2 e) lost (reports whole.1) ∧
      (request.toStdout = false →
        whole.1.events.getLast? = some (doneLine whole.1.saved.length lost.length)) := by
  obtain ⟨hplaced, hout⟩ := jobOf?_spec hstarted
  have htally := tally_of_processAll (p := .start t) hsited hplaced hall
  have hlost : q.failures = (failing disk job (.start t) request.inputs).length := by
    rw [htally.failures]
    exact Nat.zero_add _
  intro whole lost
  have hw : whole = (finish job q, .status (if q.failures = 0 then 0 else 1)) :=
    run_of_processAll hstarted hall
  refine ⟨?_, ?_, fun hkept => ?_⟩
  · rw [hw, hlost]
    simp only [List.length_eq_zero_iff]
    rfl
  · obtain ⟨es, hes, hreported⟩ := htally.reported
    rw [hw, (finish_spec job q).2.2, hes]
    exact hreported
  · rw [hw]
    simp only [finish, hout, hkept, Bool.false_eq_true, if_false, Progress.tell, closing]
    rw [List.getLast?_append_of_ne_nil _ (by simp)]
    simp [doneLine, hlost, lost]

/-- **The inputs that come through need none of the others.**  Where an adapter that is asked for is
named and every format has an emitter, a run comes to all its inputs exactly if it can be given
their names and none of them takes more of the stack than there is.  Such a run reports each failing
one in one line, in order, ends with one exactly if there is one, and counts them in its last line.
A run on the others alone leaves the same tree exactly if no input is stranding.  Then it shows the
same programs and saves the same files, without a failure, and the files that the whole run says it
has saved are those that are new.  No input is stranding where the disk takes whole files and no
program has surrogates. -/
theorem run_passing (disk : Disk) {settings : Settings} {request : Request} (hsited : t.Sited)
    (hstarted : jobOf? settings t request = some job) (hadapter : request.adapter ≠ .valueless)
    (hformats : ∀ key ∈ job.formats, (Emitter.ofKey? key).isSome) :
    let whole := run disk settings t request
    let lost := failing disk job (.start t) request.inputs
    let alone := run disk settings t
      { request with inputs := passing disk job (.start t) request.inputs }
    ((∃ code, whole.2 = .status code) ↔ Lasting disk job (.start t) request.inputs) ∧
      (Lasting disk job (.start t) request.inputs →
        whole.2 = .status (if lost = [] then 0 else 1) ∧
        List.Forall₂ (fun u e => Reports u.2 e) lost (reports whole.1) ∧
        (request.toStdout = false →
          whole.1.events.getLast? = some (doneLine whole.1.saved.length lost.length)) ∧
        (alone.1.tree = whole.1.tree ↔ Unstranded disk job (.start t) request.inputs) ∧
        (Unstranded disk job (.start t) request.inputs →
          whole.1.Alike alone.1 ∧ alone.1.failures = 0 ∧ alone.2 = .status 0 ∧
            ∃ files, t.Adds files whole.1.tree ∧ files.length = whole.1.saved.length)) ∧
      (Whole disk → (∀ u ∈ visits disk job (.start t) request.inputs, ∀ program,
          (Input.read job u.1.tree u.2).result = .ok program → program.Plain) →
        Unstranded disk job (.start t) request.inputs) := by
  obtain ⟨hplaced, -⟩ := jobOf?_spec hstarted
  obtain ⟨-, hjob, -⟩ := jobOf?_eq_some hstarted
  have hok : (∃ q, processAll disk job (.start t) request.inputs = .ok q) ↔
      Lasting disk job (.start t) request.inputs := processAll_ok_iff (hjob ▸ hadapter) hformats
  intro whole lost alone
  refine ⟨(run_eq_status_iff hstarted).trans hok, fun hlasting => ?_, unstranded_of_plain⟩
  obtain ⟨q, hall⟩ := hok.mpr hlasting
  obtain ⟨hstatus, hreports, hdone⟩ := run_reports hsited hstarted hall
  refine ⟨hstatus, hreports, hdone, ?_, fun hsound => ?_⟩
  · have hwhole : whole.1.tree = q.tree := by
      rw [tree_of_run disk hstarted, hall]
      rfl
    have halone : alone.1.tree = (progressOf (processAll disk job (.start t)
        (passing disk job (.start t) request.inputs))).tree := tree_of_run disk hstarted
    rw [hwhole, halone]
    exact passing_tree_iff hsited hplaced hall
  · obtain ⟨g, hpass, halike, hnone⟩ := processAll_passing hsited hplaced hsound hall (.refl _)
    have htally := tally_of_processAll (p := .start t) hsited hplaced hall
    obtain ⟨files, hadds, -, -, hexact⟩ := htally.files
    obtain ⟨hsame, -, -⟩ := finish_spec job q
    obtain ⟨hsame', hfailures', -⟩ := finish_spec job g
    have hw : whole = (finish job q, .status (if q.failures = 0 then 0 else 1)) :=
      run_of_processAll hstarted hall
    have hal : alone = (finish job g, .status (if g.failures = 0 then 0 else 1)) :=
      run_of_processAll hstarted hpass
    have hsaved : q.saved.length
        = (passing disk job (.start t) request.inputs).length * outputCount job := by
      rw [htally.saved]
      exact Nat.zero_add _
    rw [hw, hal]
    refine ⟨hsame.symm.trans (halike.trans hsame'), hfailures'.trans hnone, ?_, files, ?_, ?_⟩
    · rw [hnone]
      rfl
    · rw [hsame.tree]
      exact hadds
    · rw [hsame.saved, hsaved]
      exact hexact.mpr hsound

end

/-- A request for a document that is not there and for one whose first output name is taken. -/
def missingThenTaken : Request := { bothDocuments with inputs := ["q.json", "p.json"] }

theorem run_passing_missing :
    passing .sound ⟨.unsaid, ["plain_text"], none, false⟩ (.start takenTree)
        missingThenTaken.inputs = ["p.json"] ∧
      (run .sound plainSettings takenTree missingThenTaken).2 = .status 1 ∧
      Unstranded .sound ⟨.unsaid, ["plain_text"], none, false⟩ (.start takenTree)
        missingThenTaken.inputs := by
  have hsited : takenTree.Sited := by
    intro n hn
    rw [List.mem_singleton.mp hn]
    decide
  have hpassing : passing .sound ⟨.unsaid, ["plain_text"], none, false⟩ (.start takenTree)
      missingThenTaken.inputs = ["p.json"] := by decide +kernel
  have hlost : failing .sound ⟨.unsaid, ["plain_text"], none, false⟩ (.start takenTree)
      missingThenTaken.inputs ≠ [] := by
    have hone : (failing .sound ⟨.unsaid, ["plain_text"], none, false⟩ (.start takenTree)
      missingThenTaken.inputs).length = 1 := by decide +kernel
    intro hnil
    rw [hnil] at hone
    cases hone
  have hstarted : jobOf? plainSettings takenTree missingThenTaken
      = some ⟨.unsaid, ["plain_text"], none, false⟩ := rfl
  have hends : (run .sound plainSettings takenTree missingThenTaken).2 = .status 1 := by
    decide +kernel
  obtain ⟨hlasts, hrun, -⟩ := run_passing .sound hsited hstarted (by decide) (by decide)
  obtain ⟨hstatus, -, -, htree, -⟩ := hrun (hlasts.mp ⟨1, hends⟩)
  rw [if_neg hlost] at hstatus
  refine ⟨hpassing, hstatus, htree.mp (FileTree.eq_of_entries ?_ ?_)⟩
  · decide +kernel
  · decide +kernel

/-! ### A failing input that the others see -/

/-- A document whose program is itself a document, of a unit whose source is a lone surrogate. -/
def nestedDocument : Text :=
  "\x7b\"instructions\":[\"\x7b\\\"instructions\\\":\",\"[\\\"a\\\",\\\"b\\\",\\\"c\\\"],\","
    ++ "\"\\\"source\\\":\\\"\\\\ud800\\\"\x7d\"]\x7d"

def nestedTree : FileTree :=
  ⟨[(.ofNames ["w"], .directory),
    (.ofNames ["w", "p.json"], .file (nestedDocument.flatMap Utf8.bytesOf))], ["w"]⟩

/-- A request for the document and for its program, both read as documents, in both formats. -/
def nestedRequest : Request :=
  ⟨["p.json", "p.ll"], .value "json", .value "plain_text,json_listing", .unsaid, false, .unsaid⟩

def nestedJob : Job := ⟨.value "json", ["plain_text", "json_listing"], none, false⟩

/-- The program is saved and then read as a document, which fails and leaves files behind that are
not there without it.  There is no surrogate in the one file that is there to begin with. -/
theorem nested_tree_ne :
    (∀ name ∈ nestedRequest.inputs, CodePoint.ofNat 0 ∉ name) ∧
      jobOf? plainSettings nestedTree nestedRequest = some nestedJob ∧
      (∀ key ∈ nestedJob.formats, (Emitter.ofKey? key).isSome) ∧
      (∃ program, (Input.read nestedJob nestedTree ⟨"/", ["w", "p.json"]⟩).result = .ok program ∧
        program.Plain) ∧
      passing .sound nestedJob (.start nestedTree) nestedRequest.inputs = ["p.json"] ∧
      (run .sound plainSettings nestedTree { nestedRequest with inputs := ["p.json"] }).1.tree
        ≠ (run .sound plainSettings nestedTree nestedRequest).1.tree := by
  have hread : ∃ program,
      (Input.read nestedJob nestedTree ⟨"/", ["w", "p.json"]⟩).result = .ok program ∧
        program.Plain := by
    have hplain : ((Input.read nestedJob nestedTree ⟨"/", ["w", "p.json"]⟩).result.toOption.any
        fun p => (p.source :: p.lines).all fun line => line.all fun c => !c.isSurrogate) = true := by
      decide +kernel
    rcases hread : (Input.read nestedJob nestedTree ⟨"/", ["w", "p.json"]⟩).result with
      fault | program
    · rw [hread] at hplain
      cases hplain
    · rw [hread] at hplain
      simp only [Except.toOption, Option.any_some, List.all_cons, Bool.and_eq_true] at hplain
      exact ⟨program, rfl, Text.plain_of_all hplain.1,
        fun line hline => Text.plain_of_all (List.all_eq_true.mp hplain.2 line hline)⟩
  refine ⟨by decide, by decide +kernel, by decide, hread, by decide +kernel, fun htree => ?_⟩
  have hentries := congrArg (fun u : FileTree => u.entries.length) htree
  exact absurd hentries (by decide +kernel)

end Batch

end LiteralSplice
