/-
What a failing input leaves in the tree.

* **`Batch.Fails`**: an input fails, whether the batch goes on or not;
* **`Batch.Stranding`**: a file has been made for an output that cannot be saved;
* **`Batch.tree_of_fails`**: a failing input leaves the tree as it was, unless it is stranding;
  then that file stays behind;
* **`Batch.surrogate_tree_ne`**: an input that fails and leaves files behind.
-/
import LiteralSplice.Proofs.Units

namespace LiteralSplice

/-- The working directory is given by names that stand for themselves. -/
def FileTree.Sited (t : FileTree) : Prop := ∀ n ∈ t.here, IsName n

namespace Batch

variable {disk : Disk} {job : Job} {p q : Progress} {path : Path} {t : FileTree}

/-- Outputs go to a directory that has been made absolute. -/
def Placed (job : Job) (t : FileTree) : Prop :=
  ∀ d, job.outputDirectory = some d → ∃ asked, t.resolve (Path.ofText asked) = .ok d

theorem directoryOf_absolute (hsited : t.Sited) (hplaced : Placed job t) (hp : path.Absolute) :
    (directoryOf job path).Absolute := by
  rw [directoryOf]
  rcases hd : job.outputDirectory with _ | d
  · exact hp.parent
  · obtain ⟨asked, hasked⟩ := hplaced d hd
    exact FileTree.resolve_absolute hsited hasked

section

variable [Stack]

/-- An input fails: it ends the run, or it is counted as a failure. -/
inductive Fails (disk : Disk) (job : Job) (p : Progress) (path : Path) (q : Progress) : Prop
  | died (cause : Death) (died : process disk job p path = .error (q, cause))
  | reported (reported : process disk job p path = .ok q) (counted : q.failures = p.failures + 1)

/-- The outputs of an input come to nothing when a file has been made for one of them: it cannot
be encoded, or the system does not take it as a whole. -/
def Stranding (disk : Disk) (job : Job) (t : FileTree) (path : Path) : Prop :=
  job.toStdout = false ∧ ∃ program outputs fault,
    (Input.read job t path).result = .ok program ∧ renderAll job.formats program = .ok outputs ∧
    (savedOf disk job t path outputs).result = .error fault ∧ fault.Strands

/-- A tree with what is left behind of the outputs of an input. -/
def Stranded (job : Job) (t : FileTree) (path : Path) (t' : FileTree) : Prop :=
  ∃ program outputs fault, (Input.read job t path).result = .ok program ∧
    renderAll job.formats program = .ok outputs ∧
    Saving.LeftBehind t (directoryOf job path) path.stem outputs fault t'

theorem Stranded.ne {t' : FileTree} (h : Stranded job t path t') : t' ≠ t := by
  obtain ⟨_, _, _, -, -, hleft⟩ := h
  obtain ⟨files, hsome, -, hadds⟩ := hleft.adds
  exact hadds.ne hsome

/-- A failing input that is not stranding leaves the tree as it was, and one that is leaves the
file of an output behind. -/
theorem Fails.tree_cases (hp : path.Absolute) (hd : (directoryOf job path).Absolute)
    (h : Fails disk job p path q) :
    ¬ Stranding disk job p.tree path ∧ q.tree = p.tree ∨
      Stranding disk job p.tree path ∧ Stranded job p.tree path q.tree := by
  -- With the program unread, shown or unrendered no output is saved, so nothing is stranded.
  have hunread : ∀ fault, (Input.read job p.tree path).result = .error fault →
      ¬ Stranding disk job p.tree path := by
    rintro fault hfault ⟨-, program, outputs, _, hread, -⟩
    rw [hfault] at hread
    cases hread
  have hshown : job.toStdout = true → ¬ Stranding disk job p.tree path := by
    rintro hout ⟨hkept, -⟩
    rw [hout] at hkept
    cases hkept
  have hprocessed := process_processed disk job p path
  cases h with
  | died cause hdied =>
    rw [hdied] at hprocessed
    cases hprocessed with
    | fatal fault ends hfault => exact Or.inl ⟨hunread _ hfault, rfl⟩
    | unrendered program cause hkept hread hrender =>
      refine Or.inl ⟨?_, rfl⟩
      rintro ⟨-, program', outputs, _, hread', hrender', -⟩
      rw [hread] at hread'
      cases hread'
      rw [hrender] at hrender'
      cases hrender'
  | reported hok hcounted =>
    rw [hok] at hprocessed
    cases hprocessed with
    | unread fault goesOn hfault => exact Or.inl ⟨hunread _ hfault, rfl⟩
    | unshown program run hout hread hcontent => exact Or.inl ⟨hshown hout, rfl⟩
    | shown program hout hread hcontent => exact Or.inl ⟨hshown hout, rfl⟩
    | unsaved program outputs fault hkept hread hrender hsaved =>
      have haccount := Saving.saveAll_accounted disk p.tree hd (isName_output hp hrender)
      rw [← savedOf, Saving.Accounted, hsaved] at haccount
      rcases haccount with ⟨hstrands, hleft⟩ | ⟨hnot, htree⟩
      · exact Or.inr ⟨⟨hkept, program, outputs, fault, hread, hrender, hsaved, hstrands⟩,
          program, outputs, fault, hread, hrender, hleft⟩
      · refine Or.inl ⟨?_, htree⟩
        rintro ⟨-, program', outputs', fault', hread', hrender', hsaved', hstrands⟩
        rw [hread] at hread'
        cases hread'
        rw [hrender] at hrender'
        cases hrender'
        rw [hsaved] at hsaved'
        cases hsaved'
        exact hnot hstrands
    | saved program outputs paths hkept hread hrender hsaved =>
      exact absurd hcounted (Nat.ne_of_lt (Nat.lt_succ_self p.failures))

/-- **A failing input leaves the tree as it was exactly if it is not stranding**, whatever the
disk does.  If it is, the file of an output stays behind: an empty one after those of the outputs
before it, where it cannot be encoded, and what has been taken of it otherwise. -/
theorem tree_of_fails {name : Text} (hsited : p.tree.Sited) (hplaced : Placed job p.tree)
    (hpath : p.tree.resolve (Path.ofText name) = .ok path) (h : Fails disk job p path q) :
    (q.tree = p.tree ↔ ¬ Stranding disk job p.tree path) ∧
      (Stranding disk job p.tree path → Stranded job p.tree path q.tree) := by
  have hp := FileTree.resolve_absolute hsited hpath
  rcases h.tree_cases hp (directoryOf_absolute hsited hplaced hp) with
    ⟨hnot, htree⟩ | ⟨hstranding, hstranded⟩
  · exact ⟨⟨fun _ => hnot, fun _ => htree⟩, fun hs => absurd hs hnot⟩
  · exact ⟨⟨fun he => absurd he hstranded.ne, fun hs => absurd hstranding hs⟩,
      fun _ => hstranded⟩

end

/-! ### An input that leaves files behind -/

/-- The progress after an input, whether the batch goes on or not. -/
def progressOf : Except (Progress × Death) Progress → Progress
  | .ok q => q
  | .error (q, _) => q

theorem eq_ok_of_isOk {x : Except (Progress × Death) Progress} (h : x.isOk = true) :
    x = .ok (progressOf x) := by
  rcases x with fault | q
  · cases h
  · rfl

/-- A document that is assembled, and whose source is a lone surrogate. -/
def surrogateDocument : Text :=
  "\x7b\"source\":\"\\ud800\",\"instructions\":[\"a\",\"b\",\"c\"]\x7d"

/-- A directory with that document in it. -/
def surrogateTree : FileTree :=
  ⟨[(.ofNames ["w"], .directory),
    (.ofNames ["w", "p.json"], .file (surrogateDocument.flatMap Utf8.bytesOf))], ["w"]⟩

/-- Both formats, with the program ahead of the listing, which names the source. -/
def bothFormats : Job := ⟨.unsaid, ["plain_text", "json_listing"], none, false⟩

def surrogateStart : Progress := ⟨surrogateTree, [], [], [], 0⟩

def surrogatePath : Path := ⟨"/", ["w", "p.json"]⟩

def surrogateEnd : Progress := progressOf (process .sound bothFormats surrogateStart surrogatePath)

theorem surrogate_fails : Fails .sound bothFormats surrogateStart surrogatePath surrogateEnd :=
  .reported (eq_ok_of_isOk (by decide +kernel)) (by decide +kernel)

theorem tree_of_fails_surrogate :
    surrogateStart.tree.Sited ∧ Placed bothFormats surrogateStart.tree ∧
      surrogateStart.tree.resolve (Path.ofText "p.json") = .ok surrogatePath ∧
      (surrogateEnd.tree = surrogateTree ↔
        ¬ Stranding .sound bothFormats surrogateTree surrogatePath) ∧
      (Stranding .sound bothFormats surrogateTree surrogatePath →
        Stranded bothFormats surrogateTree surrogatePath surrogateEnd.tree) := by
  have hsited : surrogateStart.tree.Sited := by
    intro n hn
    rw [List.mem_singleton.mp hn]
    decide
  have hplaced : Placed bothFormats surrogateStart.tree := nofun
  have hpath : surrogateStart.tree.resolve (Path.ofText "p.json") = .ok surrogatePath := rfl
  exact ⟨hsited, hplaced, hpath, tree_of_fails hsited hplaced hpath surrogate_fails⟩

/-- The program is saved, the listing is an empty file, and the input fails. -/
theorem surrogate_tree_ne :
    (∀ key ∈ bothFormats.formats, (Emitter.ofKey? key).isSome = true) ∧
      surrogateStart.tree.resolve (Path.ofText "p.json") = .ok surrogatePath ∧
      Fails .sound bothFormats surrogateStart surrogatePath surrogateEnd ∧
      surrogateEnd.tree ≠ surrogateStart.tree := by
  refine ⟨by decide, rfl, surrogate_fails, fun he => ?_⟩
  have hlength : surrogateEnd.tree.entries.length = 4 := by decide +kernel
  rw [he] at hlength
  exact absurd hlength (by decide)

end Batch

end LiteralSplice
