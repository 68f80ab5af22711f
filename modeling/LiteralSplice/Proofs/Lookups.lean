/-
Names looked up in a directory, however its path is written.

* **`Path.Tidy`**: a path as reading leaves it, absolute or not;
* **`FileTree.LeadsTo`**: a path leads to a directory at a place;
* **`FileTree.find_below`**, **`FileTree.find_too_long`**: what a name below such a path leads to;
* **`FileTree.placeFor_below`**: where a file is written under such a name;
* **`FileTree.leadsTo_parent`**: what has been found under a path is in the directory of the path.

Design notes: a path is followed from its root or from the working directory, and it is written
with a slash between its names.  `Path.way` is what is followed, without regard to how a path with
no names is written, so going on by one name is one step more.
-/
import LiteralSplice.Proofs.Places

namespace LiteralSplice

namespace Path

variable {p d : Path} {name : Text}

/-- A path as reading leaves it. -/
structure Tidy (p : Path) : Prop where
  root : p.root = [] ∨ p.root = "/" ∨ p.root = "//"
  names : ∀ n ∈ p.names, Kept n

theorem tidy_ofText (t : Text) : (ofText t).Tidy := by
  refine ⟨?_, fun n hn => mem_ofText_names hn⟩
  rw [ofText]
  split_ifs <;> simp

theorem Absolute.tidy (h : p.Absolute) : p.Tidy :=
  ⟨Or.inr (Or.inl h.root), fun n hn => kept_of_isName (h.names n hn)⟩

theorem Tidy.parent (h : p.Tidy) : p.parent.Tidy :=
  ⟨h.root, fun n hn => h.names n (List.dropLast_subset _ hn)⟩

/-- A path below another by one name. -/
def below (d : Path) (name : Text) : Path := { d with names := d.names ++ [name] }

theorem Tidy.below (h : d.Tidy) (hname : Kept name) : (d.below name).Tidy := by
  refine ⟨h.root, fun n hn => ?_⟩
  rcases List.mem_append.mp hn with hn | hn
  · exact h.names n hn
  · rw [List.mem_singleton.mp hn]
    exact hname

/-- A path with a name is below its parent by that name. -/
theorem eq_below (hne : p.names ≠ []) : p = p.parent.below p.name := by
  have hlast : p.name = p.names.getLast hne := by
    rw [Path.name, List.getLast?_eq_some_getLast hne]
    rfl
  rw [hlast, Path.below, Path.parent, List.dropLast_append_getLast hne]

/-- What is followed of a path: an empty name for each slash of the root, and then its names. -/
def way (p : Path) : List Text := List.replicate p.root.length [] ++ p.names

theorem place_below (d : Path) (name : Text) :
    (d.below name).place = d.place ++ [FileName.bytes name] := Location.ofNames_concat _ _

theorem way_below (d : Path) (name : Text) : (d.below name).way = d.way ++ [name] :=
  (List.append_assoc _ _ _).symm

theorem Tidy.split_text (h : p.Tidy) (hne : p.names ≠ []) : p.text.split '/' = p.way := by
  have hjoin : Text.split (CodePoint.ofChar '/') (Text.join "/" p.names) = p.names :=
    Text.split_join (fun n hn => (h.names n hn).2.2) hne
  rw [text, if_neg fun hempty => hne hempty.2, way]
  rcases h.root with hroot | hroot | hroot <;> rw [hroot]
  · exact hjoin
  · exact (Text.split_append_cons _ [] _).trans (congrArg _ hjoin)
  · exact (Text.split_append_cons _ "/" _).trans (congrArg _ hjoin)

theorem Tidy.storable_root (h : p.Tidy) : p.root.Storable := by
  rcases h.root with hroot | hroot | hroot <;> rw [hroot] <;> decide

/-- A name can be looked up below a directory: neither the name nor its path is too long. -/
structure Fits (d : Path) (name : Text) : Prop where
  short : FileTree.exceeds FileTree.nameLimit name = false
  near : FileTree.exceeds FileTree.pathLimit (d.below name).text = false

end Path

namespace FileTree

variable {t : FileTree} {p d : Path} {place q : Location} {name : Text}

theorem step_name (hdirectory : t.entryAt? place = some .directory) (hname : IsName name) :
    t.step place name
      = if exceeds nameLimit name then .error .nameTooLong
        else if (t.entryAt? (place ++ [FileName.bytes name])).isNone then .error .missing
        else .ok (place ++ [FileName.bytes name]) := by
  rw [step, hdirectory, if_neg (by decide), if_neg (not_not.mpr rfl),
    if_neg (by simp [hname.ne_nil, hname.ne_dot]), if_neg hname.ne_dots]

theorem directory_of_step (hne : name ≠ []) (h : t.step place name = .ok q) :
    t.entryAt? place = some .directory := by
  by_contra hnot
  rw [step, if_neg hne, if_pos hnot] at h
  split at h <;> cases h

/-- Where the way of a path starts. -/
def base (t : FileTree) (p : Path) : Location := if p.root = [] then .ofNames t.here else []

theorem start_tidy (t : FileTree) (hp : p.Tidy) : t.start p.text = t.base p := by
  rw [start, base]
  by_cases hroot : p.root = []
  · have hhead : p.text.head? ≠ some (CodePoint.ofChar '/') := by
      by_cases hne : p.names = []
      · rw [Path.text, if_pos ⟨hroot, hne⟩]
        decide
      · -- With a slash ahead there would be an empty name.
        intro hslash
        obtain ⟨rest, hrest⟩ := List.head?_eq_some_iff.mp hslash
        have hsplit := hp.split_text hne
        rw [hrest, Text.split, if_pos rfl, Path.way, hroot] at hsplit
        have hempty : [] ∈ p.names := by
          rw [← List.nil_append p.names]
          exact hsplit ▸ List.mem_cons_self
        exact (hp.names [] hempty).1 rfl
    rw [if_neg hhead, if_pos hroot]
  · have hslash : p.text.head? = some (CodePoint.ofChar '/') := by
      rw [Path.text, if_neg fun hempty => hroot hempty.1]
      rcases hp.root with hroot' | hroot' | hroot'
      · exact absurd hroot' hroot
      · rw [hroot']
        rfl
      · rw [hroot']
        rfl
    rw [if_pos hslash, if_neg hroot]

theorem follow_singleton (t : FileTree) (place : Location) (name : Text) :
    t.follow place [name] = t.step place name := by
  rw [follow, List.foldlM_cons]
  rcases t.step place name with reason | next <;> rfl

theorem follow_empty (t : FileTree) (n : Nat) : t.follow [] (List.replicate n []) = .ok [] := by
  induction n with
  | zero => rfl
  | succ n ih =>
    rw [List.replicate_succ, follow, List.foldlM_cons, step_nil]
    exact ih

/-- However a path is written, following it is following its way. -/
theorem follow_text_tidy (hp : p.Tidy)
    (h : t.follow (t.start p.text) (p.text.split '/') = .ok place) :
    t.follow (t.base p) p.way = .ok place := by
  rw [start_tidy t hp] at h
  by_cases hne : p.names = []
  swap
  · rwa [hp.split_text hne] at h
  -- A path without names is written as a dot or as its root, and either leads to where it starts.
  rw [Path.way, hne, List.append_nil]
  by_cases hroot : p.root = []
  · have hdot : t.step (t.base p) "." = .ok place := by
      rw [← follow_singleton, ← h, Path.text, if_pos ⟨hroot, hne⟩]
      rfl
    rw [step, directory_of_step (by decide) hdot, if_neg (by decide), if_neg (not_not.mpr rfl),
      if_pos (Or.inr rfl)] at hdot
    rw [hroot]
    exact hdot
  · have hsplit : p.text.split '/' = List.replicate (p.root.length + 1) [] := by
      rw [Path.text, if_neg fun hempty => hroot hempty.1, hne]
      rcases hp.root with hroot' | hroot' | hroot'
      · exact absurd hroot' hroot
      · rw [hroot']
        rfl
      · rw [hroot']
        rfl
    rw [base, if_neg hroot] at h ⊢
    rw [hsplit, follow_empty] at h
    rw [follow_empty, h]

/-- A path leads to a directory. -/
structure LeadsTo (t : FileTree) (d : Path) (place : Location) : Prop where
  tidy : d.Tidy
  storable : ∀ n ∈ d.names, n.Storable
  follow : t.follow (t.base d) d.way = .ok place
  directory : t.entryAt? place = some .directory

theorem leadsTo_of_find (hd : d.Tidy) (h : t.find d.text = .ok (place, .directory)) :
    t.LeadsTo d place := by
  obtain ⟨hstorable, -, -, hfollow, hentry⟩ := find_eq_ok.mp h
  exact ⟨hd, (Path.storable_text hd.storable_root).mp hstorable, follow_text_tidy hd hfollow,
    hentry⟩

/-- The path to a file leads through the directory of the file. -/
theorem leadsTo_parent {e : Entry} (hp : p.Tidy) (hname : IsName p.name)
    (h : t.find p.text = .ok (q, e)) :
    ∃ place, t.LeadsTo p.parent place ∧ q = place ++ [FileName.bytes p.name] := by
  have hne : p.names ≠ [] := by
    intro hnil
    exact hname.ne_nil (by rw [Path.name, hnil]; rfl)
  obtain ⟨hstorable, -, -, hfollow, -⟩ := find_eq_ok.mp h
  have hway := follow_text_tidy hp hfollow
  have hsplit : p.way = p.parent.way ++ [p.name] := by
    conv_lhs => rw [Path.eq_below hne]
    exact Path.way_below _ _
  rw [hsplit, follow_snoc] at hway
  rcases hparent : t.follow (t.base p) p.parent.way with reason | place
  · rw [hparent] at hway
    cases hway
  rw [hparent] at hway
  obtain ⟨hq, -⟩ := step_ok hname hway
  have hnames := (Path.storable_text hp.storable_root).mp hstorable
  exact ⟨place, ⟨hp.parent, fun n hn => hnames n (List.dropLast_subset _ hn), hparent,
    directory_of_step hname.ne_nil hway⟩, hq⟩

/-! ### Names below a directory -/

/-- Below a directory a name leads to where one more step leads to. -/
theorem LeadsTo.follow_below (h : t.LeadsTo d place) (hname : Path.Kept name) :
    t.follow (t.start (d.below name).text) ((d.below name).text.split '/') = t.step place name := by
  have hbelow := h.tidy.below hname
  have hne : (d.below name).names ≠ [] := List.concat_ne_nil _ _
  have hbase : t.base (d.below name) = t.base d := rfl
  rw [start_tidy t hbelow, hbelow.split_text hne, Path.way_below, hbase, follow_snoc, h.follow]
  rfl

/-- A path below a directory can be put to the system exactly if the name can. -/
theorem LeadsTo.storable_below (h : t.LeadsTo d place) :
    (d.below name).text.Storable ↔ name.Storable := by
  have hroot : (d.below name).root.Storable := h.tidy.storable_root
  rw [Path.storable_text hroot, Path.below, List.forall_mem_append, and_iff_right h.storable]
  simp only [List.mem_singleton, forall_eq]

theorem text_below_ne_nil (hd : d.Tidy) (hname : Path.Kept name) : (d.below name).text ≠ [] := by
  intro hnil
  have hsplit : [] ++ [[]] = d.way ++ [name] := by
    rw [← Path.way_below, ← (hd.below hname).split_text (List.concat_ne_nil _ _), hnil]
    rfl
  exact hname.1 (List.append_singleton_inj.mp hsplit).2.symm

/-- Under a name that can be looked up there is what there is at its place. -/
theorem LeadsTo.find_below (h : t.LeadsTo d place) (hname : IsName name) (hfits : d.Fits name) :
    t.find (d.below name).text
      = match t.entryAt? (place ++ [FileName.bytes name]) with
        | some e => .ok (place ++ [FileName.bytes name], e)
        | none => .error (.refused .missing (d.below name).text) := by
  have hkept := Path.kept_of_isName hname
  rw [find_storable (h.storable_below.mpr hname.storable),
    if_neg (text_below_ne_nil h.tidy hkept), if_neg (by simp [hfits.near]), h.follow_below hkept,
    step_name h.directory hname, if_neg (by simp [hfits.short])]
  rcases he : t.entryAt? (place ++ [FileName.bytes name]) with _ | e
  · rfl
  · simp only [Option.isNone_some, Bool.false_eq_true, if_false, he]

theorem LeadsTo.holds_below (h : t.LeadsTo d place) (hname : IsName name) (hfits : d.Fits name) :
    t.holds (d.below name).text = .ok (t.entryAt? (place ++ [FileName.bytes name])).isSome := by
  rw [holds, ask, h.find_below hname hfits]
  rcases t.entryAt? (place ++ [FileName.bytes name]) with _ | e <;> rfl

/-- A name that is too long by itself or in its path is refused for that. -/
theorem LeadsTo.find_too_long (h : t.LeadsTo d place) (hname : IsName name)
    (hlong : ¬ d.Fits name) :
    t.find (d.below name).text = .error (.refused .nameTooLong (d.below name).text) := by
  have hkept := Path.kept_of_isName hname
  rw [find_storable (h.storable_below.mpr hname.storable),
    if_neg (text_below_ne_nil h.tidy hkept)]
  by_cases hnear : exceeds pathLimit (d.below name).text = true
  · rw [if_pos hnear]
  · have hshort : exceeds nameLimit name = true := by
      by_contra hshort
      exact hlong ⟨by simpa using hshort, by simpa using hnear⟩
    rw [if_neg hnear, h.follow_below hkept, step_name h.directory hname, if_pos hshort]

/-- Where there is nothing under a name that can be looked up, a file can be written. -/
theorem LeadsTo.placeFor_below (h : t.LeadsTo d place) (hname : IsName name)
    (hfits : d.Fits name) (hfree : t.entryAt? (place ++ [FileName.bytes name]) = none) :
    t.placeFor (d.below name).text = .ok (place ++ [FileName.bytes name]) := by
  have hkept := Path.kept_of_isName hname
  have hbelow := h.tidy.below hkept
  -- The last name need not be there, those before it lead to the directory.
  have hsplit : namesOf (d.below name).text = (d.way, name) := by
    rw [namesOf, hbelow.split_text (List.concat_ne_nil _ _), Path.way_below, List.dropLast_concat,
      List.getLast?_concat]
    rfl
  have hstart : t.start (d.below name).text = t.base d := start_tidy t hbelow
  have hmissing := h.find_below hname hfits
  rw [hfree] at hmissing
  rw [placeFor, hmissing]
  simp only [hsplit, hstart, h.follow, if_neg (text_below_ne_nil h.tidy hkept), hname.ne_nil,
    hname.ne_dot, hname.ne_dots, or_self, if_false]

end FileTree

end LiteralSplice
