/-
What a list of formats selects, and what becomes of a run in the formats selected.

* **`Text.trim_eq_iff`**: what is left of a text when it is trimmed;
* **`FormatList.Lists`**: the keys that a list holds; `FormatList.fields` finds exactly these
  (`FormatList.lists_iff`);
* **`FormatList.Selection`**: what comes of a list, one constructor for each way;
* **`FormatList.parse_eq_iff`**: a list is read as its selection says;
* **`Batch.Makes`**: what a batch makes whose inputs all come through;
* **`Batch.run_selected`**: a run that ends well has made a file for every input, unless its list
  of formats is hollow;
* **`Batch.run_hollow`**: a run that ends well and has made nothing.

Design notes: a list that is absent or empty stands for the default, and a list of commas and blanks
does not: whether there is anything in a list is asked before the list is taken apart.
-/
import LiteralSplice.Proofs.Bystanders
import Mathlib.Data.List.DropRight

namespace LiteralSplice

/-! ### Trimmed texts -/

namespace Text

/-- A text without the blanks around it. -/
structure Trimmed (t key : Text) : Prop where
  around : ∃ before after, t = before ++ key ++ after ∧ before.isBlank = true ∧ after.isBlank = true
  first : ∀ hne : key ≠ [], (key.head hne).isBlank = false
  last : ∀ hne : key ≠ [], (key.getLast hne).isBlank = false

theorem trim_eq_rdropWhile (t : Text) :
    t.trim = (t.dropWhile CodePoint.isBlank).rdropWhile CodePoint.isBlank := rfl

theorem isBlank_iff {t : Text} : t.isBlank = true ↔ ∀ c ∈ t, c.isBlank = true := by
  rw [isBlank, List.all_eq_true]

/-- A text without blanks at its ends is trimmed already. -/
theorem Trimmed.trim_eq {t key : Text} (h : t.Trimmed key) : t.trim = key := by
  obtain ⟨⟨before, after, rfl, hbefore, hafter⟩, hfirst, hlast⟩ := h
  rw [isBlank_iff] at hbefore hafter
  rw [trim_eq_rdropWhile, List.append_assoc, List.dropWhile_append_of_pos hbefore]
  by_cases hkey : key = []
  · rw [hkey, List.nil_append, List.dropWhile_eq_nil_iff.mpr hafter, List.rdropWhile_nil]
  · obtain ⟨c, r, rfl⟩ := List.exists_cons_of_ne_nil hkey
    have hc : ¬ c.isBlank = true := Bool.eq_false_iff.mp (hfirst hkey)
    have hend : (c :: r).rdropWhile CodePoint.isBlank = c :: r :=
      List.rdropWhile_eq_self_iff.mpr fun hne => Bool.eq_false_iff.mp (hlast hne)
    have hafter' : ∀ x ∈ after.reverse, x.isBlank = true :=
      fun x hx => hafter x (List.mem_reverse.mp hx)
    rw [List.cons_append, List.dropWhile_cons_of_neg hc, ← List.cons_append, List.rdropWhile,
      List.reverse_append, List.dropWhile_append_of_pos hafter']
    exact hend

theorem trimmed_trim (t : Text) : t.Trimmed t.trim := by
  have hfront := List.takeWhile_append_dropWhile (p := CodePoint.isBlank) (l := t)
  generalize hu : t.dropWhile CodePoint.isBlank = u at hfront
  have hback : u.rdropWhile CodePoint.isBlank ++ u.rtakeWhile CodePoint.isBlank = u :=
    List.rdropWhile_append_rtakeWhile
  rw [trim_eq_rdropWhile, hu]
  refine ⟨⟨t.takeWhile CodePoint.isBlank, u.rtakeWhile CodePoint.isBlank, ?_, ?_, ?_⟩, ?_, ?_⟩
  · rw [List.append_assoc, hback, hfront]
  · exact isBlank_iff.mpr fun c => List.mem_takeWhile_imp
  · exact isBlank_iff.mpr fun c => List.mem_rtakeWhile_imp
  · -- Taking away at the end leaves the first code point, which is no blank.
    intro hne
    have hbegins := u.rdropWhile_prefix CodePoint.isBlank
    have hune : t.dropWhile CodePoint.isBlank ≠ [] := hu ▸ hbegins.ne_nil hne
    rw [hbegins.head hne]
    subst hu
    exact List.head_dropWhile_not CodePoint.isBlank hune
  · intro hne
    exact Bool.eq_false_iff.mpr (List.rdropWhile_last_not CodePoint.isBlank u hne)

/-- **Trimming takes away the blanks around a text**, all of them and nothing else. -/
theorem trim_eq_iff {t key : Text} : t.trim = key ↔ t.Trimmed key := by
  constructor
  · rintro rfl
    exact trimmed_trim t
  · exact Trimmed.trim_eq

theorem trim_eq_nil_iff {t : Text} : t.trim = [] ↔ t.isBlank = true := by
  rw [trim_eq_iff]
  constructor
  · rintro ⟨⟨before, after, rfl, hbefore, hafter⟩, -, -⟩
    rw [isBlank_iff] at hbefore hafter ⊢
    rw [List.append_nil]
    exact List.forall_mem_append.mpr ⟨hbefore, hafter⟩
  · intro hblank
    exact ⟨⟨t, [], by rw [List.append_nil, List.append_nil], hblank, rfl⟩, fun hne => absurd rfl hne,
      fun hne => absurd rfl hne⟩

end Text

/-! ### The keys in a list -/

namespace Emitter

/-- A key that an emitter has. -/
def Registered (key : Text) : Prop := ∃ e : Emitter, e.key = key

theorem ofKey?_eq_none_iff {key : Text} : ofKey? key = none ↔ ¬ Registered key := by
  rw [ofKey?, List.find?_eq_none, Registered, not_exists]
  refine forall_congr' fun e => ?_
  have hmem : e ∈ all := by cases e <;> decide
  simp only [hmem, true_imp_iff, beq_iff_eq]

theorem isNone_ofKey?_iff {key : Text} : (ofKey? key).isNone = true ↔ ¬ Registered key := by
  rw [Option.isNone_iff_eq_none, ofKey?_eq_none_iff]

end Emitter

namespace FormatList

variable {default formats key : Text} {asked : Option Text} {keys chosen : List Text}

/-- The keys that a list holds: its pieces between commas, without the blanks around them, where
anything is left. -/
def Lists (formats : Text) (keys : List Text) : Prop :=
  ∃ pieces trimmed : List Text, pieces ≠ [] ∧ (∀ piece ∈ pieces, CodePoint.ofChar ',' ∉ piece) ∧
    formats = Text.join "," pieces ∧ List.Forall₂ Text.Trimmed pieces trimmed ∧
    keys = trimmed.filter (· ≠ [])

theorem forall₂_trimmed_iff {pieces trimmed : List Text} :
    List.Forall₂ Text.Trimmed pieces trimmed ↔ trimmed = pieces.map Text.trim := by
  have htrimmed : Text.Trimmed = fun piece key => piece.trim = key := by
    funext piece key
    exact propext Text.trim_eq_iff.symm
  rw [htrimmed, ← List.forall₂_map_left_iff, List.forall₂_eq_eq_eq, eq_comm]

theorem fields_eq (formats : Text) :
    fields formats = ((formats.split ',').map Text.trim).filter (· ≠ []) := by
  refine List.filter_congr fun field _ => ?_
  cases field <;> rfl

/-- The fields of a list are exactly the keys that it holds. -/
theorem lists_iff : Lists formats keys ↔ keys = fields formats := by
  rw [fields_eq]
  constructor
  · rintro ⟨pieces, trimmed, hne, hnone, rfl, htrimmed, rfl⟩
    have hsplit : Text.split (CodePoint.ofChar ',') (Text.join "," pieces) = pieces :=
      Text.split_join hnone hne
    rw [forall₂_trimmed_iff.mp htrimmed, hsplit]
  · rintro rfl
    refine ⟨formats.split ',', _, ?_, fun piece => Text.not_mem_of_mem_split, ?_,
      forall₂_trimmed_iff.mpr rfl, rfl⟩
    · rw [Text.split_eq_splitOn]
      exact List.splitOn_ne_nil _ formats
    · exact (Text.join_split _ formats).symm

theorem lists_fields (formats : Text) : Lists formats (fields formats) := lists_iff.mpr rfl

/-- A list holds no key exactly if it is made of commas and blanks. -/
theorem fields_eq_nil_iff :
    fields formats = [] ↔ ∀ c ∈ formats, c = CodePoint.ofChar ',' ∨ c.isBlank = true := by
  have hpieces : fields formats = [] ↔
      ∀ piece ∈ formats.split (CodePoint.ofChar ','), ∀ c ∈ piece, c.isBlank = true := by
    rw [fields_eq, List.filter_eq_nil_iff, List.forall_mem_map]
    refine forall₂_congr fun piece _ => ?_
    rw [← Text.isBlank_iff, ← Text.trim_eq_nil_iff, decide_eq_true_eq, not_not]
  rw [hpieces]
  constructor
  · intro hblank c hc
    by_cases hcomma : c = CodePoint.ofChar ','
    · exact .inl hcomma
    · obtain ⟨piece, hpiece, hmem⟩ := (Text.mem_split hcomma).mpr hc
      exact .inr (hblank piece hpiece c hmem)
  · intro hall piece hpiece c hc
    have hcomma : c ≠ CodePoint.ofChar ',' := fun heq =>
      Text.not_mem_of_mem_split hpiece (heq ▸ hc)
    exact (hall c ((Text.mem_split hcomma).mp ⟨piece, hpiece, hc⟩)).resolve_left hcomma

/-! ### What comes of a list -/

/-- A list that is there and has nothing in it but commas and blanks. -/
def Hollow (asked : Option Text) : Prop :=
  ∃ formats, asked = some formats ∧ formats ≠ [] ∧
    ∀ c ∈ formats, c = CodePoint.ofChar ',' ∨ c.isBlank = true

/-- What comes of a list of formats. -/
inductive Selection (default : Text) (asked : Option Text) : Except Text (List Text) → Prop
  /-- The list is refused for the first of its keys that no emitter has. -/
  | refused {formats key : Text} {before after : List Text} (said : asked = some formats)
      (lists : Lists formats (before ++ key :: after))
      (known : ∀ k ∈ before, Emitter.Registered k) (unknown : ¬ Emitter.Registered key) :
      Selection default asked (.error ("Unknown format '" ++ key
        ++ "'. Available formats: json_listing, plain_text"))
  /-- The keys in the list are selected. -/
  | listed {formats : Text} {keys : List Text} (said : asked = some formats)
      (lists : Lists formats keys) (any : keys ≠ []) (known : ∀ k ∈ keys, Emitter.Registered k) :
      Selection default asked (.ok keys)
  /-- There is no list, and the default is selected. -/
  | unsaid (unsaid : asked = none ∨ asked = some []) : Selection default asked (.ok [default])
  /-- There is no key in the list, and nothing is selected. -/
  | hollow (hollow : Hollow asked) : Selection default asked (.ok [])

theorem Hollow.fields_eq (h : Hollow asked) :
    ∃ formats, asked = some formats ∧ formats ≠ [] ∧ fields formats = [] := by
  obtain ⟨formats, hsaid, hne, hall⟩ := h
  exact ⟨formats, hsaid, hne, fields_eq_nil_iff.mpr hall⟩

theorem parse_unsaid (h : asked = none ∨ asked = some []) : parse default asked = .ok [default] := by
  rcases h with rfl | rfl <;> rfl

theorem parse_said (hne : formats ≠ []) : parse default (some formats)
    = match (fields formats).find? fun key => (Emitter.ofKey? key).isNone with
      | some key => .error ⟨key⟩
      | none => .ok (fields formats) := by
  obtain ⟨c, r, rfl⟩ := List.exists_cons_of_ne_nil hne
  rfl

theorem ne_nil_of_fields (h : fields formats ≠ []) : formats ≠ [] := by
  rintro rfl
  exact h rfl

theorem find?_unknown_eq_none : (keys.find? fun key => (Emitter.ofKey? key).isNone) = none ↔
    ∀ k ∈ keys, Emitter.Registered k := by
  simp only [List.find?_eq_none, Emitter.isNone_ofKey?_iff, not_not]

theorem find?_unknown_eq_some :
    (keys.find? fun key => (Emitter.ofKey? key).isNone) = some key ↔
      ¬ Emitter.Registered key ∧ ∃ before after, keys = before ++ key :: after ∧
        ∀ k ∈ before, Emitter.Registered k := by
  simp only [List.find?_eq_some_iff_append, Emitter.isNone_ofKey?_iff, Bool.not_eq_true',
    Bool.eq_false_iff, ne_eq, not_not]

/-- What comes of a list is what its selection says. -/
theorem Selection.parse_eq {r : Except Text (List Text)} (h : Selection default asked r) :
    (parse default asked).mapError UnknownFormat.message = r := by
  cases h with
  | @refused formats key before after hsaid hlists hknown hunknown =>
    rw [lists_iff] at hlists
    have hne : fields formats ≠ [] := hlists ▸ List.append_ne_nil_of_right_ne_nil _
      (List.cons_ne_nil key after)
    have hfound := find?_unknown_eq_some.mpr ⟨hunknown, before, after, hlists.symm, hknown⟩
    rw [hsaid, parse_said (ne_nil_of_fields hne), hfound]
    show Except.error (UnknownFormat.message ⟨key⟩) = _
    have hkeys : ("'. Available formats: " : Text) ++ Emitter.keyList
        = "'. Available formats: json_listing, plain_text" := by decide
    rw [UnknownFormat.message, List.append_assoc, hkeys]
  | listed hsaid hlists hany hknown =>
    rw [lists_iff] at hlists
    subst hlists
    rw [hsaid, parse_said (ne_nil_of_fields hany), find?_unknown_eq_none.mpr hknown]
    rfl
  | unsaid hunsaid =>
    rw [parse_unsaid hunsaid]
    rfl
  | hollow hhollow =>
    obtain ⟨formats, hsaid, hne, hnil⟩ := hhollow.fields_eq
    rw [hsaid, parse_said hne, hnil]
    rfl

/-- Something comes of every list. -/
theorem exists_selection (default : Text) (asked : Option Text) :
    ∃ r, Selection default asked r := by
  by_cases hunsaid : asked = none ∨ asked = some []
  · exact ⟨_, .unsaid hunsaid⟩
  obtain ⟨hnone, hnil⟩ := not_or.mp hunsaid
  obtain ⟨formats, hsaid⟩ := Option.ne_none_iff_exists'.mp hnone
  have hne : formats ≠ [] := by
    rintro rfl
    exact hnil hsaid
  have hlists := lists_fields formats
  rcases hfound : (fields formats).find? fun key => (Emitter.ofKey? key).isNone with _ | key
  · by_cases hempty : fields formats = []
    · exact ⟨_, .hollow ⟨formats, hsaid, hne, fields_eq_nil_iff.mp hempty⟩⟩
    · exact ⟨_, .listed hsaid hlists hempty (find?_unknown_eq_none.mp hfound)⟩
  · obtain ⟨hunknown, before, after, hkeys, hknown⟩ := find?_unknown_eq_some.mp hfound
    exact ⟨_, .refused hsaid (hkeys ▸ hlists) hknown hunknown⟩

/-- A list is read as its selection says. -/
theorem parse_eq_iff {r : Except Text (List Text)} :
    (parse default asked).mapError UnknownFormat.message = r ↔ Selection default asked r := by
  refine ⟨?_, Selection.parse_eq⟩
  rintro rfl
  obtain ⟨r, hr⟩ := exists_selection default asked
  rwa [hr.parse_eq]

theorem selection_of_parse (h : parse default asked = .ok chosen) :
    Selection default asked (.ok chosen) := by
  rw [← parse_eq_iff, h]
  rfl

/-- What is selected has emitters if the default has one, and is nothing only if the list is
hollow. -/
theorem Selection.selected (h : Selection default asked (.ok chosen))
    (hdefault : Emitter.Registered default) :
    (∀ key ∈ chosen, Emitter.Registered key) ∧ (chosen = [] ↔ Hollow asked) := by
  cases h with
  | listed hsaid hlists hany hknown =>
    refine ⟨hknown, iff_of_false hany fun hhollow => ?_⟩
    obtain ⟨formats, hsaid', -, hnil⟩ := hhollow.fields_eq
    obtain rfl := Option.some.inj (hsaid.symm.trans hsaid')
    exact hany ((lists_iff.mp hlists).trans hnil)
  | unsaid hunsaid =>
    refine ⟨List.forall_mem_singleton.mpr hdefault, iff_of_false (List.cons_ne_nil _ _) ?_⟩
    rintro ⟨formats, hsaid, hne, -⟩
    rcases hunsaid with hunsaid | hunsaid
    · exact absurd (hunsaid.symm.trans hsaid) nofun
    · exact hne (Option.some.inj (hunsaid.symm.trans hsaid)).symm
  | hollow hhollow => exact ⟨List.forall_mem_nil _, iff_of_true rfl hhollow⟩

end FormatList

namespace Batch

variable {disk : Disk} {job : Job} {p q : Progress} {t t' : FileTree} {names : List Text}
  {made : List (List (Path × Bytes))}

/-! ### What a batch makes -/

/-- What a batch makes whose inputs all come through: each finds the tree with what has been made
for those before it, and for each format adds a new file with what its emitter makes of the program
of the input. -/
inductive Makes [Stack] (job : Job) :
    FileTree → List Text → List (List (Path × Bytes)) → FileTree → Prop
  | nil (t : FileTree) : Makes job t [] [] t
  | cons {t t' t'' : FileTree} {name : Text} {rest : List Text} {path : Path}
      {program : Program Text} {files : List (Path × Bytes)}
      {made : List (List (Path × Bytes))}
      (resolved : t.resolve (Path.ofText name) = .ok path)
      (read : (Input.read job t path).result = .ok program)
      (new : List.Forall₂ (NewFile (directoryOf job path) program) job.formats files)
      (adds : t.AddsUnder files t') (later : Makes job t' rest made t'') :
      Makes job t (name :: rest) (files :: made) t''

/-- As many files are made for an input as there are formats. -/
theorem Makes.length_eq [Stack] (h : Makes job t names made t') :
    ∀ files ∈ made, files.length = job.formats.length := by
  induction h with
  | nil => exact List.forall_mem_nil _
  | cons _ _ hnew _ _ ih => exact List.forall_mem_cons.mpr ⟨hnew.length_eq.symm, ih⟩

/-- All that a batch adds is what it makes for its inputs, one after the other. -/
theorem Makes.adds [Stack] (h : Makes job t names made t') : t.AddsUnder made.flatten t' := by
  induction h with
  | nil t => exact .refl t
  | cons _ _ _ hadds _ ih =>
    rw [List.flatten_cons, FileTree.AddsUnder, List.map_append]
    exact hadds.trans ih

/-- A batch that counts no failure makes files for every input. -/
theorem processAll_makes [Stack] (hsited : p.tree.Sited) (hplaced : Placed job p.tree)
    (hkept : job.toStdout = false) (h : processAll disk job p names = .ok q)
    (hcount : q.failures = p.failures) : ∃ made, Makes job p.tree names made q.tree := by
  induction names generalizing p with
  | nil =>
    cases h
    exact ⟨[], .nil q.tree⟩
  | cons name rest ih =>
    obtain ⟨path, p', hpath, hprocess, hrest⟩ := processAll_cons_ok.mp h
    obtain ⟨hp, hd⟩ := Found.absolute ⟨.refl p.tree, hsited, hplaced, name, hpath⟩
    have hgrows := (process_grows hp hd).1 p' hprocess
    have hsited' := hgrows.sited hsited
    have hplaced' := hplaced.of_grows hgrows
    -- Failures are never taken back, so there is none here and none later.
    have hlater := (tally_of_processAll hsited' hplaced' hrest).failures
    have hfirst : p'.failures = p.failures := by
      cases came_of_process hp hd hprocess with
      | through _ _ _ _ hsame => exact hsame
      | lost _ _ _ _ _ _ hcounted => omega
    obtain ⟨made, hmade⟩ := ih hsited' hplaced' hrest (hcount.trans hfirst.symm)
    have hthrough : Succeeds disk job p path p' := ⟨hprocess, hfirst⟩
    rcases hthrough.effect hp hd with ⟨hout, -⟩ | ⟨-, program, files, hread, hadds, hfiles, -⟩
    · exact absurd (hout.symm.trans hkept) nofun
    · exact ⟨files :: made, .cons hpath hread hfiles hadds hmade⟩

/-- A run that ends well has come to every input and counts no failure. -/
theorem run_status_zero [Stack] {settings : Settings} {request : Request}
    (h : (run disk settings t request).2 = .status 0) :
    ∃ job q, jobOf? settings t request = some job ∧
      processAll disk job (.start t) request.inputs = .ok q ∧ q.failures = 0 ∧
      (run disk settings t request).1.tree = q.tree := by
  have hended := run_ended disk settings t request
  generalize run disk settings t request = outcome at hended h ⊢
  cases hended with
  | refused => cases h
  | lost => cases h
  | died => cases h
  | finished job q hstarted hfinished =>
    refine ⟨job, q, hstarted, hfinished, ?_, (finish_spec job q).1.tree⟩
    by_contra hsome
    rw [if_neg hsome] at h
    cases h

/-- **What a list of formats selects is what the list holds.**  A list is refused for its first key
without an emitter; else its keys are selected, each as often as it is there, and where the list is
absent or empty the default is.  So nothing is selected exactly if the list is hollow.  A run that
keeps its programs and ends well has therefore made a file for every input, in each format
selected, or, where the list is hollow, none for any. -/
theorem run_selected [Stack] {settings : Settings}
    (hdefault : Emitter.Registered settings.defaultEmitter) :
    (∀ asked r, (FormatList.parse settings.defaultEmitter asked).mapError UnknownFormat.message = r
      ↔ FormatList.Selection settings.defaultEmitter asked r) ∧
    (∀ asked chosen, FormatList.parse settings.defaultEmitter asked = .ok chosen →
      (∀ key ∈ chosen, Emitter.Registered key) ∧ (chosen = [] ↔ FormatList.Hollow asked)) ∧
    ∀ (disk : Disk) (t : FileTree) (request : Request), t.Sited → request.toStdout = false →
      (run disk settings t request).2 = .status 0 →
      ∃ job made, jobOf? settings t request = some job ∧
        Makes job t request.inputs made (run disk settings t request).1.tree ∧
        t.AddsUnder made.flatten (run disk settings t request).1.tree ∧
        ∀ files ∈ made, files = [] ↔ FormatList.Hollow request.formats.text? := by
  have hchosen : ∀ asked chosen, FormatList.parse settings.defaultEmitter asked = .ok chosen →
      (∀ key ∈ chosen, Emitter.Registered key) ∧ (chosen = [] ↔ FormatList.Hollow asked) :=
    fun asked chosen h => (FormatList.selection_of_parse h).selected hdefault
  refine ⟨fun asked r => FormatList.parse_eq_iff, hchosen, ?_⟩
  intro disk t request hsited hkept hstatus
  obtain ⟨job, q, hstarted, hfinished, hnone, htree⟩ := run_status_zero hstatus
  obtain ⟨hparsed, -, hout⟩ := jobOf?_eq_some hstarted
  obtain ⟨made, hmade⟩ := processAll_makes (p := .start t) hsited (jobOf?_spec hstarted).1
    (hout.trans hkept) hfinished hnone
  refine ⟨job, made, hstarted, htree ▸ hmade, htree ▸ hmade.adds, fun files hfiles => ?_⟩
  rw [← (hchosen _ _ hparsed).2, ← List.length_eq_zero_iff, hmade.length_eq files hfiles,
    List.length_eq_zero_iff]

/-- A list with a key that is there twice, with blanks around it and with a piece that is blank. -/
def untidyFormats : Text := " plain_text,\t,json_listing\u3000,plain_text"

theorem run_selected_untidy :
    Emitter.Registered plainSettings.defaultEmitter ∧ twoDocuments.Sited ∧
      bothDocuments.toStdout = false ∧
      (run .sound plainSettings twoDocuments
        { bothDocuments with formats := .value untidyFormats }).2 = .status 0 ∧
      FormatList.Selection plainSettings.defaultEmitter (some untidyFormats)
        (.ok ["plain_text", "json_listing", "plain_text"]) ∧
      ∃ job made, Makes job twoDocuments bothDocuments.inputs made
          (run .sound plainSettings twoDocuments
            { bothDocuments with formats := .value untidyFormats }).1.tree ∧
        ∀ files ∈ made, files ≠ [] := by
  have hdefault : Emitter.Registered plainSettings.defaultEmitter := ⟨.plainText, rfl⟩
  have hsited : twoDocuments.Sited := by
    intro n hn
    rw [List.mem_singleton.mp hn]
    decide
  have hstatus : (run .sound plainSettings twoDocuments
      { bothDocuments with formats := .value untidyFormats }).2 = .status 0 := by
    decide +kernel
  obtain ⟨hselection, hchosen, hruns⟩ := run_selected hdefault
  have hparsed : FormatList.parse plainSettings.defaultEmitter (some untidyFormats)
      = .ok ["plain_text", "json_listing", "plain_text"] := by decide +kernel
  obtain ⟨job, made, -, hmade, -, hnone⟩ := hruns .sound twoDocuments
    { bothDocuments with formats := .value untidyFormats } hsited rfl hstatus
  have hheld : ¬ FormatList.Hollow (some untidyFormats) := by
    rw [← (hchosen _ _ hparsed).2]
    exact List.cons_ne_nil _ _
  exact ⟨hdefault, hsited, rfl, hstatus, (hselection _ _).mp (by rw [hparsed]; rfl), job, made, hmade,
    fun files hfiles hnil => hheld ((hnone files hfiles).mp hnil)⟩

/-- A run in the formats of a single comma selects nothing, ends well, and leaves the tree as it
was. -/
theorem run_hollow :
    Emitter.Registered plainSettings.defaultEmitter ∧
      FormatList.parse plainSettings.defaultEmitter (some ",") = .ok [] ∧
      (run .sound plainSettings twoDocuments { bothDocuments with formats := .value "," }).2
        = .status 0 ∧
      (run .sound plainSettings twoDocuments { bothDocuments with formats := .value "," }).1.tree
        = twoDocuments := by
  refine ⟨⟨.plainText, rfl⟩, rfl, by decide +kernel, FileTree.eq_of_entries ?_ ?_⟩
  · decide +kernel
  · decide +kernel

end Batch

end LiteralSplice
