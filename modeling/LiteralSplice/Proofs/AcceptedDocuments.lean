/-
The documents that are accepted.

* **`Json.mismatches_string_eq_nil`**, **`Json.mismatches_list_eq_nil`**,
  **`Json.mismatches_record_eq_nil`**: the values that fit a schema, kind by kind;
* **`Document.States`**: a value states a hand-off as a document;
* **`Document.mismatches_eq_nil`**: the schema accepts the values that state a hand-off and no
  other;
* **`FrontEnd.translate_document_exact`**: a document is handed off exactly if its value states a
  hand-off, and is refused by its schema, as far as the stack suffices to say why, if it states
  none.

Design notes: a document is looked at twice, by its schema and by the check of the shape that every
hand-off must have.  What is stated is put in terms of the members of the value, through neither of
the two, so that each of them can be compared with it.
-/
import LiteralSplice.Proofs.FrontEnds
import LiteralSplice.Proofs.Snapshots

namespace LiteralSplice

namespace Json

/-! ### The values that fit a schema -/

variable {v : Json}

theorem mismatches_string_eq_nil : Schema.mismatches .string v = [] ↔ ∃ s, v = .string s := by
  cases v with
  | string s => exact ⟨fun _ => ⟨s, rfl⟩, fun _ => rfl⟩
  | _ => exact ⟨nofun, fun ⟨_, h⟩ => nomatch h⟩

/-- Items that fit the schema of strings are strings. -/
theorem exists_map_string {vs : List Json} (h : ∀ v ∈ vs, Schema.mismatches .string v = []) :
    ∃ lines : List Text, vs = lines.map .string := by
  induction vs with
  | nil => exact ⟨[], rfl⟩
  | cons v vs ih =>
    obtain ⟨hv, hvs⟩ := List.forall_mem_cons.mp h
    obtain ⟨line, rfl⟩ := mismatches_string_eq_nil.mp hv
    obtain ⟨lines, rfl⟩ := ih hvs
    exact ⟨line :: lines, rfl⟩

/-- A value fits the schema of a list of strings exactly if it is one, long enough, and without
repetitions where they are forbidden. -/
theorem mismatches_list_eq_nil {least : Nat} {distinct : Bool} :
    Schema.mismatches (.list .string least distinct) v = [] ↔
      ∃ lines : List Text, v = .array (lines.map .string) ∧ least ≤ lines.length ∧
        (distinct = true → lines.Nodup) := by
  constructor
  · intro h
    cases v with
    | array vs =>
      rw [Schema.mismatches, List.append_eq_nil_iff, List.append_eq_nil_iff] at h
      obtain ⟨⟨hitems, hlength⟩, hrepeated⟩ := h
      obtain ⟨lines, rfl⟩ : ∃ lines : List Text, vs = lines.map .string := by
        refine exists_map_string fun w hw => ?_
        rw [← List.zipIdx_map_fst 0 vs] at hw
        obtain ⟨⟨w, i⟩, hi, rfl⟩ := List.mem_map.mp hw
        exact List.map_eq_nil_iff.mp (List.flatMap_eq_nil_iff.mp hitems (w, i) hi)
      refine ⟨lines, rfl, ?_, fun hdistinct => ?_⟩
      · by_contra hshort
        rw [List.length_map, if_pos (Nat.lt_of_not_le hshort)] at hlength
        cases hlength
      · by_contra hrepeats
        rw [hdistinct, Bool.true_and,
          if_pos ((hasRepetition_map_string lines).mpr hrepeats)] at hrepeated
        cases hrepeated
    | _ => cases h
  · rintro ⟨lines, rfl, hlength, hdistinct⟩
    rw [mismatches_lines distinct hlength, if_neg]
    intro hrepeats
    obtain ⟨hd, hr⟩ := Bool.and_eq_true_iff.mp hrepeats
    exact (hasRepetition_map_string lines).mp hr (hdistinct hd)

theorem fieldMismatches_eq_nil {fields : List (Text × Schema)} {ms : List (Text × Json)} :
    Schema.fieldMismatches fields ms = [] ↔
      ∀ f ∈ fields, ∀ w, ms.lookup f.1 = some w → Schema.mismatches f.2 w = [] := by
  induction fields with
  | nil => exact iff_of_true rfl fun f hf => absurd hf List.not_mem_nil
  | cons f rest ih =>
    rw [Schema.fieldMismatches, List.append_eq_nil_iff, ih, List.forall_mem_cons]
    refine and_congr_left' ?_
    rcases ms.lookup f.1 with _ | w
    · refine iff_of_true rfl ?_
      rintro w ⟨⟩
    · rw [List.map_eq_nil_iff]
      constructor
      · rintro h w' ⟨⟩
        exact h
      · exact fun h => h w rfl

/-- A value fits the schema of a record exactly if it is an object with the members that are
required and no others than the fields, each of them fitting its own. -/
theorem mismatches_record_eq_nil {required : List Text} {fields : List (Text × Schema)} :
    Schema.mismatches (.record required fields) v = [] ↔
      ∃ ms, v = .object ms ∧ required ⊆ ms.map Prod.fst ∧
        ms.map Prod.fst ⊆ fields.map Prod.fst ∧
        ∀ f ∈ fields, ∀ w, v.find? f.1 = some w → Schema.mismatches f.2 w = [] := by
  cases v with
  | object ms =>
    have hmissing : (required.filter fun name => !(ms.map Prod.fst).contains name) = [] ↔
        required ⊆ ms.map Prod.fst := by
      rw [List.filter_eq_nil_iff]
      simp only [Bool.not_eq_true', Bool.not_eq_false, List.contains_iff_mem]
      rfl
    have hextra : ((ms.map Prod.fst).filter fun k => (fields.lookup k).isNone) = [] ↔
        ms.map Prod.fst ⊆ fields.map Prod.fst := by
      rw [List.filter_eq_nil_iff]
      refine forall₂_congr fun k _ => ?_
      rw [Option.isNone_iff_eq_none, List.lookup_eq_none_iff]
      simp only [bne_iff_ne, ne_eq, not_forall, not_not, List.mem_map, exists_prop,
        eq_comm (a := k)]
    rw [Schema.mismatches]
    simp only [List.append_eq_nil_iff, List.map_eq_nil_iff, ite_eq_left_iff, List.isEmpty_iff,
      List.cons_ne_nil, imp_false, not_not, hmissing, hextra, fieldMismatches_eq_nil, find?,
      Json.object.injEq, exists_eq_left', and_assoc]
  | _ =>
    constructor
    · rintro ⟨⟩
    · rintro ⟨ms, ⟨⟩, -⟩

end Json

namespace Document

/-! ### The values that are documents -/

/-- A value states a hand-off: it is an object with no other members than the parts of one, a list
of strings for the instructions, one without repetitions for the literals, and a string for the
source.  Literals that are left out are none, and the name of the file stands in for a source that
is left out. -/
structure States (fileName : Text) (v : Json) (h : Handoff Text) : Prop where
  keys : ∃ ms, v = .object ms ∧ ms.map Prod.fst ⊆ ["source", "instructions", "literals"]
  instructions : v.find? "instructions" = some (.array (h.instructions.map .string))
  literals : v.find? "literals" = some (.array (h.literals.map .string)) ∨
    v.find? "literals" = none ∧ h.literals = []
  distinct : h.literals.Nodup
  source : v.find? "source" = some (.string h.source) ∨
    v.find? "source" = none ∧ h.source = fileName

variable {fileName : Text} {v : Json} {h : Handoff Text}

/-- The members of a value that states a hand-off are the parts of that hand-off. -/
theorem States.handoff_members (hs : States fileName v h) :
    (members v).handoff fileName = h := by
  have hliterals : ((v.find? "literals").map Json.texts).getD [] = h.literals := by
    rcases hs.literals with hfound | ⟨hnone, hempty⟩
    · rw [hfound, Option.map_some, Json.texts_map_string, Option.getD_some]
    · rw [hnone, hempty, Option.map_none, Option.getD_none]
  have hsource : ((v.find? "source").bind Json.text?).getD fileName = h.source := by
    rcases hs.source with hfound | ⟨hnone, hempty⟩
    · rw [hfound, Option.bind_some, Json.text?, Option.getD_some]
    · rw [hnone, hempty, Option.bind_none, Option.getD_none]
  rw [members, handoff, hliterals, hsource, hs.instructions, Option.map_some,
    Json.texts_map_string, Option.getD_some]

theorem find?_isSome {ms : List (Text × Json)} {k : Text} (hk : k ∈ ms.map Prod.fst) :
    ∃ w, (Json.object ms).find? k = some w := by
  rw [Json.find?]
  rcases hv : ms.lookup k with _ | w
  · obtain ⟨e, he, rfl⟩ := List.mem_map.mp hk
    exact absurd (List.lookup_eq_none_iff.mp hv e he) (by simp)
  · exact ⟨w, rfl⟩

/-- The schema accepts the values that state a hand-off and no other. -/
theorem mismatches_eq_nil : schema.mismatches v = [] ↔ ∃ h, States fileName v h := by
  rw [schema, Json.mismatches_record_eq_nil]
  simp only [List.forall_mem_cons, List.not_mem_nil, Json.mismatches_string_eq_nil,
    Json.mismatches_list_eq_nil, Nat.zero_le, true_and, and_true, Bool.false_eq_true,
    false_implies, implies_true, forall_const]
  constructor
  · rintro ⟨ms, rfl, hrequired, hkeys, hsource, hinstructions, hliterals⟩
    obtain ⟨w, hw⟩ := find?_isSome (hrequired List.mem_cons_self)
    obtain ⟨instructions, rfl⟩ := hinstructions w hw
    obtain ⟨literals, hliterals, hdistinct⟩ : ∃ lines : List Text,
        ((Json.object ms).find? "literals" = some (.array (lines.map .string)) ∨
          (Json.object ms).find? "literals" = none ∧ lines = []) ∧ lines.Nodup := by
      rcases hfound : (Json.object ms).find? "literals" with _ | w
      · exact ⟨[], .inr ⟨rfl, rfl⟩, List.nodup_nil⟩
      · obtain ⟨lines, rfl, hdistinct⟩ := hliterals w hfound
        exact ⟨lines, .inl rfl, hdistinct⟩
    obtain ⟨source, hsource⟩ : ∃ source : Text,
        (Json.object ms).find? "source" = some (.string source) ∨
          (Json.object ms).find? "source" = none ∧ source = fileName := by
      rcases hfound : (Json.object ms).find? "source" with _ | w
      · exact ⟨fileName, .inr ⟨rfl, rfl⟩⟩
      · obtain ⟨source, rfl⟩ := hsource w hfound
        exact ⟨source, .inl rfl⟩
    exact ⟨⟨instructions, literals, source⟩, ⟨ms, rfl, hkeys⟩, hw, hliterals, hdistinct, hsource⟩
  · rintro ⟨h, ⟨ms, rfl, hkeys⟩, hinstructions, hliterals, hdistinct, hsource⟩
    refine ⟨ms, rfl, ?_, hkeys, ?_, ?_, ?_⟩
    · rw [List.cons_subset]
      refine ⟨?_, List.nil_subset _⟩
      by_contra hnot
      rw [Json.find?, Json.lookup_of_not_mem hnot] at hinstructions
      cases hinstructions
    · intro w hw
      rcases hsource with hfound | ⟨hnone, -⟩
      · exact ⟨h.source, Option.some.inj (hw.symm.trans hfound)⟩
      · rw [hnone] at hw
        cases hw
    · intro w hw
      exact ⟨h.instructions, Option.some.inj (hw.symm.trans hinstructions)⟩
    · intro w hw
      rcases hliterals with hfound | ⟨hnone, -⟩
      · exact ⟨h.literals, Option.some.inj (hw.symm.trans hfound), hdistinct⟩
      · rw [hnone] at hw
        cases hw

/-- A value is a document exactly if it states a hand-off, which is then the one handed off. -/
theorem ofJson_handoff_iff :
    (∃ d, ofJson v = .ok d ∧ d.handoff fileName = h) ↔ States fileName v h := by
  rw [ofJson]
  constructor
  · rintro ⟨d, hd, rfl⟩
    rcases hmismatches : Json.decisive? (schema.mismatches v) with _ | m
    · rw [hmismatches] at hd
      obtain ⟨h, hs⟩ := mismatches_eq_nil.mp (Json.decisive?_eq_none.mp hmismatches)
      obtain rfl := Except.ok.inj hd
      rwa [hs.handoff_members]
    · rw [hmismatches] at hd
      cases hd
  · intro hs
    rw [Json.decisive?_eq_none.mpr (mismatches_eq_nil.mpr ⟨h, hs⟩)]
    exact ⟨_, rfl, hs.handoff_members⟩

theorem ofJson_eq_error (hnone : ∀ h, ¬ States fileName v h) : ∃ m, ofJson v = .error m := by
  rcases hv : ofJson v with m | d
  · exact ⟨m, rfl⟩
  · exact absurd (ofJson_handoff_iff.mp ⟨d, hv, rfl⟩) (hnone _)

end Document

namespace FrontEnd

/-! ### What comes of a document -/

section

variable [Stack] {t : FileTree} {path : Path} {bytes : Bytes} {text : Text} {v : Json}

/-- What comes of a document whose file holds a value is decided by the value. -/
theorem translate_of_value (hread : t.read path.text = .ok bytes)
    (htext : Utf8.decode bytes = .ok text)
    (hv : Json.readDocument (Document.unifyFeeds text) = .ok v) :
    translate t (.document path)
      = ((Document.ofJson v).mapError fun m => .undocumented path (Document.refusal v m)) >>=
          fun d => (d.handoff path.name).checkRepeats.mapError .misshapen := by
  have hbytes : Document.ofBytes bytes
      = (Document.ofJson v).mapError (Document.refusal v) := by
    rw [Document.ofBytes, htext]
    simp only [Except.mapError, bind, Except.bind, hv]
  rw [translate, Source.openAs]
  rcases hd : Document.ofJson v with m | d
  · rw [hd] at hbytes
    refine answer_of_fault ?_
    rw [Source.load, Document.load, hread]
    simp only [Except.mapError, bind, Except.bind, hbytes]
  · rw [hd] at hbytes
    exact answer_of_document hread hbytes

/-- **A document is accepted exactly if its value states a hand-off.**  The schema accepts the
same values, what it accepts passes the check of shapes, and what is handed off is what two lists
of lines with that source would give; every other value is refused by the schema, unless telling so
takes more of the stack than there is. -/
theorem translate_document_exact (hread : t.read path.text = .ok bytes)
    (htext : Utf8.decode bytes = .ok text)
    (hv : Json.readDocument (Document.unifyFeeds text) = .ok v) :
    (∀ h, translate t (.document path) = .ok h ↔ Document.States path.name v h) ∧
      (Document.schema.mismatches v = [] ↔ ∃ h, Document.States path.name v h) ∧
      (∀ h, Document.States path.name v h →
        translate t (.document path)
          = translate t (.lines h.instructions h.literals h.source)) ∧
      ((∀ h, ¬ Document.States path.name v h) →
        ∃ cause, translate t (.document path) = .error (.undocumented path cause) ∧
          ((∃ m, cause = .mismatch m) ∨
            ∃ message, Stack.strain v = some message ∧ cause = .strained message)) := by
  have htranslate := translate_of_value hread htext hv
  -- A hand-off that is stated has no literal twice, so nothing is left to be refused.
  have haccepted : ∀ h, Document.States path.name v h →
      translate t (.document path) = .ok h := by
    intro h hs
    obtain ⟨d, hd, hhandoff⟩ := Document.ofJson_handoff_iff.mpr hs
    rw [htranslate, hd]
    exact hhandoff ▸ (checkRepeats_cases _).1 (hhandoff ▸ hs.distinct)
  have hrefused : (∀ h, ¬ Document.States path.name v h) →
      ∃ m, translate t (.document path)
        = .error (.undocumented path (Document.refusal v m)) := by
    intro hnone
    obtain ⟨m, hm⟩ := Document.ofJson_eq_error hnone
    exact ⟨m, by rw [htranslate, hm]; rfl⟩
  refine ⟨fun h => ⟨fun hh => ?_, haccepted h⟩, Document.mismatches_eq_nil, fun h hs => ?_,
    fun hnone => ?_⟩
  · by_cases hstates : ∃ h', Document.States path.name v h'
    · obtain ⟨h', hs⟩ := hstates
      obtain rfl := Except.ok.inj (hh.symm.trans (haccepted h' hs))
      exact hs
    · obtain ⟨m, hm⟩ := hrefused (not_exists.mp hstates)
      rw [hm] at hh
      cases hh
  · rw [haccepted h hs, translate, Handoff.check_map_string]
    exact ((checkRepeats_cases h).1 hs.distinct).symm
  · obtain ⟨m, hm⟩ := hrefused hnone
    refine ⟨_, hm, ?_⟩
    rcases Document.refusal_cases v m with hmismatch | ⟨message, hstrain, hstrained⟩
    · exact .inl ⟨m, hmismatch⟩
    · exact .inr ⟨message, hstrain, hstrained⟩

end

/-- A document that gives an empty source and no literals. -/
def bareDocument : Text := "\x7b\"source\":\"\",\"instructions\":[\"a\",\"a\"]\x7d"

/-- A directory with that document. -/
def bareTree : FileTree :=
  ⟨[(.ofNames ["w"], .directory),
    (.ofNames ["w", "p.json"], .file (bareDocument.flatMap Utf8.bytesOf))], ["w"]⟩

theorem bareDocument_encodes : Json.Encodes bareDocument (.object [("source", .string []),
    ("instructions", .array [.string "a", .string "a"])]) := by
  have hnone : Json.Spaces [] := nofun
  have hname : ∀ {n} {s : Text}, s.all standsForItself = true →
      Json.Spells n _ (.value (.string s)) := fun h => .string (spellsText_self h)
  have hlines : ∀ {n}, Json.Spells (n + 1) _ (.value (.array [.string "a", .string "a"])) :=
    .array hnone (.item (hname (by decide)) hnone hnone (.lastItem (hname (by decide)) hnone))
  have hmembers : ∀ {n}, Json.Spells (n + 1) _ (.members [("source", .string []),
      ("instructions", .array [.string "a", .string "a"])]) :=
    .member (hname (by decide)) hnone hnone (hname (by decide)) hnone hnone
      (.lastMember (hname (by decide)) hnone hnone hlines hnone)
  exact ⟨[], _, [], hnone, .object hnone hmembers, hnone, by decide⟩

/-- An empty source is a source, instructions may be repeated, and there may be no literals. -/
theorem translate_document_exact_bare :
    bareTree.read (Path.ofText "p.json").text = .ok (bareDocument.flatMap Utf8.bytesOf) ∧
    Utf8.decode (bareDocument.flatMap Utf8.bytesOf) = .ok bareDocument ∧
    ∃ v, Json.readDocument (Document.unifyFeeds bareDocument) = .ok v ∧
      Document.States (Path.ofText "p.json").name v ⟨["a", "a"], [], []⟩ ∧
      translate bareTree (.document (Path.ofText "p.json")) = .ok ⟨["a", "a"], [], []⟩ := by
  have hread : bareTree.read (Path.ofText "p.json").text
      = .ok (bareDocument.flatMap Utf8.bytesOf) := rfl
  have htext : Utf8.decode (bareDocument.flatMap Utf8.bytesOf) = .ok bareDocument :=
    Utf8.decode_encode rfl
  have hv := bareDocument_encodes.unifyFeeds.readDocument_eq
  have hstates : Document.States (Path.ofText "p.json").name (.object [("source", .string []),
      ("instructions", .array [.string "a", .string "a"])]) ⟨["a", "a"], [], []⟩ :=
    ⟨⟨_, rfl, by decide⟩, rfl, .inr ⟨rfl, rfl⟩, List.nodup_nil, .inl rfl⟩
  exact ⟨hread, htext, _, hv, hstates,
    ((translate_document_exact hread htext hv).1 _).mpr hstates⟩

end FrontEnd

end LiteralSplice
