/-
Hand-offs stated as JSON objects.

* **`Handoff.StatedBy`**: the members of an object are the parts of a hand-off;
* **`Document.ofBytes_stated`**: a file whose object states a hand-off is a document of it;
* **`Json.textOfBytes?_encodes`**: JSON that arrives as UTF-8 is taken for UTF-8;
* **`Body.issues_eq_nil`**: nothing is wrong with a value exactly if its members are the parts of a
  hand-off;
* **`Service.handoff_posed`**: a call is read as the hand-off that it poses.

Design notes: a document and the body of a call are read by different readers, with different keys
for the source and different names for one that is not given.  Both are objects whose members are
looked up by name, so the two keys are a parameter of one predicate.
-/
import LiteralSplice.Proofs.Documents
import LiteralSplice.Proofs.Handoffs
import LiteralSplice.Service.Respond

namespace LiteralSplice

namespace Handoff

/-- The parts of a hand-off as members of an object, the source under a given key. -/
def members (key : Text) (h : Handoff Text) : List (Text × Json) :=
  [(key, .string h.source), ("instructions", .array (h.instructions.map .string)),
    ("literals", .array (h.literals.map .string))]

/-- The members of an object are the parts of a hand-off, in any order.  The source may be left out
where it is the one that stands in for it, and so may be the literals where there are none. -/
structure StatedBy (key unnamed : Text) (h : Handoff Text) (ms : List (Text × Json)) : Prop where
  parts : ms ⊆ h.members key
  instructions : ("instructions" : Text) ∈ ms.map Prod.fst
  literals : ("literals" : Text) ∈ ms.map Prod.fst ∨ h.literals = []
  source : key ∈ ms.map Prod.fst ∨ h.source = unnamed

variable {key unnamed : Text} {h : Handoff Text} {ms : List (Text × Json)}

/-- The parts of a hand-off state it. -/
theorem statedBy_members (key unnamed : Text) (h : Handoff Text) :
    h.StatedBy key unnamed (h.members key) := by
  refine ⟨List.Subset.refl _, ?_, Or.inl ?_, Or.inl ?_⟩
  · exact List.mem_cons_of_mem _ List.mem_cons_self
  · exact List.mem_cons_of_mem _ (List.mem_cons_of_mem _ List.mem_cons_self)
  · exact List.mem_cons_self

/-- A part of the hand-off is found under its key if there is a member with that key. -/
theorem StatedBy.lookup_part (hs : h.StatedBy key unnamed ms)
    (hkey : [key, "instructions", "literals"].Nodup) {part : Text × Json}
    (hpart : part ∈ h.members key) (hk : part.1 ∈ ms.map Prod.fst) :
    ms.lookup part.1 = some part.2 := by
  have hdistinct : ((h.members key).map Prod.fst).Nodup := hkey
  rw [Json.lookup_of_subset hdistinct hs.parts hk]
  exact Json.lookup_of_mem hdistinct hpart

theorem StatedBy.lookup_instructions (hs : h.StatedBy key unnamed ms)
    (hkey : [key, "instructions", "literals"].Nodup) :
    ms.lookup ("instructions" : Text) = some (.array (h.instructions.map .string)) :=
  hs.lookup_part hkey (List.mem_cons_of_mem _ List.mem_cons_self) hs.instructions

theorem StatedBy.lookup_literals (hs : h.StatedBy key unnamed ms)
    (hkey : [key, "instructions", "literals"].Nodup) :
    ms.lookup ("literals" : Text) = some (.array (h.literals.map .string)) ∨
      ms.lookup ("literals" : Text) = none ∧ h.literals = [] := by
  by_cases hk : ("literals" : Text) ∈ ms.map Prod.fst
  · exact Or.inl (hs.lookup_part hkey
      (List.mem_cons_of_mem _ (List.mem_cons_of_mem _ List.mem_cons_self)) hk)
  · exact Or.inr ⟨Json.lookup_of_not_mem hk, hs.literals.resolve_left hk⟩

theorem StatedBy.lookup_source (hs : h.StatedBy key unnamed ms)
    (hkey : [key, "instructions", "literals"].Nodup) :
    ms.lookup key = some (.string h.source) ∨ ms.lookup key = none ∧ h.source = unnamed := by
  by_cases hk : key ∈ ms.map Prod.fst
  · exact Or.inl (hs.lookup_part hkey List.mem_cons_self hk)
  · exact Or.inr ⟨Json.lookup_of_not_mem hk, hs.source.resolve_left hk⟩

/-- The hand-off comes back from the members that state it. -/
theorem StatedBy.eq (hs : h.StatedBy key unnamed ms)
    (hkey : [key, "instructions", "literals"].Nodup) :
    (⟨((ms.lookup ("instructions" : Text)).map Json.texts).getD [],
      ((ms.lookup ("literals" : Text)).map Json.texts).getD [],
      ((ms.lookup key).bind Json.text?).getD unnamed⟩ : Handoff Text) = h := by
  have hinstructions : ((ms.lookup ("instructions" : Text)).map Json.texts).getD []
      = h.instructions := by
    rw [hs.lookup_instructions hkey, Option.map_some, Json.texts_map_string]
    rfl
  have hliterals : ((ms.lookup ("literals" : Text)).map Json.texts).getD [] = h.literals := by
    rcases hs.lookup_literals hkey with hfound | ⟨hnone, hempty⟩
    · rw [hfound, Option.map_some, Json.texts_map_string]
      rfl
    · rw [hnone, hempty]
      rfl
  have hsource : ((ms.lookup key).bind Json.text?).getD unnamed = h.source := by
    rcases hs.lookup_source hkey with hfound | ⟨hnone, hempty⟩
    · rw [hfound]
      rfl
    · rw [hnone, hempty]
      rfl
  rw [hinstructions, hliterals, hsource]

end Handoff

variable {h : Handoff Text} {ms : List (Text × Json)} {t : Text} {bytes : Bytes}

/-! ### Documents -/

namespace Document

theorem mismatches_stated {fileName : Text} (hs : h.StatedBy "source" fileName ms)
    (hdistinct : h.literals.Nodup) : schema.mismatches (.object ms) = [] := by
  refine Json.mismatches_record (by decide) ?_ ?_
  · rw [List.cons_subset]
    exact ⟨hs.instructions, List.nil_subset _⟩
  · intro m hm
    have hpart := hs.parts hm
    simp only [Handoff.members, List.mem_cons, List.not_mem_nil, or_false] at hpart
    rcases hpart with rfl | rfl | rfl
    · exact ⟨_, rfl, rfl⟩
    · exact ⟨_, rfl, Json.mismatches_lines false (Nat.zero_le _)⟩
    · -- The schema forbids a literal that is repeated.
      have hnone : ¬ Json.hasRepetition (h.literals.map .string) = true :=
        fun hrepeats => (Json.hasRepetition_map_string h.literals).mp hrepeats hdistinct
      refine ⟨_, rfl, (Json.mismatches_lines true (Nat.zero_le _)).trans ?_⟩
      rw [Bool.true_and, if_neg hnone]

/-- A file whose object states a hand-off without repetitions is a document of that hand-off. -/
theorem ofBytes_stated [Stack] {fileName : Text} (hbytes : Utf8.encode t = .ok bytes)
    (ht : Json.Encodes t (.object ms)) (hs : h.StatedBy "source" fileName ms)
    (hdistinct : h.literals.Nodup) : ∃ d, ofBytes bytes = .ok d ∧ d.handoff fileName = h := by
  refine ⟨members (.object ms), ?_, ?_⟩
  · rw [ofBytes_encodes hbytes ht, ofJson, mismatches_stated hs hdistinct]
    rfl
  · exact hs.eq (by decide)

end Document

/-! ### Calls -/

namespace Json

theorem Encoding.detect_of_ascii {b : UInt8} {r : Bytes} (hb : b.toNat < 0x80) (hb0 : b ≠ 0)
    (hr : 0 ∉ r) : Encoding.detect (b :: r) = (.utf8, b :: r) := by
  have hmark : ∀ n : UInt8, 0x80 ≤ n.toNat → b ≠ n := by
    rintro n hn rfl
    omega
  have hunmarked : Encoding.unmarked (b :: r) = .utf8 := by
    rcases r with _ | ⟨c, _ | ⟨d, _ | ⟨e, r⟩⟩⟩
    · rfl
    · rw [unmarked, if_neg hb0, if_neg (List.ne_of_not_mem_cons hr).symm]
    · rfl
    · rw [unmarked, if_neg hb0, if_neg (List.ne_of_not_mem_cons hr).symm]
  rw [detect.eq_def]
  split
  · rename_i heq
    exact absurd (List.cons.inj heq).1 hb0
  · rename_i heq
    exact absurd (List.cons.inj heq).1 (hmark 0xFF (by decide))
  · rename_i heq
    exact absurd (List.cons.inj heq).1 (hmark 0xFE (by decide))
  · rename_i heq
    exact absurd (List.cons.inj heq).1 (hmark 0xFF (by decide))
  · rename_i heq
    exact absurd (List.cons.inj heq).1 (hmark 0xEF (by decide))
  · rw [hunmarked]

/-- JSON that arrives as UTF-8 is taken for UTF-8: it begins with an ASCII character, and there is
no zero in it. -/
theorem textOfBytes?_encodes [Stack] {v : Json} (hbytes : Utf8.encode t = .ok bytes)
    (ht : Encodes t v) : textOfBytes? bytes = some t := by
  have hdecode := Utf8.decodeWith_encode .allowed hbytes
  obtain ⟨-, rfl⟩ := Utf8.encode_ok.mp hbytes
  -- Blanks are the only control characters of JSON, and a zero is none of them.
  have hcontrol := ht.isSpace_of_control
  obtain ⟨c, r, rfl, hc⟩ := ht.opens
  -- The first character has one byte.
  have hsmall : c.val < 0x80 ∧ c.val ≠ 0 := by
    have hall : (openers.all fun x => decide (x.val < 0x80 ∧ x.val ≠ 0)) = true := by decide
    rcases hc with hspace | hopener
    · simp only [isSpace, Bool.or_eq_true, beq_iff_eq] at hspace
      rcases hspace with ((rfl | rfl) | rfl) | rfl <;> decide
    · exact of_decide_eq_true (List.all_eq_true.mp hall c hopener)
  have hfirst : Utf8.bytesOf c = [UInt8.ofNat c.val] := by
    simp only [Utf8.bytesOf, if_pos hsmall.1]
  have hbyte := Utf8.toNat_ofNat_of_lt (n := c.val) (by omega)
  have hzero : (0 : UInt8) ∉ r.flatMap Utf8.bytesOf := by
    intro hmem
    obtain ⟨x, hx, hmem⟩ := List.mem_flatMap.mp hmem
    have hx0 := Utf8.eq_zero_of_mem_bytesOf hmem
    have hspace := hcontrol x (List.mem_cons_of_mem c hx) (by rw [hx0]; decide)
    rw [hx0] at hspace
    exact absurd hspace (by decide)
  have hdetect : Encoding.detect ((c :: r).flatMap Utf8.bytesOf)
      = (.utf8, (c :: r).flatMap Utf8.bytesOf) := by
    rw [List.flatMap_cons, hfirst]
    refine Encoding.detect_of_ascii (by omega) ?_ hzero
    intro hb
    rw [hb] at hbyte
    exact hsmall.2 hbyte.symm
  rw [textOfBytes?, hdetect]
  simp only [hdecode]
  rfl

end Json

namespace Body

theorem read_encodes [Stack] {c : Call} {v : Json}
    (hannounced : (c.contentType.map isJson).getD false = true)
    (hbytes : Utf8.encode t = .ok c.body) (ht : Json.Encodes t v) : read c = .ok v := by
  have hsome : c.body ≠ [] := by
    intro hnil
    rw [hnil] at hbytes
    have hempty := Json.textOfBytes?_encodes hbytes ht
    obtain ⟨x, r, rfl, -⟩ := ht.opens
    exact absurd (Option.some.inj hempty) nofun
  rw [read, if_neg hsome, if_pos hannounced, Json.textOfBytes?_encodes hbytes ht]
  simp only [ht.read_eq]

variable {v : Json}

/-- The members of an object are the parts of a hand-off.  The literals may be left out where there
are none, and so may be the source where it is the one that stands in for it; other members do not
matter. -/
structure States (v : Json) (h : Handoff Text) : Prop where
  instructions : v.find? "instructions" = some (.array (h.instructions.map .string))
  literals : v.find? "literals" = some (.array (h.literals.map .string)) ∨
    v.find? "literals" = none ∧ h.literals = []
  source : v.find? "source_filename" = some (.string h.source) ∨
    v.find? "source_filename" = none ∧ h.source = unnamedSource

/-- Nothing is wrong with lines exactly if they are strings. -/
theorem lineIssues_eq_nil {name : Text} {index : Nat} {vs : List Json} :
    lineIssues name index vs = [] ↔ ∃ lines : List Text, vs = lines.map .string := by
  induction vs generalizing index with
  | nil => exact ⟨fun _ => ⟨[], rfl⟩, fun _ => rfl⟩
  | cons v rest ih =>
    cases v with
    | string line =>
      rw [lineIssues, ih]
      constructor
      · rintro ⟨lines, rfl⟩
        exact ⟨line :: lines, rfl⟩
      · rintro ⟨_ | ⟨line', lines⟩, heq⟩
        · cases heq
        · exact ⟨lines, (List.cons.inj heq).2⟩
    | _ =>
      constructor
      · intro hnil
        cases hnil
      · rintro ⟨_ | ⟨line', lines⟩, heq⟩ <;> cases heq

theorem listIssues_eq_nil {name : Text} :
    listIssues name v = [] ↔ ∃ lines : List Text, v = .array (lines.map .string) := by
  cases v with
  | array vs =>
    rw [listIssues, lineIssues_eq_nil]
    simp only [Json.array.injEq]
  | _ =>
    constructor
    · intro hnil
      cases hnil
    · rintro ⟨lines, heq⟩
      cases heq

/-- Nothing is wrong with a value exactly if it states a hand-off. -/
theorem issues_eq_nil : issues v = [] ↔ ∃ h, States v h := by
  cases v with
  | object ms =>
    rw [issues, List.append_eq_nil_iff, List.append_eq_nil_iff]
    constructor
    · rintro ⟨⟨hinstructions, hliterals⟩, hsource⟩
      obtain ⟨instructions, hinstructions⟩ : ∃ lines : List Text,
          (Json.object ms).find? "instructions" = some (.array (lines.map .string)) := by
        rcases hfound : (Json.object ms).find? "instructions" with _ | w
        · simp [hfound] at hinstructions
        · rw [hfound] at hinstructions
          exact (listIssues_eq_nil.mp hinstructions).imp fun _ heq => congrArg some heq
      obtain ⟨literals, hliterals⟩ : ∃ lines : List Text,
          (Json.object ms).find? "literals" = some (.array (lines.map .string)) ∨
            (Json.object ms).find? "literals" = none ∧ lines = [] := by
        rcases hfound : (Json.object ms).find? "literals" with _ | w
        · exact ⟨[], .inr ⟨rfl, rfl⟩⟩
        · rw [hfound] at hliterals
          exact (listIssues_eq_nil.mp hliterals).imp fun _ heq => .inl (congrArg some heq)
      obtain ⟨source, hsource⟩ : ∃ source : Text,
          (Json.object ms).find? "source_filename" = some (.string source) ∨
            (Json.object ms).find? "source_filename" = none ∧ source = unnamedSource := by
        rcases hfound : (Json.object ms).find? "source_filename" with _ | w
        · exact ⟨unnamedSource, .inr ⟨rfl, rfl⟩⟩
        · cases w with
          | string source => exact ⟨source, .inl rfl⟩
          | _ => simp [hfound] at hsource
      exact ⟨⟨instructions, literals, source⟩, hinstructions, hliterals, hsource⟩
    · rintro ⟨h, hinstructions, hliterals, hsource⟩
      have hnil : ∀ (name : Text) (lines : List Text),
          listIssues name (.array (lines.map .string)) = [] :=
        fun _ lines => listIssues_eq_nil.mpr ⟨lines, rfl⟩
      refine ⟨⟨?_, ?_⟩, ?_⟩
      · simp only [hinstructions, hnil]
      · rcases hliterals with hfound | ⟨hnone, -⟩
        · simp only [hfound, hnil]
        · simp only [hnone]
      · rcases hsource with hfound | ⟨hnone, -⟩
        · simp only [hfound]
        · simp only [hnone]
  | _ =>
    constructor
    · intro hnil
      cases hnil
    · rintro ⟨h, hinstructions, -, -⟩
      cases hinstructions

theorem States.handoff (hs : States v h) : handoff v = .ok h := by
  have hliterals : ((v.find? "literals").map Json.texts).getD [] = h.literals := by
    rcases hs.literals with hfound | ⟨hnone, hempty⟩
    · rw [hfound, Option.map_some, Json.texts_map_string]
      rfl
    · rw [hnone, hempty]
      rfl
  have hsource : ((v.find? "source_filename").bind Json.text?).getD unnamedSource = h.source := by
    rcases hs.source with hfound | ⟨hnone, hempty⟩
    · rw [hfound]
      rfl
    · rw [hnone, hempty]
      rfl
  rw [Body.handoff, issues_eq_nil.mpr ⟨h, hs⟩]
  simp only [hliterals, hsource, hs.instructions, Option.map_some, Json.texts_map_string,
    Option.getD_some]

/-- An object that states a hand-off in the members that a call has is read as that hand-off. -/
theorem handoff_stated (hs : h.StatedBy "source_filename" unnamedSource ms) :
    handoff (.object ms) = .ok h := by
  have hkey : [("source_filename" : Text), "instructions", "literals"].Nodup := by decide
  have hstates : States (.object ms) h :=
    ⟨hs.lookup_instructions hkey, hs.lookup_literals hkey, hs.lookup_source hkey⟩
  exact hstates.handoff

end Body

namespace Service

/-- A call poses a hand-off on a route: its body is JSON in UTF-8, announced as JSON, and the object
in it states the hand-off. -/
structure Poses [Stack] (c : Call) (route : Route) (h : Handoff Text) : Prop where
  method : c.method = "POST"
  path : Route.ofPath? c.path = some route
  announced : (c.contentType.map Body.isJson).getD false = true
  body : ∃ t ms, Utf8.encode t = .ok c.body ∧ Json.Encodes t (.object ms) ∧
    h.StatedBy "source_filename" Body.unnamedSource ms

/-- A call is read as the hand-off that it poses. -/
theorem handoff_posed [Stack] {c : Call} {route : Route} (hposes : Poses c route h) :
    handoff c = .ok h := by
  obtain ⟨t, ms, hbytes, ht, hs⟩ := hposes.body
  rw [handoff, Body.read_encodes hposes.announced hbytes ht]
  exact Body.handoff_stated hs

end Service

end LiteralSplice
