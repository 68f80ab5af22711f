/-
Hand-off documents as files.

* **`Document.unifyFeeds_append`**: line feeds may be made alike piece by piece, where no return
  is torn from its feed;
* **`Json.Encodes.unifyFeeds`**: a text whose line feeds are made alike encodes the same value;
* **`Json.mismatches_record`**: an object whose members fit their fields fits the record;
* **`Document.ofBytes_encodes`**: the document of a file is that of the value in it;
* **`Document.ofBytes_pair`**: the document that a file with instructions and literals holds.
-/
import LiteralSplice.Document
import LiteralSplice.Proofs.Encodings
import LiteralSplice.Proofs.JsonGrammar
import LiteralSplice.Proofs.Repetitions

namespace LiteralSplice

namespace Document

/-! ### Line feeds made alike -/

theorem unifyFeeds_cons {c : CodePoint} (hc : c ≠ CodePoint.ofChar '\r') (y : Text) :
    unifyFeeds (c :: y) = c :: unifyFeeds y := by
  rcases y with _ | ⟨d, y⟩ <;> simp only [unifyFeeds, if_neg hc]

theorem unifyFeeds_pair (y : Text) :
    unifyFeeds (CodePoint.ofChar '\r' :: CodePoint.ofChar '\n' :: y)
      = CodePoint.ofChar '\n' :: unifyFeeds y := by
  rw [unifyFeeds, if_pos rfl, if_pos rfl]

theorem unifyFeeds_return {y : Text} (hy : y.head? ≠ some (CodePoint.ofChar '\n')) :
    unifyFeeds (CodePoint.ofChar '\r' :: y) = CodePoint.ofChar '\n' :: unifyFeeds y := by
  rcases y with _ | ⟨d, y⟩
  · rfl
  · rw [unifyFeeds, if_pos rfl, if_neg fun hd => hy (congrArg some hd)]

/-- Line feeds are made alike piece by piece, unless a return is torn from the feed after it. -/
theorem unifyFeeds_append {x y : Text} (h : x.getLast? ≠ some (CodePoint.ofChar '\r') ∨
      y.head? ≠ some (CodePoint.ofChar '\n')) :
    unifyFeeds (x ++ y) = unifyFeeds x ++ unifyFeeds y := by
  fun_induction unifyFeeds x with
  | case1 => rfl
  | case2 =>
    rcases h with h | h
    · exact absurd rfl h
    · exact unifyFeeds_return h
  | case3 c hc => exact unifyFeeds_cons hc y
  | case4 rest ih =>
    refine (unifyFeeds_pair (rest ++ y)).trans (congrArg _ (ih ?_))
    refine h.imp_left fun hlast => ?_
    rcases rest with _ | ⟨e, rest⟩
    · exact nofun
    · exact hlast
  | case5 d rest hd ih =>
    refine (unifyFeeds_return ?_).trans (congrArg _ (ih h))
    exact fun hhead => hd (Option.some.inj hhead)
  | case6 c d rest hc ih => exact (unifyFeeds_cons hc (d :: rest ++ y)).trans (congrArg _ (ih h))

theorem unifyFeeds_append_cons {x y : Text} {c : CodePoint} (hc : c ≠ CodePoint.ofChar '\r')
    (hc' : c ≠ CodePoint.ofChar '\n') :
    unifyFeeds (x ++ c :: y) = unifyFeeds x ++ c :: unifyFeeds y := by
  have hhead : (c :: y).head? ≠ some (CodePoint.ofChar '\n') := fun h => hc' (Option.some.inj h)
  rw [unifyFeeds_append (Or.inr hhead), unifyFeeds_cons hc]

theorem unifyFeeds_of_not_mem {t : Text} (h : CodePoint.ofChar '\r' ∉ t) : unifyFeeds t = t := by
  induction t with
  | nil => rfl
  | cons c t ih =>
    rw [unifyFeeds_cons (List.ne_of_not_mem_cons h).symm, ih (List.not_mem_of_not_mem_cons h)]

theorem mem_unifyFeeds {t : Text} {c : CodePoint} (h : c ∈ unifyFeeds t) :
    c = CodePoint.ofChar '\n' ∨ c ∈ t := by
  fun_induction unifyFeeds t with
  | case1 => cases h
  | case2 => exact Or.inl (List.mem_singleton.mp h)
  | case3 d hd => exact Or.inr h
  | case4 rest ih =>
    rcases List.mem_cons.mp h with h | h
    · exact Or.inl h
    · exact (ih h).imp_right fun hmem => List.mem_cons_of_mem _ (List.mem_cons_of_mem _ hmem)
  | case5 d rest hd ih =>
    rcases List.mem_cons.mp h with h | h
    · exact Or.inl h
    · exact (ih h).imp_right (List.mem_cons_of_mem _)
  | case6 d e rest hd ih =>
    rcases List.mem_cons.mp h with h | h
    · exact Or.inr (h ▸ List.mem_cons_self)
    · exact (ih h).imp_right (List.mem_cons_of_mem _)

end Document

namespace Json

open Document (unifyFeeds)

theorem decisive?_eq_none {ms : List Mismatch} : decisive? ms = none ↔ ms = [] := by
  cases ms with
  | nil => exact ⟨fun _ => rfl, fun _ => rfl⟩
  | cons m rest => exact ⟨nofun, nofun⟩

theorem Spaces.unifyFeeds {w : Text} (hw : Spaces w) : Spaces (unifyFeeds w) := by
  intro c hc
  rcases Document.mem_unifyFeeds hc with rfl | hmem
  · rfl
  · exact hw c hmem

theorem Spells.closes {n : Nat} {s : Text} {v : Json} (h : Spells n s (.value v)) :
    s.getLast? ≠ some (CodePoint.ofChar '\r') := by
  cases h <;> simp only [← List.cons_append, ← List.append_assoc, List.getLast?_concat] <;> decide

theorem Spells.unifyFeeds_before {n : Nat} {s : Text} {p : Phrase} (h : Spells n s p)
    (w y : Text) :
    unifyFeeds (w ++ (s ++ y)) = unifyFeeds w ++ unifyFeeds (s ++ y) := by
  refine Document.unifyFeeds_append (Or.inr fun hhead => ?_)
  obtain ⟨c, r, rfl, hc⟩ := h.opens
  cases hhead
  exact absurd hc (by decide)

/-- A text spells the same with its line feeds made alike: there are returns in its blanks only,
and no blank stands next to another part. -/
theorem Spells.unifyFeeds {n : Nat} {s : Text} {p : Phrase} (h : Spells n s p) :
    Spells n (unifyFeeds s) p := by
  have hbefore : ∀ {n : Nat} {w r : Text} {q : Phrase}, Spells n r q →
      Document.unifyFeeds (w ++ r) = Document.unifyFeeds w ++ Document.unifyFeeds r := by
    intro n w r q hr
    have hsplit := hr.unifyFeeds_before w []
    rwa [List.append_nil] at hsplit
  induction h with
  | string h =>
    rw [Document.unifyFeeds_of_not_mem]
    · exact .string h
    · intro hmem
      rcases List.mem_cons.mp hmem with hquote | hmem
      · exact absurd hquote (by decide)
      rcases List.mem_append.mp hmem with hmem | hmem
      · exact h.control_not_mem (by decide) hmem
      · exact absurd (List.mem_singleton.mp hmem) (by decide)
  | noItems hw =>
    rw [Document.unifyFeeds_cons (by decide),
      Document.unifyFeeds_append_cons (by decide) (by decide)]
    exact .noItems hw.unifyFeeds
  | array hw h ih =>
    rw [Document.unifyFeeds_cons (by decide), h.unifyFeeds_before,
      Document.unifyFeeds_append_cons (by decide) (by decide)]
    exact .array hw.unifyFeeds ih
  | noMembers hw =>
    rw [Document.unifyFeeds_cons (by decide),
      Document.unifyFeeds_append_cons (by decide) (by decide)]
    exact .noMembers hw.unifyFeeds
  | object hw h ih =>
    rw [Document.unifyFeeds_cons (by decide), h.unifyFeeds_before,
      Document.unifyFeeds_append_cons (by decide) (by decide)]
    exact .object hw.unifyFeeds ih
  | lastItem h hw ih =>
    rw [Document.unifyFeeds_append (Or.inl h.closes)]
    exact .lastItem ih hw.unifyFeeds
  | item h hw hw' hr ih ihr =>
    rw [Document.unifyFeeds_append (Or.inl h.closes),
      Document.unifyFeeds_append_cons (by decide) (by decide), hbefore hr]
    exact .item ih hw.unifyFeeds hw'.unifyFeeds ihr
  | lastMember hk hw hw' h hw'' ihk ih =>
    rw [Document.unifyFeeds_append (Or.inl hk.closes),
      Document.unifyFeeds_append_cons (by decide) (by decide), h.unifyFeeds_before,
      Document.unifyFeeds_append (Or.inl h.closes)]
    exact .lastMember ihk hw.unifyFeeds hw'.unifyFeeds ih hw''.unifyFeeds
  | member hk hw hw' h hw'' hw₃ hr ihk ih ihr =>
    rw [Document.unifyFeeds_append (Or.inl hk.closes),
      Document.unifyFeeds_append_cons (by decide) (by decide), h.unifyFeeds_before,
      Document.unifyFeeds_append (Or.inl h.closes),
      Document.unifyFeeds_append_cons (by decide) (by decide), hbefore hr]
    exact .member ihk hw.unifyFeeds hw'.unifyFeeds ih hw''.unifyFeeds hw₃.unifyFeeds ihr

theorem Encodes.unifyFeeds [Stack] {t : Text} {v : Json} (h : Encodes t v) :
    Encodes (unifyFeeds t) v := by
  obtain ⟨w, s, w', hw, hs, hw', rfl⟩ := h
  refine ⟨Document.unifyFeeds w, Document.unifyFeeds s, Document.unifyFeeds w', hw.unifyFeeds,
    hs.unifyFeeds, hw'.unifyFeeds, ?_⟩
  rw [hs.unifyFeeds_before, Document.unifyFeeds_append (Or.inl hs.closes)]

/-! ### The schema -/

theorem mismatches_exactly (n : Int) : Schema.mismatches (.exactly n) (.int n) = [] := by
  rw [Schema.mismatches, if_pos rfl]

theorem mismatches_integer {least n : Int} (h : least ≤ n) :
    Schema.mismatches (.integer least) (.int n) = [] := by
  rw [Schema.mismatches, if_neg (Int.not_lt.mpr h)]

theorem lookup_of_mem {α : Type} {entries : List (Text × α)}
    (hdistinct : (entries.map Prod.fst).Nodup) {e : Text × α} (he : e ∈ entries) :
    entries.lookup e.1 = some e.2 := by
  induction entries with
  | nil => cases he
  | cons first rest ih =>
    rw [List.map_cons, List.nodup_cons] at hdistinct
    rw [List.lookup_cons]
    rcases List.mem_cons.mp he with rfl | he
    · rw [beq_self_eq_true]
    · have hne : (e.1 == first.1) = false := by
        rw [beq_eq_false_iff_ne]
        intro hsame
        exact hdistinct.1 (hsame ▸ List.mem_map_of_mem he)
      rw [hne]
      exact ih hdistinct.2 he

theorem lookup_of_not_mem {α : Type} {entries : List (Text × α)} {k : Text}
    (hk : k ∉ entries.map Prod.fst) : entries.lookup k = none := by
  rw [List.lookup_eq_none_iff]
  intro e he
  rw [bne_iff_ne]
  rintro rfl
  exact hk (List.mem_map_of_mem he)

/-- A look-up among some of the entries finds what a look-up among all of them does. -/
theorem lookup_of_subset {α : Type} {some all : List (Text × α)}
    (hdistinct : (all.map Prod.fst).Nodup) (hsub : some ⊆ all) {k : Text}
    (hk : k ∈ some.map Prod.fst) : some.lookup k = all.lookup k := by
  rcases hv : some.lookup k with _ | v
  · rw [List.lookup_eq_none_iff] at hv
    obtain ⟨e, he, rfl⟩ := List.mem_map.mp hk
    exact absurd (hv e he) (by simp)
  · obtain ⟨before, after, hsplit, -⟩ := List.lookup_eq_some_iff.mp hv
    have hmem : (k, v) ∈ all := hsub (by simp [hsplit])
    exact (lookup_of_mem hdistinct hmem).symm

/-- An object fits a record if it has what is required, and each of its members fits the schema of
the field with its name. -/
theorem mismatches_record {required : List Text} {fields : List (Text × Schema)}
    {ms : List (Text × Json)} (hdistinct : (fields.map Prod.fst).Nodup)
    (hrequired : required ⊆ ms.map Prod.fst)
    (hfit : ∀ m ∈ ms, ∃ s, fields.lookup m.1 = some s ∧ Schema.mismatches s m.2 = []) :
    Schema.mismatches (.record required fields) (.object ms) = [] := by
  have hmissing : (required.filter fun name => !(ms.map Prod.fst).contains name) = [] := by
    rw [List.filter_eq_nil_iff]
    intro name hname
    simpa using hrequired hname
  have hextra : ((ms.map Prod.fst).filter fun k => (fields.lookup k).isNone) = [] := by
    rw [List.filter_eq_nil_iff]
    intro k hk
    obtain ⟨m, hm, rfl⟩ := List.mem_map.mp hk
    obtain ⟨s, hs, -⟩ := hfit m hm
    simp [hs]
  have hmembers : ∀ those ⊆ fields, Schema.fieldMismatches those ms = [] := by
    intro those hthose
    induction those with
    | nil => rfl
    | cons f rest ih =>
      obtain ⟨hf, hrest⟩ := List.cons_subset.mp hthose
      rw [Schema.fieldMismatches, ih hrest, List.append_nil]
      rcases hv : ms.lookup f.1 with _ | v
      · rfl
      · -- The member is one of the object, and the field with its name is this one.
        obtain ⟨before, after, hms, -⟩ := List.lookup_eq_some_iff.mp hv
        have hmem : (f.1, v) ∈ ms := by simp [hms]
        obtain ⟨s, hs, hnone⟩ := hfit _ hmem
        rw [lookup_of_mem hdistinct hf] at hs
        cases hs
        simp only [hnone, List.map_nil]
  rw [Schema.mismatches]
  simp only [hmissing, hextra, hmembers fields (List.Subset.refl fields), List.map_nil,
    List.isEmpty_nil, if_true, List.append_nil]

theorem mismatches_lines {least : Nat} (distinct : Bool) {lines : List Text}
    (h : least ≤ lines.length) :
    Schema.mismatches (.list .string least distinct) (.array (lines.map .string))
      = if distinct && hasRepetition (lines.map .string)
        then [⟨[], .repeated (.array (lines.map .string))⟩] else [] := by
  have hitems : ∀ f : Json × Nat → List Mismatch, (∀ line i, f (.string line, i) = []) →
      (lines.map Json.string).zipIdx.flatMap f = [] := by
    intro f hf
    refine List.flatMap_eq_nil_iff.mpr ?_
    rintro ⟨w, i⟩ hmem
    obtain ⟨line, -, rfl⟩ := List.mem_map.mp (List.fst_mem_of_mem_zipIdx hmem)
    exact hf line i
  rw [Schema.mismatches, hitems _ fun _ _ => rfl, List.length_map, if_neg (Nat.not_lt.mpr h)]
  rfl

theorem texts_map_string (lines : List Text) : texts (.array (lines.map .string)) = lines := by
  rw [texts, List.filterMap_map]
  exact List.filterMap_some

end Json

namespace Document

/-- The members of a document with instructions and literals. -/
def pairMembers (instructions literals : List Text) : List (Text × Json) :=
  [("instructions", .array (instructions.map .string)), ("literals", .array (literals.map .string))]

/-- A value is a document with instructions and literals, in either order. -/
def IsPair (instructions literals : List Text) (v : Json) : Prop :=
  v = .object (pairMembers instructions literals) ∨
    v = .object (pairMembers instructions literals).reverse

variable {instructions literals : List Text} {v : Json} {t : Text} {bytes : Bytes}

theorem mismatches_pair (h : IsPair instructions literals v) :
    schema.mismatches v = if Json.hasRepetition (literals.map .string)
      then [⟨[.key "literals"], .repeated (.array (literals.map .string))⟩] else [] := by
  have hlines := Json.mismatches_lines false (Nat.zero_le instructions.length)
  have hpool := Json.mismatches_lines true (Nat.zero_le literals.length)
  -- The fields are looked up by name, so their order makes no difference.
  have hfields : ∀ ms : List (Text × Json), ms.lookup ("source" : Text) = none →
      ms.lookup ("instructions" : Text) = some (Json.array (instructions.map .string)) →
      ms.lookup ("literals" : Text) = some (Json.array (literals.map .string)) →
      Json.Schema.fieldMismatches [("source", .string), ("instructions", .list .string 0 false),
        ("literals", .list .string 0 true)] ms
        = if Json.hasRepetition (literals.map .string)
          then [⟨[.key "literals"], .repeated (.array (literals.map .string))⟩] else [] := by
    intro ms hsource hinstructions hliterals
    simp only [Json.Schema.fieldMismatches, hsource, hinstructions, hliterals, hlines, hpool,
      Bool.false_and, Bool.true_and, List.append_nil, List.nil_append, Bool.false_eq_true, if_false,
      List.map_nil]
    split <;> rfl
  rcases h with rfl | rfl
  · exact hfields (pairMembers instructions literals) rfl rfl rfl
  · exact hfields (pairMembers instructions literals).reverse rfl rfl rfl

theorem members_pair (h : IsPair instructions literals v) :
    members v = ⟨instructions, some literals, none⟩ := by
  have hmembers : ∀ {v : Json}, v.find? "instructions" = some (.array (instructions.map .string)) →
      v.find? "literals" = some (.array (literals.map .string)) → v.find? "source" = none →
      members v = ⟨instructions, some literals, none⟩ := by
    intro v hinstructions hliterals hsource
    rw [members, hinstructions, hliterals, hsource, Option.map_some, Option.map_some,
      Json.texts_map_string, Json.texts_map_string]
    rfl
  rcases h with rfl | rfl
  · exact hmembers rfl rfl rfl
  · exact hmembers rfl rfl rfl

theorem depth_pair (h : IsPair instructions literals v) : v.depth = 2 := by
  rcases h with rfl | rfl
  · simp [pairMembers, Json.depth, Json.membersDepth]
  · simp [pairMembers, Json.depth, Json.membersDepth]

variable [Stack]

theorem refusal_cases (v : Json) (m : Json.Mismatch) :
    refusal v m = .mismatch m ∨
      ∃ message, Stack.strain v = some message ∧ refusal v m = .strained message := by
  rw [refusal]
  rcases Stack.strain v with _ | message
  · exact .inl rfl
  · exact .inr ⟨message, rfl, rfl⟩

theorem refusal_of_depth_le (h : v.depth ≤ 100) (m : Json.Mismatch) :
    refusal v m = .mismatch m := by
  rw [refusal, Stack.strain_of_depth_le v h]

/-- The document of a file is that of the value which its text encodes: the text is read with its
line feeds made alike, and encodes the same value with them. -/
theorem ofBytes_encodes (hbytes : Utf8.encode t = .ok bytes) (ht : Json.Encodes t v) :
    ofBytes bytes = (ofJson v).mapError (refusal v) := by
  rw [ofBytes, Utf8.decode_encode hbytes]
  simp only [bind, Except.bind, Except.mapError, ht.unifyFeeds.readDocument_eq]

/-- A file with instructions and literals is refused exactly if a literal is repeated. -/
theorem ofBytes_pair (hbytes : Utf8.encode t = .ok bytes) (ht : Json.Encodes t v)
    (hv : IsPair instructions literals v) :
    (literals.Nodup → ofBytes bytes = .ok ⟨instructions, some literals, none⟩) ∧
      (¬ literals.Nodup → ∃ m, ofBytes bytes = .error (.mismatch m)) := by
  have hmismatches := mismatches_pair hv
  rw [ofBytes_encodes hbytes ht, ofJson, hmismatches]
  refine ⟨fun hnodup => ?_, fun hrepeats => ?_⟩
  · have hnone : ¬ Json.hasRepetition (literals.map .string) = true :=
      fun h => (Json.hasRepetition_map_string literals).mp h hnodup
    rw [if_neg hnone]
    exact congrArg (Except.mapError (refusal v) ∘ Except.ok) (members_pair hv)
  · rw [if_pos ((Json.hasRepetition_map_string literals).mpr hrepeats)]
    have hshallow : v.depth ≤ 100 := by rw [depth_pair hv]; decide
    exact ⟨_, congrArg Except.error (refusal_of_depth_le hshallow _)⟩

end Document

end LiteralSplice
