/-
What the service decides about a hand-off, whichever of its defects come together.

* **`Service.Decision`**: the answers to a hand-off, one for each first defect and one for none;
* **`Service.respond_decided`**: on the route that assembles, the service gives the answer that is
  decided, and on the route of an emitter the same answer or what the emitter writes.

Design notes: the conditions of the answers exclude each other and leave none out, so they say when
an answer is given and not only what it is then.  Messages are made of the texts of the hand-off, of
numbers and of constants, so they can always be sent.  The key of an emitter is a part of a path; a
path is text that has been decoded, so there are no surrogates in it.
-/
import LiteralSplice.Proofs.Sinks

namespace LiteralSplice

/-! ### Shapes and lengths -/

namespace Handoff

theorem not_nodup_of_repeats {lines before after : List Text} {line : Text}
    (hlines : lines = before ++ line :: after) (hline : line ∈ before) : ¬ lines.Nodup := by
  intro hdistinct
  rw [hlines] at hdistinct
  exact (List.nodup_append.mp hdistinct).2.2 _ hline _ List.mem_cons_self rfl

end Handoff

/-! ### Messages -/

namespace Text

theorem plain_ofInt (n : Int) : (ofInt n).Plain := by
  cases n with
  | ofNat n => exact Text.plain_ofNat n
  | negSucc n => exact Plain.append (plain_of_all (by decide)) (Text.plain_ofNat (n + 1))

theorem plain_hex (width n : Nat) : (hex width n).Plain := by
  rw [hex]
  induction width generalizing n with
  | zero => exact nofun
  | succ width ih =>
    have hall : ∀ d < 16, (hexDigit false d).isSurrogate = false := by decide
    exact (ih (n / 16)).append (Plain.cons (hall _ (Nat.mod_lt n (by omega))) nofun)

theorem plain_numbered (c : CodePoint) : (numbered c).Plain := by
  rw [numbered]
  split
  · exact Plain.append (plain_of_all (by decide)) (plain_hex _ _)
  · split
    · exact Plain.append (plain_of_all (by decide)) (plain_hex _ _)
    · exact Plain.append (plain_of_all (by decide)) (plain_hex _ _)

theorem plain_quotedOne (quote : CodePoint) {c : CodePoint} (hc : c.isSurrogate = false) :
    (quotedOne quote c).Plain := by
  rw [quotedOne]
  split
  · exact Plain.cons rfl (Plain.cons hc nofun)
  iterate 3
    split
    · exact plain_of_all (by decide)
  split
  · exact Plain.cons hc nofun
  · exact plain_numbered c

theorem Plain.quoted {t : Text} (h : t.Plain) : t.quoted.Plain := by
  have hquote : (quoteOf t).isSurrogate = false := by
    rw [quoteOf]
    split <;> rfl
  refine Plain.cons hquote (Plain.append ?_ (Plain.cons hquote nofun))
  intro x hx
  obtain ⟨c, hc, hx⟩ := List.mem_flatMap.mp hx
  exact plain_quotedOne _ (h c hc) x hx

end Text

theorem TooShort.message_eq (count : Nat) : (TooShort.mk count).message
    = "Instruction stream has " ++ Text.ofNat count
      ++ " line(s); at least 3 are required to hold the literal splice point at index 2." := by
  have hleast : Text.ofNat leastInstructions = "3" := by
    rw [Text.ofNat]
    rfl
  have hindex : Text.ofNat spliceIndex = "2" := by
    rw [Text.ofNat]
    rfl
  have htail : (" line(s); at least " : Text) ++ ("3" : Text)
      ++ " are required to hold the literal splice point at index " ++ ("2" : Text) ++ "."
      = " line(s); at least 3 are required to hold the literal splice point at index 2." := by
    decide +kernel
  rw [message, required, hleast, hindex, ← htail]
  simp only [List.append_assoc]

/-! ### Decisions -/

namespace Service

variable {c : Call} {h : Handoff Text} {limit : Int} {a : Answer}

/-- The answer to a hand-off with too many lines. -/
def sizeAnswer (size : Nat) (limit : Int) : Answer :=
  Answer.detail 413 (.string ("Unit has " ++ Text.ofNat size ++ " lines; the limit is "
    ++ Text.ofInt limit ++ "."))

/-- The answer to a hand-off with a literal that is declared again. -/
def repeatAnswer (source line : Text) : Answer :=
  Answer.detail 422 (.string ("Duplicate literal declaration in " ++ source ++ ": " ++ line.quoted))

/-- The answer to a hand-off with too few instructions. -/
def lengthAnswer (count : Nat) : Answer :=
  Answer.detail 422 (.string ("Instruction stream has " ++ Text.ofNat count
    ++ " line(s); at least 3 are required to hold the literal splice point at index 2."))

/-- The answer with the merged lines of a hand-off and where the literals went. -/
def linesAnswer (h : Handoff Text) : Answer :=
  Answer.json 200 (.object [("source_filename", .string h.source),
    ("lines", .array ((h.instructions.take 2 ++ h.literals ++ [[]]
      ++ h.instructions.drop 2).map .string)),
    ("literal_count", .int h.literals.length), ("separator_index", .int (2 + h.literals.length))])

/-- The answer that is due to a hand-off.  It is refused for its size, else for the first literal
that equals an earlier one, else for its length, and else assembled. -/
inductive Decision (limit : Int) (h : Handoff Text) : Answer → Prop
  | size (hsize : limit < (h.instructions.length + h.literals.length : Nat)) :
      Decision limit h (sizeAnswer (h.instructions.length + h.literals.length) limit)
  | repeated {before line after}
      (hsize : (h.instructions.length + h.literals.length : Nat) ≤ limit)
      (hliterals : h.literals = before ++ line :: after) (hbefore : before.Nodup)
      (hline : line ∈ before) : Decision limit h (repeatAnswer h.source line)
  | length (hsize : (h.instructions.length + h.literals.length : Nat) ≤ limit)
      (hdistinct : h.literals.Nodup) (hlength : h.instructions.length < 3) :
      Decision limit h (lengthAnswer h.instructions.length)
  | lines (hsize : (h.instructions.length + h.literals.length : Nat) ≤ limit)
      (hdistinct : h.literals.Nodup) (hlength : 3 ≤ h.instructions.length) :
      Decision limit h (linesAnswer h)

@[simp] theorem status_sizeAnswer (size : Nat) (limit : Int) :
    (sizeAnswer size limit).status = 413 := rfl

@[simp] theorem status_repeatAnswer (source line : Text) :
    (repeatAnswer source line).status = 422 := rfl

@[simp] theorem status_lengthAnswer (count : Nat) : (lengthAnswer count).status = 422 := rfl

@[simp] theorem status_linesAnswer (h : Handoff Text) : (linesAnswer h).status = 200 := rfl

theorem linesAnswer_eq {p : Program Text} (ha : h.assemble = .ok p) :
    linesAnswer h = Answer.json 200 (programValue p) := by
  rw [h.assemble_of_length (h.length_of_assemble ha)] at ha
  cases ha
  rfl

theorem plain_detail {status : Nat} {message : Text} (hmessage : message.Plain) :
    Text.Plain (Answer.detail status (.string message)).body := by
  have hkey : Text.Plain "detail" := Text.plain_of_all (by decide)
  have hmade : Json.MadeOf Text.Plain (fun _ => True) (.object [("detail", .string message)]) :=
    .object (List.nodup_singleton _) (List.forall_mem_singleton.mpr hkey)
      (List.forall_mem_singleton.mpr (.string hmessage))
  show Text.Plain (Json.object [("detail", .string message)]).compact
  exact hmade.plain_write (Text.plain_of_all (by decide)) 0

/-- What is said to be wrong is read back from an answer. -/
theorem detail_inj {status status' : Nat} {s t : Text}
    (heq : Answer.detail status (.string s) = Answer.detail status' (.string t)) : s = t := by
  have hread : ∀ u : Text, Json.read (Json.object [("detail", .string u)]).compact
      = .ok (.object [("detail", .string u)]) := by
    intro u
    have hmade : Json.MadeOf (fun _ => True) Json.Legible (.object [("detail", .string u)]) :=
      .object (List.nodup_singleton _) (List.forall_mem_singleton.mpr trivial)
        (List.forall_mem_singleton.mpr (.string trivial))
    have hflat : (Json.object [("detail", .string u)]).depth = 1 := rfl
    exact hmade.read_compact (Stack.le_levels (by omega))
  -- Answers with the same body are read as the same value.
  have hbody : (Json.object [("detail", .string s)]).compact
      = (Json.object [("detail", .string t)]).compact := congrArg Answer.body heq
  have hvalue := (hread s).symm.trans (hbody ▸ hread t)
  simp only [Except.ok.injEq, Json.object.injEq, List.cons.injEq, Prod.mk.injEq,
    Json.string.injEq] at hvalue
  exact hvalue.1.2

/-- The two refusals with the same status are told apart by their messages. -/
theorem lengthAnswer_ne (count : Nat) (source line : Text) :
    lengthAnswer count ≠ repeatAnswer source line := by
  intro heq
  -- One message begins with a capital I, the other with a capital D.
  have hhead := congrArg List.head? (detail_inj heq)
  exact absurd hhead nofun

theorem Decision.size_iff (hd : Decision limit h a) :
    a.status = 413 ↔ limit < (h.instructions.length + h.literals.length : Nat) := by
  cases hd with
  | size hsize => simp only [status_sizeAnswer, hsize]
  | repeated hsize => simp only [status_repeatAnswer]; omega
  | length hsize => simp only [status_lengthAnswer]; omega
  | lines hsize => simp only [status_linesAnswer]; omega

theorem Decision.repeated_iff (hd : Decision limit h a) :
    (∃ line, a = repeatAnswer h.source line) ↔
      (h.instructions.length + h.literals.length : Nat) ≤ limit ∧ ¬ h.literals.Nodup := by
  constructor
  · rintro ⟨line', heq⟩
    cases hd with
    | size hsize => cases congrArg Answer.status heq
    | repeated hsize hliterals hbefore hline =>
      exact ⟨hsize, Handoff.not_nodup_of_repeats hliterals hline⟩
    | length hsize hdistinct hlength => exact absurd heq (lengthAnswer_ne _ _ _)
    | lines hsize hdistinct hlength => cases congrArg Answer.status heq
  · rintro ⟨hfits, hrepeats⟩
    cases hd with
    | size hsize => omega
    | repeated => exact ⟨_, rfl⟩
    | length hsize hdistinct hlength => exact absurd hdistinct hrepeats
    | lines hsize hdistinct hlength => exact absurd hdistinct hrepeats

theorem Decision.length_iff (hd : Decision limit h a) :
    a = lengthAnswer h.instructions.length ↔
      (h.instructions.length + h.literals.length : Nat) ≤ limit ∧ h.literals.Nodup ∧
        h.instructions.length < 3 := by
  constructor
  · intro heq
    cases hd with
    | size hsize => cases congrArg Answer.status heq
    | repeated hsize hliterals hbefore hline => exact absurd heq.symm (lengthAnswer_ne _ _ _)
    | length hsize hdistinct hlength => exact ⟨hsize, hdistinct, hlength⟩
    | lines hsize hdistinct hlength => cases congrArg Answer.status heq
  · rintro ⟨hfits, hdistinct, hshort⟩
    cases hd with
    | size hsize => omega
    | repeated hsize hliterals hbefore hline =>
      exact absurd hdistinct (Handoff.not_nodup_of_repeats hliterals hline)
    | length => rfl
    | lines hsize hdistinct hlength => omega

theorem Decision.lines_iff (hd : Decision limit h a) :
    a.status = 200 ↔ (h.instructions.length + h.literals.length : Nat) ≤ limit ∧
      h.literals.Nodup ∧ 3 ≤ h.instructions.length := by
  constructor
  · intro hstatus
    cases hd with
    | lines hsize hdistinct hlength => exact ⟨hsize, hdistinct, hlength⟩
    | _ => cases hstatus
  · rintro ⟨hfits, hdistinct, hlong⟩
    cases hd with
    | size hsize => omega
    | repeated hsize hliterals hbefore hline =>
      exact absurd hdistinct (Handoff.not_nodup_of_repeats hliterals hline)
    | length hsize hdistinct hlength => omega
    | lines => rfl

theorem Decision.status_cases (hd : Decision limit h a) : a.status ∈ [413, 422, 200] := by
  cases hd <;> simp

/-- What is due to a hand-off without surrogates has bytes. -/
theorem Decision.plain (hd : Decision limit h a) (hplain : h.Plain) : Text.Plain a.body := by
  cases hd with
  | size =>
    refine plain_detail (Text.Plain.append (Text.Plain.append (Text.Plain.append
      (Text.Plain.append ?_ (Text.plain_ofNat _)) ?_) (Text.plain_ofInt _)) ?_)
    all_goals exact Text.plain_of_all (by decide)
  | repeated hsize hliterals hbefore hline =>
    have hmem : _ ∈ h.literals := hliterals ▸ List.mem_append_left _ hline
    refine plain_detail (Text.Plain.append (Text.Plain.append (Text.Plain.append ?_ hplain.source)
      ?_) (hplain.literals _ hmem).quoted)
    all_goals exact Text.plain_of_all (by decide)
  | length =>
    refine plain_detail (Text.Plain.append (Text.Plain.append ?_ (Text.plain_ofNat _)) ?_)
    all_goals exact Text.plain_of_all (by decide)
  | lines hsize hdistinct hlength =>
    have hassembled := h.assemble_of_length hlength
    rw [linesAnswer_eq hassembled]
    exact plain_compact_programValue (hplain.program hassembled)

/-- What the service makes of a hand-off is what is due to it. -/
theorem assemble_decided (limit : Int) (h : Handoff Text) :
    (∃ r, assemble limit h = .error r ∧ Decision limit h r.answer) ∨
      ∃ p, assemble limit h = .ok p ∧ h.assemble = .ok p ∧
        Decision limit h (Answer.json 200 (programValue p)) := by
  -- The checks are gone through in their order, each with what those before it have excluded.
  by_cases hsize : limit < (h.instructions.length + h.literals.length : Nat)
  · refine .inl ⟨.tooLarge (h.instructions.length + h.literals.length) limit, ?_, .size hsize⟩
    rw [assemble, if_pos hsize]
    rfl
  have hfits := Int.not_lt.mp hsize
  rcases hfirst : Handoff.firstRepeat? [] h.literals with _ | line
  · have hdistinct := (Handoff.firstRepeat?_eq_none.mp hfirst).1
    have hchecked := Handoff.checkRepeats_of_nodup hdistinct
    by_cases hlength : h.instructions.length < 3
    · have hanswer : (Refusal.tooShort ⟨h.instructions.length⟩).answer
          = lengthAnswer h.instructions.length := by
        rw [Refusal.answer, Refusal.message, TooShort.message_eq]
        rfl
      refine .inl ⟨.tooShort ⟨h.instructions.length⟩, ?_, hanswer ▸ .length hfits hdistinct hlength⟩
      rw [assemble, if_neg hsize, hchecked]
      simp only [Except.mapError, bind, Except.bind, Handoff.assemble_of_lt hlength]
    · have hlong := Nat.not_lt.mp hlength
      have ha := h.assemble_of_length hlong
      exact .inr ⟨_, assemble_accepted hdistinct ha hfits, ha,
        linesAnswer_eq ha ▸ .lines hfits hdistinct hlong⟩
  · obtain ⟨before, after, hliterals, hbefore, -, hline⟩ :=
      Handoff.firstRepeat?_eq_some.mp hfirst
    refine .inl ⟨.misshapen (.repeated h.source line), ?_, .repeated hfits hliterals hbefore
      (hline.resolve_right List.not_mem_nil)⟩
    rw [assemble, if_neg hsize, Handoff.checkRepeats, hfirst]
    rfl

/-! ### Routes -/

section

variable [Stack]

/-- A call brings a hand-off: its method is the one for that, and the value of its body states the
hand-off. -/
structure Brings (c : Call) (h : Handoff Text) : Prop where
  method : c.method = "POST"
  body : ∃ v, Body.read c = .ok v ∧ Body.States v h

omit [Stack] in
theorem ofPath?_assemble : Route.ofPath? "/assemble" = some .assemble := by decide +kernel

omit [Stack] in
/-- A path below the one that assembles is that of an emitter. -/
theorem ofPath?_emit {key : Text} (hkey : key ≠ []) (hslash : CodePoint.ofChar '/' ∉ key) :
    Route.ofPath? ("/assemble/" ++ key) = some (.emit key) := by
  -- Such a path stays below it when a line feed is taken off its end.
  obtain ⟨rest, hrest⟩ : ∃ rest,
      Route.withoutFeed ("/assemble/" ++ key) = "/assemble/" ++ rest := by
    rw [Route.withoutFeed]
    split
    · exact ⟨key.dropLast, List.dropLast_append_of_ne_nil hkey⟩
    · exact ⟨key, rfl⟩
  have hne : ∀ path : Text, path.take 10 ≠ "/assemble/" → ("/assemble/" : Text) ++ rest ≠ path := by
    intro path hpath heq
    rw [← heq] at hpath
    exact hpath (List.take_left' rfl)
  have hstem : ("/assemble/" : Text).isPrefixOf ("/assemble/" ++ key) = true :=
    List.isPrefixOf_iff_prefix.mpr (List.prefix_append _ _)
  have hdrop : (("/assemble/" : Text) ++ key).drop ("/assemble/" : Text).length = key :=
    List.drop_left
  have hsegment : ¬ key.contains (CodePoint.ofChar '/') = true := by
    rwa [List.contains_iff_mem]
  simp only [Route.ofPath?, hrest, if_neg (hne "/health" (by decide)),
    if_neg (hne "/emitters" (by decide)), if_neg (hne "/assemble" (by decide)), hdrop]
  exact if_pos ⟨hstem, hkey, hsegment⟩

theorem handoff_brought (hbrings : Brings c h) : handoff c = .ok h := by
  obtain ⟨v, hread, hstates⟩ := hbrings.body
  show (Body.read c >>= Body.handoff) = .ok h
  rw [hread]
  exact hstates.handoff

/-- What is answered on a route depends on the path of a call only for the route. -/
theorem prepare_at {path : Text} {route : Route} (hroute : Route.ofPath? path = some route)
    (hmethod : c.method = route.method) :
    prepare limit { c with path := path } = answer limit c route := by
  rw [prepare]
  simp only [hroute, hmethod, if_true]
  cases route <;> rfl

/-! ### Answers -/

/-- The route that assembles gives the answer that is due. -/
theorem respond_assemble_decided (hbrings : Brings c h) (hplain : h.Plain) (limit : Int) :
    ∃ a, respond limit { c with path := "/assemble" } = .ok a ∧ Decision limit h a ∧
      ((∃ r, assemble limit h = .error r ∧ a = r.answer) ∨
        ∃ p, assemble limit h = .ok p ∧ h.assemble = .ok p ∧
          a = Answer.json 200 (programValue p)) := by
  have hprepare : prepare limit { c with path := "/assemble" } = assembleAnswer limit h := by
    rw [prepare_at ofPath?_assemble hbrings.method, answer, handoff_brought hbrings]
  rcases assemble_decided limit h with ⟨r, hrefused, hd⟩ | ⟨p, hassembled, ha, hd⟩
  · refine ⟨r.answer, respond_of_prepare ?_ (hd.plain hplain), hd, .inl ⟨r, hrefused, rfl⟩⟩
    rw [hprepare, assembleAnswer, hrefused]
  · refine ⟨_, respond_of_prepare ?_ (hd.plain hplain), hd, .inr ⟨p, hassembled, ha, rfl⟩⟩
    rw [hprepare, assembleAnswer, hassembled]
    exact programAnswer_plain (hplain.program ha)

/-- The routes below are asked for an emitter first. -/
theorem respond_unknown (hbrings : Brings c h) {key : Text} (hkey : key ≠ [])
    (hslash : CodePoint.ofChar '/' ∉ key) (hplain : key.Plain)
    (hnone : ∀ e : Emitter, e.key ≠ key) (limit : Int) :
    respond limit { c with path := "/assemble/" ++ key } = .ok (unknownEmitter key) := by
  have hunknown : Emitter.ofKey? key = none := by
    refine List.find?_eq_none.mpr ?_
    intro e _ heq
    exact hnone e (eq_of_beq heq)
  have hprepare : prepare limit { c with path := "/assemble/" ++ key }
      = .ok (unknownEmitter key) := by
    rw [prepare_at (ofPath?_emit hkey hslash) hbrings.method, answer, handoff_brought hbrings]
    simp only [emitAnswer, hunknown]
  refine respond_of_prepare hprepare (plain_detail ?_)
  refine Text.Plain.append (Text.Plain.append (Text.Plain.append ?_ hplain) ?_) ?_
  all_goals exact Text.plain_of_all (by decide)

theorem prepare_emit (hbrings : Brings c h) (e : Emitter) (limit : Int) :
    prepare limit { c with path := "/assemble/" ++ e.key } = emitAnswer limit e.key h := by
  have hkey : e.key ≠ [] ∧ CodePoint.ofChar '/' ∉ e.key := by
    cases e <;> decide
  rw [prepare_at (ofPath?_emit hkey.1 hkey.2) hbrings.method, answer, handoff_brought hbrings]

/-- An answer gives what an emitter writes for a program, as a download. -/
structure Delivers (e : Emitter) (p : Program Text) (a : Answer) : Prop where
  status : a.status = 200
  rendering : e.render p.layout = .ok ⟨e.suffix, a.body, e.mediaType⟩
  contentType : a.contentType = contentType e.mediaType
  disposition : ∃ header, Disposition.header (downloadName p.source e.suffix) = .ok header ∧
    a.contentDisposition = some header

/-- A hand-off that is assembled is delivered by any emitter. -/
theorem respond_delivers {p : Program Text} (hbrings : Brings c h) (hplain : h.Plain) (e : Emitter)
    (hassembled : assemble limit h = .ok p) (ha : h.assemble = .ok p) :
    ∃ a, respond limit { c with path := "/assemble/" ++ e.key } = .ok a ∧ Delivers e p a := by
  have hp := hplain.program ha
  obtain ⟨header, hheader, hdownload⟩ := download_plain hp e
  have hrender := e.render_assembled ha
  have hprepare : prepare limit { c with path := "/assemble/" ++ e.key }
      = .ok ⟨200, contentType e.mediaType, some header, none, e.contentOf p⟩ := by
    rw [prepare_emit hbrings]
    simp only [emitAnswer, e.ofKey?_key, hassembled, hrender, hdownload]
  exact ⟨_, respond_of_prepare hprepare (Emitter.plain_contentOf hp e), rfl, hrender, rfl, header,
    hheader, rfl⟩

/-- The route of an emitter refuses what the route that assembles refuses, in the same words, and
delivers the program that the other answers with. -/
theorem respond_emit_decided (hbrings : Brings c h) (hplain : h.Plain) (hd : Decision limit h a)
    (houtcome : (∃ r, assemble limit h = .error r ∧ a = r.answer) ∨
      ∃ p, assemble limit h = .ok p ∧ h.assemble = .ok p ∧ a = Answer.json 200 (programValue p))
    (e : Emitter) :
    ∃ a', respond limit { c with path := "/assemble/" ++ e.key } = .ok a' ∧
      a'.status = a.status ∧ (a.status ≠ 200 → a' = a) ∧
      (a.status = 200 → ∃ p, h.assemble = .ok p ∧ a = Answer.json 200 (programValue p) ∧
        Delivers e p a') := by
  rcases houtcome with ⟨r, hrefused, rfl⟩ | ⟨p, hassembled, ha, rfl⟩
  · have hprepare : prepare limit { c with path := "/assemble/" ++ e.key } = .ok r.answer := by
      rw [prepare_emit hbrings]
      simp only [emitAnswer, e.ofKey?_key, hrefused]
    have hstatus : r.answer.status ≠ 200 := by
      show r.status ≠ 200
      cases r <;> simp [Refusal.status]
    exact ⟨r.answer, respond_of_prepare hprepare (hd.plain hplain), rfl, fun _ => rfl,
      fun heq => absurd heq hstatus⟩
  · obtain ⟨a', hrespond, hdelivers⟩ := respond_delivers hbrings hplain e hassembled ha
    exact ⟨a', hrespond, hdelivers.status, fun hne => absurd rfl hne,
      fun _ => ⟨p, ha, rfl, hdelivers⟩⟩

/-- **Every call that brings a hand-off is decided.**  Where it is posted to be assembled, the
answer is the one that is due, and each of the four kinds of answers is given exactly under its
condition.  Where it is posted for an emitter, it is not found exactly if there is no such emitter,
whatever the hand-off; else it is refused in the same words, or the program that would be answered
is delivered.  No answer says that the service has failed, and every answer can be sent. -/
theorem respond_decided (hbrings : Brings c h) (hplain : h.Plain) (limit : Int) :
    ∃ a, respond limit { c with path := "/assemble" } = .ok a ∧ a.status ≠ 500 ∧
      Decision limit h a ∧
      (a.status = 413 ↔ limit < (h.instructions.length + h.literals.length : Nat)) ∧
      ((∃ line, a = repeatAnswer h.source line) ↔
        (h.instructions.length + h.literals.length : Nat) ≤ limit ∧ ¬ h.literals.Nodup) ∧
      (a = lengthAnswer h.instructions.length ↔
        (h.instructions.length + h.literals.length : Nat) ≤ limit ∧ h.literals.Nodup ∧
          h.instructions.length < 3) ∧
      (a.status = 200 ↔ (h.instructions.length + h.literals.length : Nat) ≤ limit ∧
        h.literals.Nodup ∧ 3 ≤ h.instructions.length) ∧
      ∀ key : Text, key ≠ [] → CodePoint.ofChar '/' ∉ key → key.Plain →
        ∃ a', respond limit { c with path := "/assemble/" ++ key } = .ok a' ∧ a'.status ≠ 500 ∧
          (a'.status = 404 ↔ ∀ e : Emitter, e.key ≠ key) ∧
          (a'.status = 404 → a' = unknownEmitter key) ∧
          ∀ e : Emitter, e.key = key → a'.status = a.status ∧ (a.status ≠ 200 → a' = a) ∧
            (a.status = 200 → ∃ p, h.assemble = .ok p ∧ a = Answer.json 200 (programValue p) ∧
              Delivers e p a') := by
  obtain ⟨a, hrespond, hd, houtcome⟩ := respond_assemble_decided hbrings hplain limit
  have hstatus : a.status ≠ 500 ∧ a.status ≠ 404 := by
    have hcases := hd.status_cases
    simp only [List.mem_cons, List.not_mem_nil, or_false] at hcases
    omega
  refine ⟨a, hrespond, hstatus.1, hd, hd.size_iff, hd.repeated_iff, hd.length_iff, hd.lines_iff, ?_⟩
  intro key hkey hslash hsent
  by_cases hnone : ∀ e : Emitter, e.key ≠ key
  · refine ⟨_, respond_unknown hbrings hkey hslash hsent hnone limit, ?_, ?_, fun _ => rfl, ?_⟩
    · show (404 : Nat) ≠ 500
      omega
    · exact ⟨fun _ => hnone, fun _ => rfl⟩
    · intro e heq
      exact absurd heq (hnone e)
  · push Not at hnone
    obtain ⟨e, rfl⟩ := hnone
    obtain ⟨a', hrespond', hsame, hrefused, hdelivered⟩ :=
      respond_emit_decided hbrings hplain hd houtcome e
    refine ⟨a', hrespond', hsame ▸ hstatus.1, ?_, ?_, ?_⟩
    · constructor
      · intro heq
        exact absurd (hsame.symm.trans heq) hstatus.2
      · intro hall
        exact absurd rfl (hall e)
    · intro heq
      exact absurd (hsame.symm.trans heq) hstatus.2
    · -- No two emitters have the same key.
      intro e' heq
      obtain rfl : e' = e := Option.some.inj (e'.ofKey?_key.symm.trans (heq ▸ e.ofKey?_key))
      exact ⟨hsame, hrefused, hdelivered⟩

end

/-- A hand-off with one instruction and a literal that is declared twice. -/
def twiceHandoff : Handoff Text := ⟨["a"], ["x", "x"], "s"⟩

/-- A call with the hand-off for its body. -/
def twiceCall : Call :=
  ⟨"POST", "/assemble", some "application/json",
    (Json.object (twiceHandoff.members "source_filename")).compact.flatMap Utf8.bytesOf⟩

theorem twice_brings : Brings twiceCall twiceHandoff := by
  have hannounced : Body.isJson "application/json" = true := by decide +kernel
  have hsome : twiceCall.body ≠ [] := by decide +kernel
  have htext : Json.textOfBytes? twiceCall.body
      = some (Json.object (twiceHandoff.members "source_filename")).compact := by decide +kernel
  have hmade : Json.MadeOf (fun _ => True) Json.Legible
      (.object (twiceHandoff.members "source_filename")) := by
    have hkeys : ((twiceHandoff.members "source_filename").map Prod.fst).Nodup := by decide
    refine .object hkeys (fun _ _ => trivial) ?_
    refine List.forall_mem_cons.mpr ⟨.string trivial, List.forall_mem_cons.mpr ⟨?_, ?_⟩⟩
    · exact .strings fun _ _ => trivial
    · exact List.forall_mem_singleton.mpr (.strings fun _ _ => trivial)
  refine ⟨rfl, .object (twiceHandoff.members "source_filename"), ?_, rfl, .inl rfl, .inl rfl⟩
  have hread := hmade.read_compact (by decide)
  rw [Body.read, if_neg hsome, htext]
  simp only [twiceCall, Option.map_some, Option.getD_some, hannounced, if_true, hread]

/-- The literal is told before the instructions, on either route. -/
theorem respond_decided_twice :
    Brings twiceCall twiceHandoff ∧ twiceHandoff.Plain ∧
      respond 3 { twiceCall with path := "/assemble" } = .ok (repeatAnswer "s" "x") ∧
      respond 3 { twiceCall with path := "/assemble/" ++ "plain_text" }
        = .ok (repeatAnswer "s" "x") := by
  have hplain : twiceHandoff.Plain := by
    refine ⟨Text.plain_of_all (by decide), ?_, ?_⟩
    · exact List.forall_mem_singleton.mpr (Text.plain_of_all (by decide))
    · exact List.forall_mem_cons.mpr ⟨Text.plain_of_all (by decide),
        List.forall_mem_singleton.mpr (Text.plain_of_all (by decide))⟩
  obtain ⟨a, hrespond, -, hd, hsize, hrepeated, -, -, hemit⟩ :=
    respond_decided twice_brings hplain 3
  have ha : a = repeatAnswer "s" "x" := by
    cases hd with
    | size hsize => exact absurd hsize (by decide)
    | @repeated before line after hsize hliterals hbefore hline =>
      have hmem : line ∈ twiceHandoff.literals := hliterals ▸ List.mem_append_left _ hline
      obtain rfl : line = "x" := by simpa [twiceHandoff] using hmem
      rfl
    | length hsize hdistinct => exact absurd hdistinct (by decide)
    | lines hsize hdistinct => exact absurd hdistinct (by decide)
  obtain ⟨a', hrespond', -, -, -, hknown⟩ :=
    hemit "plain_text" (by decide) (by decide) (Text.plain_of_all (by decide))
  obtain ⟨-, hrefused, -⟩ := hknown .plainText rfl
  have ha' : a' = a := hrefused (by rw [ha]; exact nofun)
  exact ⟨twice_brings, hplain, ha ▸ hrespond, ha ▸ ha' ▸ hrespond'⟩

end Service

end LiteralSplice
