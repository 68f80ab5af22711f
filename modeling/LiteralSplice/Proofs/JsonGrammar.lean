/-
The grammar of JSON texts, and its reader.

* **`Json.SpellsText`**: what is between the quotes of a string, character by character;
* **`Json.Spells`**: a text spells a value, the items of an array, or the members of an object, in
  no more than so many levels of brackets;
* **`Json.Spells.reads`**: the reader finds what a text spells, whatever follows it;
* **`Json.Spells.isSpace_of_control`**: no control character is part of it but blanks;
* **`Json.Encodes.readDocument_eq`**: a text with blanks around a value is read as that value, where
  the stack has enough levels for it.

Design notes: a value begins and ends with a character that is no blank, so the blanks of a text
are where the grammar has them and nowhere else.  Values, items and members are one inductive
family over `Phrase`, and so are proved about by one induction.  The levels are those of the text
and not of the value: a member that does not count may be nested deeper than any that does.  Words
and numbers are left out: no hand-off that is accepted holds one.
-/
import LiteralSplice.Json.Reader
import Mathlib.Data.List.TakeWhile

namespace LiteralSplice

namespace Json

/-! ### The grammar -/

/-- Blanks as they may stand between the parts of a value. -/
def Spaces (w : Text) : Prop := ∀ c ∈ w, isSpace c = true

/-- The letters that may follow a backslash, and what they stand for. -/
def shortEscapes : List (CodePoint × CodePoint) :=
  [('"', '"'), ('\\', '\\'), ('/', '/'), ('b', CodePoint.ofNat 0x08), ('f', CodePoint.ofNat 0x0C),
    ('n', '\n'), ('r', '\r'), ('t', '\t')]

/-- A `\u` escape with four hexadecimal digits. -/
def unitEscape (a b c d : CodePoint) : Text := ['\\', 'u', a, b, c, d]

/-- Characters between the quotes of a string spell a text. -/
inductive SpellsText : Text → Text → Prop
  | nil : SpellsText [] []
  | plain {c s t} (hcontrol : 0x20 ≤ c.val) (hquote : c ≠ CodePoint.ofChar '"')
      (hslash : c ≠ CodePoint.ofChar '\\') (h : SpellsText s t) : SpellsText (c :: s) (c :: t)
  | short {e c s t} (he : (e, c) ∈ shortEscapes) (h : SpellsText s t) :
      SpellsText (CodePoint.ofChar '\\' :: e :: s) (c :: t)
  | unit {a b c d u s t} (hu : unit? a b c d = some u) (hhigh : u.isHighSurrogate = false)
      (h : SpellsText s t) : SpellsText (unitEscape a b c d ++ s) (u :: t)
  | pair {a b c d a' b' c' d' u v s t} (hu : unit? a b c d = some u)
      (hhigh : u.isHighSurrogate = true) (hv : unit? a' b' c' d' = some v)
      (hlow : v.isLowSurrogate = true) (h : SpellsText s t) :
      SpellsText (unitEscape a b c d ++ (unitEscape a' b' c' d' ++ s))
        (CodePoint.joinHalves u v :: t)

/-- What a text can spell: a value, or what is between the brackets of one. -/
inductive Phrase where
  | value (v : Json)
  | items (vs : List Json)
  | members (ms : List (Text × Json))

/-- A text spells a phrase in no more than so many levels of brackets.  Of members with the same
name the last one counts. -/
inductive Spells : Nat → Text → Phrase → Prop
  | string {n s t} (h : SpellsText s t) :
      Spells n (CodePoint.ofChar '"' :: (s ++ [CodePoint.ofChar '"'])) (.value (.string t))
  | noItems {n w} (hw : Spaces w) :
      Spells (n + 1) (CodePoint.ofChar '[' :: (w ++ [CodePoint.ofChar ']'])) (.value (.array []))
  | array {n w s vs} (hw : Spaces w) (h : Spells n s (.items vs)) :
      Spells (n + 1) (CodePoint.ofChar '[' :: (w ++ (s ++ [CodePoint.ofChar ']'])))
        (.value (.array vs))
  | noMembers {n w} (hw : Spaces w) :
      Spells (n + 1) (CodePoint.ofChar '\x7b' :: (w ++ [CodePoint.ofChar '\x7d']))
        (.value (.object []))
  | object {n w s ms} (hw : Spaces w) (h : Spells n s (.members ms)) :
      Spells (n + 1) (CodePoint.ofChar '\x7b' :: (w ++ (s ++ [CodePoint.ofChar '\x7d'])))
        (.value (.object (ms.foldl (fun ms (k, v) => insert ms k v) [])))
  | lastItem {n s w v} (h : Spells n s (.value v)) (hw : Spaces w) :
      Spells n (s ++ w) (.items [v])
  | item {n s w w' r v vs} (h : Spells n s (.value v)) (hw : Spaces w) (hw' : Spaces w')
      (hr : Spells n r (.items vs)) :
      Spells n (s ++ (w ++ CodePoint.ofChar ',' :: (w' ++ r))) (.items (v :: vs))
  | lastMember {n k w w' s w'' t v} (hk : Spells n k (.value (.string t))) (hw : Spaces w)
      (hw' : Spaces w') (h : Spells n s (.value v)) (hw'' : Spaces w'') :
      Spells n (k ++ (w ++ CodePoint.ofChar ':' :: (w' ++ (s ++ w'')))) (.members [(t, v)])
  | member {n k w w' s w'' w₃ r t v ms} (hk : Spells n k (.value (.string t))) (hw : Spaces w)
      (hw' : Spaces w') (h : Spells n s (.value v)) (hw'' : Spaces w'') (hw₃ : Spaces w₃)
      (hr : Spells n r (.members ms)) :
      Spells n (k ++ (w ++ CodePoint.ofChar ':' ::
        (w' ++ (s ++ (w'' ++ CodePoint.ofChar ',' :: (w₃ ++ r)))))) (.members ((t, v) :: ms))

/-! ### Strings -/

theorem escaped?_of_mem {e c : CodePoint} (h : (e, c) ∈ shortEscapes) :
    escaped? e = some c ∧ e ≠ CodePoint.ofChar 'u' := by
  have hall : (shortEscapes.all fun p =>
      decide (escaped? p.1 = some p.2 ∧ p.1 ≠ CodePoint.ofChar 'u')) = true := by decide
  exact of_decide_eq_true (List.all_eq_true.mp hall (e, c) h)

theorem joinPieces_cons {c : CodePoint} {numbered : Bool}
    (hc : numbered = false ∨ c.isHighSurrogate = false) (pieces : List Piece) :
    joinPieces (⟨c, numbered⟩ :: pieces) = c :: joinPieces pieces := by
  rcases pieces with _ | ⟨q, rest⟩
  · rfl
  · rw [joinPieces, if_neg]
    rintro ⟨hnumbered, -, hhigh, -⟩
    rcases hc with hc | hc
    · cases hnumbered.symm.trans hc
    · cases hhigh.symm.trans hc

theorem joinPieces_pair {u v : CodePoint} (hu : u.isHighSurrogate = true)
    (hv : v.isLowSurrogate = true) (pieces : List Piece) :
    joinPieces (⟨u, true⟩ :: ⟨v, true⟩ :: pieces)
      = CodePoint.joinHalves u v :: joinPieces pieces := by
  rw [joinPieces, if_pos ⟨rfl, rfl, hu, hv⟩]

section

variable {opening : Nat} {r rest : Text} {pieces : List Piece}

theorem stringPieces_plain {c : CodePoint} (hcontrol : 0x20 ≤ c.val)
    (hquote : c ≠ CodePoint.ofChar '"') (hslash : c ≠ CodePoint.ofChar '\\')
    (h : stringPieces opening r = .ok (pieces, rest)) :
    stringPieces opening (c :: r) = .ok (⟨c, false⟩ :: pieces, rest) := by
  rw [stringPieces.eq_def]
  simp only [if_neg hquote, if_neg hslash, if_neg (Nat.not_lt.mpr hcontrol), h]
  rfl

theorem stringPieces_short {e c : CodePoint} (he : escaped? e = some c)
    (hu : e ≠ CodePoint.ofChar 'u') (h : stringPieces opening r = .ok (pieces, rest)) :
    stringPieces opening (CodePoint.ofChar '\\' :: e :: r) = .ok (⟨c, false⟩ :: pieces, rest) := by
  have hquote : CodePoint.ofChar '\\' ≠ CodePoint.ofChar '"' := by decide
  rw [stringPieces.eq_def]
  simp only [if_neg hquote, if_true, if_neg hu, he, h]
  rfl

theorem stringPieces_unit {a b c d u : CodePoint} (hu : unit? a b c d = some u) (hne : r ≠ [])
    (h : stringPieces opening r = .ok (pieces, rest)) :
    stringPieces opening (unitEscape a b c d ++ r) = .ok (⟨u, true⟩ :: pieces, rest) := by
  obtain ⟨next, r, rfl⟩ := List.exists_cons_of_ne_nil hne
  have hquote : CodePoint.ofChar '\\' ≠ CodePoint.ofChar '"' := by decide
  rw [stringPieces.eq_def]
  simp only [unitEscape, List.cons_append, List.nil_append, if_neg hquote, if_true, hu, h]
  rfl

end

/-- What spells a text is read as pieces of that text, up to the closing quote. -/
theorem SpellsText.stringPieces_eq {s t : Text} (h : SpellsText s t) (opening : Nat) (rest : Text) :
    ∃ pieces, stringPieces opening (s ++ CodePoint.ofChar '"' :: rest) = .ok (pieces, rest) ∧
      joinPieces pieces = t := by
  induction h with
  | nil => exact ⟨[], by rw [List.nil_append, stringPieces.eq_def]; rfl, rfl⟩
  | plain hcontrol hquote hslash _ ih =>
    obtain ⟨pieces, hpieces, hjoin⟩ := ih
    exact ⟨_, stringPieces_plain hcontrol hquote hslash hpieces, by
      rw [joinPieces_cons (Or.inl rfl), hjoin]⟩
  | short he _ ih =>
    obtain ⟨pieces, hpieces, hjoin⟩ := ih
    obtain ⟨hescaped, hu⟩ := escaped?_of_mem he
    exact ⟨_, stringPieces_short hescaped hu hpieces, by rw [joinPieces_cons (Or.inl rfl), hjoin]⟩
  | unit hu hhigh _ ih =>
    obtain ⟨pieces, hpieces, hjoin⟩ := ih
    refine ⟨⟨_, true⟩ :: pieces, ?_, by rw [joinPieces_cons (Or.inr hhigh), hjoin]⟩
    rw [List.append_assoc]
    exact stringPieces_unit hu (by simp) hpieces
  | pair hu hhigh hv hlow _ ih =>
    obtain ⟨pieces, hpieces, hjoin⟩ := ih
    refine ⟨_, ?_, by rw [joinPieces_pair hhigh hlow, hjoin]⟩
    rw [List.append_assoc, List.append_assoc]
    exact stringPieces_unit hu (by simp [unitEscape]) (stringPieces_unit hv (by simp) hpieces)

theorem SpellsText.stringBody_eq {s t : Text} (h : SpellsText s t) (rest : Text) :
    stringBody (s ++ CodePoint.ofChar '"' :: rest) = .ok (t, rest) := by
  obtain ⟨pieces, hpieces, hjoin⟩ :=
    h.stringPieces_eq ((s ++ CodePoint.ofChar '"' :: rest).length + 1) rest
  rw [stringBody, hpieces, ← hjoin]
  rfl

/-! ### Values -/

theorem Spaces.skip_append {w r : Text} {c : CodePoint} (hw : Spaces w) (hc : isSpace c = false) :
    skip (w ++ c :: r) = c :: r := by
  rw [skip, List.dropWhile_append_of_pos hw, List.dropWhile_cons_of_neg]
  rw [hc]
  exact Bool.false_ne_true

theorem Spaces.skip_self {w : Text} (hw : Spaces w) : skip w = [] :=
  List.dropWhile_eq_nil_iff.mpr hw

/-- The characters that a value can begin with: it is a string, an array, an object or a count. -/
def openers : List CodePoint :=
  [CodePoint.ofChar '"', CodePoint.ofChar '[', CodePoint.ofChar '{']
    ++ (List.range 10).map CodePoint.digit

theorem of_mem_openers {c : CodePoint} (hc : c ∈ openers) :
    isSpace c = false ∧ c ≠ CodePoint.ofChar ']' ∧ c ≠ CodePoint.ofChar '\x7d' := by
  have hall : (openers.all fun c => decide
      (isSpace c = false ∧ c ≠ CodePoint.ofChar ']' ∧ c ≠ CodePoint.ofChar '\x7d')) = true := by
    decide
  exact of_decide_eq_true (List.all_eq_true.mp hall c hc)

theorem Spells.opens {n : Nat} {s : Text} {p : Phrase} (h : Spells n s p) :
    ∃ c r, s = c :: r ∧ c ∈ openers := by
  induction h with
  | string => exact ⟨_, _, rfl, by decide⟩
  | noItems => exact ⟨_, _, rfl, by decide⟩
  | array => exact ⟨_, _, rfl, by decide⟩
  | noMembers => exact ⟨_, _, rfl, by decide⟩
  | object => exact ⟨_, _, rfl, by decide⟩
  | lastItem _ _ ih =>
    obtain ⟨c, r, rfl, hc⟩ := ih
    exact ⟨c, _, rfl, hc⟩
  | item _ _ _ _ ih =>
    obtain ⟨c, r, rfl, hc⟩ := ih
    exact ⟨c, _, rfl, hc⟩
  | lastMember _ _ _ _ _ ih =>
    obtain ⟨c, r, rfl, hc⟩ := ih
    exact ⟨c, _, rfl, hc⟩
  | member _ _ _ _ _ _ _ ih =>
    obtain ⟨c, r, rfl, hc⟩ := ih
    exact ⟨c, _, rfl, hc⟩

section

variable {levels fuel : Nat} {w w' w'' w₃ s r rest : Text} {v : Json} {vs : List Json}
  {ms : List (Text × Json)}

theorem value_string {t : Text} (h : SpellsText s t) :
    value levels (fuel + 1) (CodePoint.ofChar '"' :: (s ++ CodePoint.ofChar '"' :: rest))
      = .ok (.string t, rest) := by
  rw [value.eq_def]
  simp only [if_true, h.stringBody_eq]
  rfl

theorem value_noItems (hw : Spaces w) :
    value (levels + 1) (fuel + 1) (CodePoint.ofChar '[' :: (w ++ CodePoint.ofChar ']' :: rest))
      = .ok (.array [], rest) := by
  rw [value, if_neg (by decide), if_neg (by decide), if_pos rfl, hw.skip_append (by decide)]
  rfl

theorem value_array {c : CodePoint} (hw : Spaces w) (hc : c ∈ openers)
    (h : items levels fuel (c :: s) = .ok (vs, rest)) :
    value (levels + 1) (fuel + 1) (CodePoint.ofChar '[' :: (w ++ c :: s))
      = .ok (.array vs, rest) := by
  obtain ⟨hspace, hclose, -⟩ := of_mem_openers hc
  rw [value, if_neg (by decide), if_neg (by decide), if_pos rfl, hw.skip_append hspace]
  simp only [if_neg hclose, h]
  rfl

theorem value_noMembers (hw : Spaces w) :
    value (levels + 1) (fuel + 1)
        (CodePoint.ofChar '\x7b' :: (w ++ CodePoint.ofChar '\x7d' :: rest))
      = .ok (.object [], rest) := by
  rw [value, if_neg (by decide), if_pos rfl, hw.skip_append (by decide)]
  rfl

theorem value_object {c : CodePoint} (hw : Spaces w) (hc : c ∈ openers)
    (h : members levels fuel (c :: s) = .ok (ms, rest)) :
    value (levels + 1) (fuel + 1) (CodePoint.ofChar '\x7b' :: (w ++ c :: s))
      = .ok (.object (ms.foldl (fun ms (k, v) => insert ms k v) []), rest) := by
  obtain ⟨hspace, -, hclose⟩ := of_mem_openers hc
  rw [value, if_neg (by decide), if_pos rfl, hw.skip_append hspace]
  simp only [if_neg hclose, h]
  rfl

theorem items_last (hv : value levels fuel s = .ok (v, w ++ CodePoint.ofChar ']' :: rest))
    (hw : Spaces w) : items levels (fuel + 1) s = .ok ([v], rest) := by
  have hskip : skip (w ++ CodePoint.ofChar ']' :: rest) = CodePoint.ofChar ']' :: rest :=
    hw.skip_append (by decide)
  rw [items, hv]
  simp only [bind, Except.bind, hskip]
  rfl

theorem items_cons {c : CodePoint}
    (hv : value levels fuel s = .ok (v, w ++ CodePoint.ofChar ',' :: (w' ++ c :: r)))
    (hw : Spaces w) (hw' : Spaces w') (hc : c ∈ openers)
    (h : items levels fuel (c :: r) = .ok (vs, rest)) :
    items levels (fuel + 1) s = .ok (v :: vs, rest) := by
  have hskip : skip (w ++ CodePoint.ofChar ',' :: (w' ++ c :: r))
      = CodePoint.ofChar ',' :: (w' ++ c :: r) := hw.skip_append (by decide)
  have hskip' : skip (w' ++ c :: r) = c :: r := hw'.skip_append (of_mem_openers hc).1
  have hclose : CodePoint.ofChar ',' ≠ CodePoint.ofChar ']' := by decide
  rw [items, hv]
  simp only [bind, Except.bind, hskip, if_neg hclose, if_true, hskip', h]
  rfl

theorem members_last {c : CodePoint} {t k : Text} (hk : SpellsText k t) (hw : Spaces w)
    (hw' : Spaces w') (hc : c ∈ openers)
    (hv : value levels fuel (c :: s) = .ok (v, w'' ++ CodePoint.ofChar '\x7d' :: rest))
    (hw'' : Spaces w'') :
    members levels (fuel + 1) (CodePoint.ofChar '"' :: (k ++ CodePoint.ofChar '"' ::
      (w ++ CodePoint.ofChar ':' :: (w' ++ c :: s)))) = .ok ([(t, v)], rest) := by
  have hskip : skip (w ++ CodePoint.ofChar ':' :: (w' ++ c :: s))
      = CodePoint.ofChar ':' :: (w' ++ c :: s) := hw.skip_append (by decide)
  have hskip' : skip (w' ++ c :: s) = c :: s := hw'.skip_append (of_mem_openers hc).1
  have hskip'' : skip (w'' ++ CodePoint.ofChar '\x7d' :: rest) = CodePoint.ofChar '\x7d' :: rest :=
    hw''.skip_append (by decide)
  rw [members, if_pos rfl, hk.stringBody_eq]
  simp only [bind, Except.bind, hskip, if_true, hskip', hv, hskip'']
  rfl

theorem members_cons {c d : CodePoint} {t k : Text} (hk : SpellsText k t) (hw : Spaces w)
    (hw' : Spaces w') (hc : c ∈ openers)
    (hv : value levels fuel (c :: s) = .ok (v, w'' ++ CodePoint.ofChar ',' :: (w₃ ++ d :: r)))
    (hw'' : Spaces w'') (hw₃ : Spaces w₃) (hd : d ∈ openers)
    (h : members levels fuel (d :: r) = .ok (ms, rest)) :
    members levels (fuel + 1) (CodePoint.ofChar '"' :: (k ++ CodePoint.ofChar '"' ::
      (w ++ CodePoint.ofChar ':' :: (w' ++ c :: s)))) = .ok ((t, v) :: ms, rest) := by
  have hskip : skip (w ++ CodePoint.ofChar ':' :: (w' ++ c :: s))
      = CodePoint.ofChar ':' :: (w' ++ c :: s) := hw.skip_append (by decide)
  have hskip' : skip (w' ++ c :: s) = c :: s := hw'.skip_append (of_mem_openers hc).1
  have hskip'' : skip (w'' ++ CodePoint.ofChar ',' :: (w₃ ++ d :: r))
      = CodePoint.ofChar ',' :: (w₃ ++ d :: r) := hw''.skip_append (by decide)
  have hskip₃ : skip (w₃ ++ d :: r) = d :: r := hw₃.skip_append (of_mem_openers hd).1
  have hclose : CodePoint.ofChar ',' ≠ CodePoint.ofChar '\x7d' := by decide
  rw [members, if_pos rfl, hk.stringBody_eq]
  simp only [bind, Except.bind, hskip, if_true, hskip', hv, hskip'', if_neg hclose, hskip₃, h]
  rfl

end

/-- The reader finds a phrase at the start of a text, whatever follows it, if it may take two
steps for each character. -/
def Reads (levels : Nat) (s : Text) : Phrase → Prop
  | .value v => ∀ fuel rest, 2 * s.length ≤ fuel → value levels fuel (s ++ rest) = .ok (v, rest)
  | .items vs => ∀ fuel rest, 2 * s.length + 1 ≤ fuel →
      items levels fuel (s ++ CodePoint.ofChar ']' :: rest) = .ok (vs, rest)
  | .members ms => ∀ fuel rest, 2 * s.length + 1 ≤ fuel →
      members levels fuel (s ++ CodePoint.ofChar '\x7d' :: rest) = .ok (ms, rest)

theorem Spells.reads {n : Nat} {s : Text} {p : Phrase} (h : Spells n s p) : Reads n s p := by
  -- A value is shorter by its brackets than the phrase inside it, which takes one step more.
  induction h with
  | string h =>
    intro fuel rest hfuel
    obtain ⟨fuel, rfl⟩ : ∃ f, fuel = f + 1 := ⟨fuel - 1, by simp at hfuel; omega⟩
    simp only [List.cons_append, List.append_assoc, List.nil_append]
    exact value_string h
  | noItems hw =>
    intro fuel rest hfuel
    obtain ⟨fuel, rfl⟩ : ∃ f, fuel = f + 1 := ⟨fuel - 1, by simp at hfuel; omega⟩
    simp only [List.cons_append, List.append_assoc, List.nil_append]
    exact value_noItems hw
  | array hw h ih =>
    intro fuel rest hfuel
    obtain ⟨c, r, rfl, hc⟩ := h.opens
    obtain ⟨fuel, rfl⟩ : ∃ f, fuel = f + 1 := ⟨fuel - 1, by simp at hfuel; omega⟩
    simp only [List.cons_append, List.append_assoc, List.nil_append]
    refine value_array hw hc (ih fuel rest ?_)
    simp only [List.length_cons, List.length_append, List.length_nil] at hfuel ⊢
    omega
  | noMembers hw =>
    intro fuel rest hfuel
    obtain ⟨fuel, rfl⟩ : ∃ f, fuel = f + 1 := ⟨fuel - 1, by simp at hfuel; omega⟩
    simp only [List.cons_append, List.append_assoc, List.nil_append]
    exact value_noMembers hw
  | object hw h ih =>
    intro fuel rest hfuel
    obtain ⟨c, r, rfl, hc⟩ := h.opens
    obtain ⟨fuel, rfl⟩ : ∃ f, fuel = f + 1 := ⟨fuel - 1, by simp at hfuel; omega⟩
    simp only [List.cons_append, List.append_assoc, List.nil_append]
    refine value_object hw hc (ih fuel rest ?_)
    simp only [List.length_cons, List.length_append, List.length_nil] at hfuel ⊢
    omega
  | lastItem h hw ih =>
    intro fuel rest hfuel
    obtain ⟨fuel, rfl⟩ : ∃ f, fuel = f + 1 := ⟨fuel - 1, by omega⟩
    simp only [List.length_append] at hfuel
    rw [List.append_assoc]
    exact items_last (ih fuel _ (by omega)) hw
  | item h hw hw' hr ih ihr =>
    intro fuel rest hfuel
    obtain ⟨c, r, rfl, hc⟩ := hr.opens
    obtain ⟨fuel, rfl⟩ : ∃ f, fuel = f + 1 := ⟨fuel - 1, by omega⟩
    simp only [List.length_append, List.length_cons] at hfuel
    simp only [List.append_assoc, List.cons_append]
    refine items_cons (ih fuel _ (by omega)) hw hw' hc (ihr fuel rest ?_)
    simp only [List.length_cons]
    omega
  | lastMember hk hw hw' h hw'' ihk ih =>
    intro fuel rest hfuel
    obtain ⟨c, r, rfl, hc⟩ := h.opens
    obtain ⟨fuel, rfl⟩ : ∃ f, fuel = f + 1 := ⟨fuel - 1, by omega⟩
    cases hk with
    | string hk =>
      simp only [List.length_append, List.length_cons] at hfuel
      simp only [List.append_assoc, List.cons_append, List.nil_append]
      refine members_last hk hw hw' hc (ih fuel _ ?_) hw''
      simp only [List.length_cons]
      omega
  | member hk hw hw' h hw'' hw₃ hr ihk ih ihr =>
    intro fuel rest hfuel
    obtain ⟨c, r, rfl, hc⟩ := h.opens
    obtain ⟨d, r', rfl, hd⟩ := hr.opens
    obtain ⟨fuel, rfl⟩ : ∃ f, fuel = f + 1 := ⟨fuel - 1, by omega⟩
    cases hk with
    | string hk =>
      simp only [List.length_append, List.length_cons] at hfuel
      simp only [List.append_assoc, List.cons_append, List.nil_append]
      refine members_cons hk hw hw' hc (ih fuel _ ?_) hw'' hw₃ hd (ihr fuel rest ?_) <;>
        · simp only [List.length_cons]
          omega

/-! ### Control characters -/

theorem hexValue?_control {c : CodePoint} (hc : c.val < 0x20) : c.hexValue? = none := by
  rw [CodePoint.hexValue?, if_neg (by omega), CodePoint.hexUpperValue?]
  split
  · omega
  · split
    · omega
    · rfl

theorem control_not_mem_unitEscape {a b c d u x : CodePoint} (hu : unit? a b c d = some u)
    (hx : x.val < 0x20) : x ∉ unitEscape a b c d := by
  have hnone := hexValue?_control hx
  intro hmem
  simp only [unitEscape, List.mem_cons, List.not_mem_nil, or_false] at hmem
  rcases hmem with rfl | rfl | rfl | rfl | rfl | rfl
  · exact absurd hx (by decide)
  · exact absurd hx (by decide)
  all_goals simp [unit?, hnone] at hu

/-- Between the quotes of a string there are no control characters. -/
theorem SpellsText.control_not_mem {s t : Text} (h : SpellsText s t) {x : CodePoint}
    (hx : x.val < 0x20) : x ∉ s := by
  induction h with
  | nil => exact List.not_mem_nil
  | plain hcontrol hquote hslash h ih =>
    intro hmem
    rcases List.mem_cons.mp hmem with rfl | hmem
    · exact absurd hcontrol (Nat.not_le.mpr hx)
    · exact ih hmem
  | short he h ih =>
    have hall : (shortEscapes.all fun p => 0x20 ≤ p.1.val) = true := by decide
    have hletter := List.all_eq_true.mp hall _ he
    intro hmem
    rcases List.mem_cons.mp hmem with rfl | hmem
    · exact absurd hx (by decide)
    rcases List.mem_cons.mp hmem with rfl | hmem
    · exact absurd (of_decide_eq_true hletter) (Nat.not_le.mpr hx)
    · exact ih hmem
  | unit hu hhigh h ih =>
    intro hmem
    rcases List.mem_append.mp hmem with hmem | hmem
    · exact control_not_mem_unitEscape hu hx hmem
    · exact ih hmem
  | pair hu hhigh hv hlow h ih =>
    intro hmem
    rcases List.mem_append.mp hmem with hmem | hmem
    · exact control_not_mem_unitEscape hu hx hmem
    rcases List.mem_append.mp hmem with hmem | hmem
    · exact control_not_mem_unitEscape hv hx hmem
    · exact ih hmem

/-- The only control characters of what spells a phrase are blanks between its parts. -/
theorem Spells.isSpace_of_control {n : Nat} {s : Text} {p : Phrase} (h : Spells n s p) :
    ∀ x ∈ s, x.val < 0x20 → isSpace x = true := by
  -- A mark of the grammar is no control character.
  have hmark : ∀ {c : CodePoint}, 0x20 ≤ c.val → c.val < 0x20 → isSpace c = true := by
    intro c hc hc'
    exact absurd hc' (Nat.not_lt.mpr hc)
  have hspaces : ∀ {w : Text}, Spaces w → ∀ x ∈ w, x.val < 0x20 → isSpace x = true :=
    fun hw x hmem _ => hw x hmem
  induction h with
  | string h =>
    simp only [List.forall_mem_cons, List.forall_mem_append, List.not_mem_nil, false_implies,
      implies_true, and_true]
    exact ⟨hmark (by decide), fun x hmem hx => absurd hmem (h.control_not_mem hx),
      hmark (by decide)⟩
  | noItems hw =>
    simp only [List.forall_mem_cons, List.forall_mem_append, List.not_mem_nil, false_implies,
      implies_true, and_true]
    exact ⟨hmark (by decide), hspaces hw, hmark (by decide)⟩
  | array hw h ih =>
    simp only [List.forall_mem_cons, List.forall_mem_append, List.not_mem_nil, false_implies,
      implies_true, and_true]
    exact ⟨hmark (by decide), hspaces hw, ih, hmark (by decide)⟩
  | noMembers hw =>
    simp only [List.forall_mem_cons, List.forall_mem_append, List.not_mem_nil, false_implies,
      implies_true, and_true]
    exact ⟨hmark (by decide), hspaces hw, hmark (by decide)⟩
  | object hw h ih =>
    simp only [List.forall_mem_cons, List.forall_mem_append, List.not_mem_nil, false_implies,
      implies_true, and_true]
    exact ⟨hmark (by decide), hspaces hw, ih, hmark (by decide)⟩
  | lastItem h hw ih =>
    simp only [List.forall_mem_append]
    exact ⟨ih, hspaces hw⟩
  | item h hw hw' hr ih ihr =>
    simp only [List.forall_mem_cons, List.forall_mem_append]
    exact ⟨ih, hspaces hw, hmark (by decide), hspaces hw', ihr⟩
  | lastMember hk hw hw' h hw'' ihk ih =>
    simp only [List.forall_mem_cons, List.forall_mem_append]
    exact ⟨ihk, hspaces hw, hmark (by decide), hspaces hw', ih, hspaces hw''⟩
  | member hk hw hw' h hw'' hw₃ hr ihk ih ihr =>
    simp only [List.forall_mem_cons, List.forall_mem_append]
    exact ⟨ihk, hspaces hw, hmark (by decide), hspaces hw', ih, hspaces hw'', hmark (by decide),
      hspaces hw₃, ihr⟩

/-! ### Whole texts -/

variable [Stack]

/-- A text encodes a value: it spells the value in no more levels than the stack has, with blanks
around it. -/
def Encodes (t : Text) (v : Json) : Prop :=
  ∃ w s w', Spaces w ∧ Spells Stack.levels s (.value v) ∧ Spaces w' ∧ t = w ++ (s ++ w')

theorem Encodes.read_eq {t : Text} {v : Json} (h : Encodes t v) : read t = .ok v := by
  obtain ⟨w, s, w', hw, hs, hw', rfl⟩ := h
  obtain ⟨c, r, rfl, hc⟩ := hs.opens
  have hskip : skip (w ++ (c :: r ++ w')) = c :: r ++ w' := hw.skip_append (of_mem_openers hc).1
  have hvalue := hs.reads (2 * (w ++ (c :: r ++ w')).length + 2) w' (by
    simp only [List.length_append]
    omega)
  rw [read, hskip, hvalue]
  simp only [hw'.skip_self]

theorem Encodes.isSpace_of_control {t : Text} {v : Json} (h : Encodes t v) :
    ∀ x ∈ t, x.val < 0x20 → isSpace x = true := by
  obtain ⟨w, s, w', hw, hs, hw', rfl⟩ := h
  simp only [List.forall_mem_append]
  exact ⟨fun x hmem _ => hw x hmem, hs.isSpace_of_control, fun x hmem _ => hw' x hmem⟩

/-- A text that encodes a value begins with a blank or with the first character of a value. -/
theorem Encodes.opens {t : Text} {v : Json} (h : Encodes t v) :
    ∃ c r, t = c :: r ∧ (isSpace c = true ∨ c ∈ openers) := by
  obtain ⟨w, s, w', hw, hs, -, rfl⟩ := h
  rcases w with _ | ⟨c, w⟩
  · obtain ⟨c, r, rfl, hc⟩ := hs.opens
    exact ⟨c, r ++ w', rfl, Or.inr hc⟩
  · exact ⟨c, w ++ (s ++ w'), rfl, Or.inl (hw c List.mem_cons_self)⟩

/-- A text that encodes a value begins with no byte order mark. -/
theorem Encodes.readDocument_eq {t : Text} {v : Json} (h : Encodes t v) :
    readDocument t = .ok v := by
  have hmark : t.head? ≠ some (CodePoint.ofNat 0xFEFF) := by
    obtain ⟨c, r, rfl, hc⟩ := h.opens
    intro hhead
    cases hhead
    exact absurd hc (by decide)
  rw [readDocument, if_neg hmark, h.read_eq]

end Json

end LiteralSplice
